import AiApiBridge.Config
import AiApiBridge.Lib.KeyedTable

/-!
# The SQLite store

The providers, routes and settings tables with the statements the bridge runs on
them (`store.rs` and its migrations), and the decoding of their rows. Primary keys
and the foreign key from routes to providers are part of a `Database`, as SQLite
enforces them. `serde_json` at the types of the JSON columns is a `Codec` each.
-/

set_option autoImplicit false

namespace AiApiBridge

/-- `serde_json::to_string` and `serde_json::from_str` at one type. -/
structure Codec (α : Type) where
  toString : α → String
  fromStr : String → Option α

namespace Store

/-- `serde_json` at the types of the JSON columns and of the stored fallback
route. -/
structure Columns where
  extraHeaders : Codec (List (String × String))
  costWindows : Codec (List CostWindow)
  models : Codec (List String)
  modelPrices : Codec (List (String × ModelPrice))
  usage : Codec (List UsageSpec)
  fallback : Codec (List RouteTarget)
  fallbackRoute : Codec (Option RouteTarget)

/-! ## Rows -/

/-- A row of `providers`. Integer columns are `i64`. -/
structure ProviderRow where
  name : String
  wire : String
  baseUrl : String
  apiKey : Option String
  modelPrefix : Option String
  maxTokensField : String
  extraHeaders : String
  probeScript : Option String
  probeEnabled : Option Int
  probeScriptText : Option String
  probeSource : String
  probeIntervalSecs : Option Int
  quotaMin : Option FloatValue
  costWindows : String
  models : String
  modelPrices : String
  usage : String
  deriving DecidableEq, Repr

/-- A row of `routes`. -/
structure RouteRow where
  routeAlias : String
  provider : String
  model : String
  fallback : String
  deriving DecidableEq, Repr

def probeSourceToStr : ProbeSource → String
  | .path => "path"
  | .text => "text"

def strToProbeSource (s : String) : ProbeSource := if s = "text" then .text else .path

/-- The cast of an `i64` to `u64`. -/
def asU64 (i : Int) : Nat := (i % 2 ^ 64).toNat

/-- A bound `REAL` value. SQLite stores a NaN as `NULL`. -/
def bindReal : Option FloatValue → Option FloatValue
  | some .nan => none
  | v => v

section Rows

variable (c : Columns)

/-- The row that `insert_provider`, `update_provider` and `seed_from_config` bind. -/
def providerRow (name : String) (p : Provider) : ProviderRow where
  name := name
  wire := p.wire.asStr
  baseUrl := p.baseUrl
  apiKey := p.apiKey
  modelPrefix := p.modelPrefix
  maxTokensField := p.maxTokensField
  extraHeaders := c.extraHeaders.toString p.extraHeaders
  probeScript := p.probeScript
  probeScriptText := p.probeScriptText
  probeSource := probeSourceToStr p.probeSource
  probeEnabled := p.probeEnabled.map fun b => if b then 1 else 0
  probeIntervalSecs := p.probeIntervalSecs.map asI64
  quotaMin := bindReal p.quotaMin
  costWindows := c.costWindows.toString p.costWindows
  models := c.models.toString p.models
  modelPrices := c.modelPrices.toString p.modelPrices
  usage := c.usage.toString p.usage

def rowToProvider (r : ProviderRow) : Except String Provider :=
  match WireName.parse r.wire with
  | none => .error ("unknown wire format in DB: " ++ r.wire)
  | some wire =>
      let p : Provider :=
        { wire
          baseUrl := r.baseUrl
          apiKey := r.apiKey
          modelPrefix := r.modelPrefix
          maxTokensField := r.maxTokensField
          extraHeaders := (c.extraHeaders.fromStr r.extraHeaders).getD []
          probeScript := r.probeScript
          probeScriptText := r.probeScriptText
          probeSource := strToProbeSource r.probeSource
          probeEnabled := r.probeEnabled.map fun b => b ≠ 0
          probeIntervalSecs := r.probeIntervalSecs.map asU64
          quotaMin := r.quotaMin
          costWindows := (c.costWindows.fromStr r.costWindows).getD []
          models := (c.models.fromStr r.models).getD []
          modelPrices := (c.modelPrices.fromStr r.modelPrices).getD []
          usage := (c.usage.fromStr r.usage).getD [] }
      .ok p.normalizeUsage

/-- The row that `insert_route` and `update_route` bind. -/
def routeRow (r : Route) : RouteRow :=
  ⟨r.routeAlias, r.provider, r.model, c.fallback.toString r.fallback⟩

def rowToRoute (r : RouteRow) : Route :=
  ⟨r.routeAlias, r.provider, r.model, (c.fallback.fromStr r.fallback).getD []⟩

end Rows

end Store

/-! ## The database -/

open Store

/-- The tables, with what the schema enforces. -/
@[ext]
structure Database where
  providers : KeyedTable ProviderRow.name
  routes : KeyedTable RouteRow.routeAlias
  settings : KeyedTable (Prod.fst : String × String → String)
  foreignKey : ∀ r ∈ routes.rows, r.provider ∈ providers.keys
  deriving DecidableEq

/-- A failed statement. -/
inductive SqlError where
  | unique (column : String)
  | foreignKey
  deriving DecidableEq, Repr

namespace Database

def empty : Database := ⟨.empty, .empty, .empty, fun _ h => nomatch h⟩

/-! Every statement returns the tables it leaves and the number of rows it
affected. -/

/-- `INSERT INTO providers`. -/
def insertProvider (row : ProviderRow) (db : Database) : Except SqlError (Database × Nat) :=
  if h : row.name ∈ db.providers.keys then .error (.unique "providers.name")
  else .ok
    ({ db with
        providers := db.providers.insert row h
        foreignKey := fun r hr => by
          have := db.foreignKey r hr
          simp only [KeyedTable.keys, KeyedTable.rows_insert, List.map_append, List.mem_append]
          exact .inl this }, 1)

/-- `UPDATE providers … WHERE name = ?`. -/
def updateProvider (row : ProviderRow) (db : Database) : Except SqlError (Database × Nat) :=
  .ok
    ({ db with
        providers := db.providers.modify row
        foreignKey := fun r hr => by
          rw [KeyedTable.keys_modify]
          exact db.foreignKey r hr },
      if row.name ∈ db.providers.keys then 1 else 0)

/-- `DELETE FROM providers WHERE name = ?`, with the cascade to its routes. -/
def deleteProvider (name : String) (db : Database) : Except SqlError (Database × Nat) :=
  .ok
    ({ db with
        providers := db.providers.erase name
        -- `ON DELETE CASCADE`
        routes := db.routes.filter fun r => r.provider ≠ name
        foreignKey := fun r hr => by
          obtain ⟨hr, hne⟩ := List.mem_filter.1 hr
          exact KeyedTable.mem_keys_erase.2 ⟨db.foreignKey r hr, by simpa using hne⟩ },
      if name ∈ db.providers.keys then 1 else 0)

/-- `INSERT INTO routes`. -/
def insertRoute (row : RouteRow) (db : Database) : Except SqlError (Database × Nat) :=
  if h : row.routeAlias ∈ db.routes.keys then .error (.unique "routes.alias")
  else if hp : row.provider ∈ db.providers.keys then .ok
    ({ db with
        routes := db.routes.insert row h
        foreignKey := fun r hr => by
          rcases List.mem_append.1 hr with hr | hr
          · exact db.foreignKey r hr
          · rw [List.mem_singleton.1 hr]
            exact hp }, 1)
  else .error .foreignKey

/-- `UPDATE routes … WHERE alias = ?`. -/
def updateRoute (row : RouteRow) (db : Database) : Except SqlError (Database × Nat) :=
  if row.routeAlias ∈ db.routes.keys then
    if hp : row.provider ∈ db.providers.keys then .ok
      ({ db with
          routes := db.routes.modify row
          foreignKey := fun r hr => by
            obtain ⟨r', hr', rfl⟩ := List.mem_map.1 hr
            by_cases h : r'.routeAlias = row.routeAlias
            · simpa [h] using hp
            · simpa [h] using db.foreignKey r' hr' }, 1)
    else .error .foreignKey
  else .ok (db, 0)

/-- `DELETE FROM routes WHERE alias = ?`. -/
def deleteRoute (routeAlias : String) (db : Database) : Except SqlError (Database × Nat) :=
  .ok
    ({ db with
        routes := db.routes.erase routeAlias
        foreignKey := fun r hr => db.foreignKey r (List.mem_filter.1 hr).1 },
      if routeAlias ∈ db.routes.keys then 1 else 0)

/-- `INSERT OR REPLACE INTO settings`. -/
def replaceSetting (key value : String) (db : Database) : Except SqlError (Database × Nat) :=
  .ok ({ db with settings := db.settings.put (key, value) }, 1)

end Database

namespace Store

variable (c : Columns)

/-- `settings` key of the global fallback route. -/
def fallbackRouteKey : String := "fallback_route"

/-! ## Decoding -/

/-- The provider map of `load_into_config`. -/
def decodeProviders (rows : List ProviderRow) : Except String (List (String × Provider)) :=
  rows.mapM fun r => (rowToProvider c r).map fun p => (r.name, p)

/-- `load_fallback_route`: nothing when the key is absent, `some none` when the
route has been cleared. -/
def decodeFallbackRoute (settings : KeyedTable (Prod.fst : String × String → String)) :
    Option (Option RouteTarget) :=
  (settings.get? fallbackRouteKey).map fun kv => (c.fallbackRoute.fromStr kv.2).getD none

/-- What a database that stands still loads into a configuration. -/
def loaded (db : Database) (cfg : Config) : Except String Config :=
  (decodeProviders c db.providers.rows).map fun providers =>
    { cfg with
      providers
      routes := db.routes.rows.map (rowToRoute c)
      fallbackRoute := (decodeFallbackRoute c db.settings).getD cfg.fallbackRoute }

end Store

end AiApiBridge
