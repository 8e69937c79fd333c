import AiApiBridge.Store
import AiApiBridge.Sse
import AiApiBridge.Lib.Refresh

/-!
# The server state and its reload

`AppState` is what requests share: the live configuration and the database
(`server.rs`). A handler is an attempt on it whose accesses are the points where
the source awaits a statement or takes the configuration lock. `reloadFromDb`
clones the live configuration, runs the three queries of `load_into_config` one
after the other and swaps the result in.

The probe tasks and the status map that a reload also touches are not part of this
state.
-/

set_option autoImplicit false

namespace AiApiBridge

open Store Refresh

/-- The tables the live configuration is loaded from. -/
inductive Table where
  | providers
  | routes
  | settings
  deriving DecidableEq, Repr

instance : Fintype Table where
  elems := {.providers, .routes, .settings}
  complete := fun t => by cases t <;> decide

/-- The contents of a table. -/
abbrev Table.Rows : Table → Type
  | .providers => KeyedTable ProviderRow.name
  | .routes => KeyedTable RouteRow.routeAlias
  | .settings => KeyedTable (Prod.fst : String × String → String)

def Database.table (db : Database) : (t : Table) → t.Rows
  | .providers => db.providers
  | .routes => db.routes
  | .settings => db.settings

/-- The state shared by all requests. -/
structure AppState where
  config : Config
  db : Database
  deriving DecidableEq

/-- What the handlers find around them: `serde_json`, the texts of database errors,
`str::to_uppercase`, the process environment, and whether there is a database
handle. -/
structure Host where
  columns : Columns
  sqlText : SqlError → String
  toUppercase : String → String
  env : String → Option String
  connected : Bool

/-- A request handler, or a part of one. -/
abbrev Handler (ε α : Type) : Type := Attempt AppState (Event Table) ε α

/-! ## Accesses -/

/-- `AppState::config`: a snapshot of the live configuration. -/
def config {ε : Type} : Handler ε Config := .access (fun s => (s, .quiet)) fun s => .ok s.config

/-- Put a configuration in the place of the live one. -/
def swapConfig {ε : Type} (cfg : Config) : Handler ε Unit :=
  .access (fun s => ({ s with config := cfg }, .swapped)) fun _ => .ok ()

/-- A query over a whole table. -/
def select {ε α : Type} (t : Table) (decode : t.Rows → Except ε α) : Handler ε α :=
  .access (fun s => (s, .read t)) fun s => decode (s.db.table t)

/-- A writing statement that may touch the given tables; the result is the number of
rows affected. -/
def execute (host : Host) (touched : List Table)
    (statement : Database → Except SqlError (Database × Nat)) : Handler BridgeError Nat :=
  .access
    (fun s => match statement s.db with
      -- a statement that reaches no row commits nothing
      | .ok (db, n) => ({ s with db }, if n = 0 then .quiet else .committed touched)
      | .error _ => (s, .quiet))
    fun s => match statement s.db with
      | .ok (_, n) => .ok n
      | .error e => .error (.internal (host.sqlText e))

/-! ## Reload -/

/-- The database handle of the state. -/
def pool (host : Host) : Except BridgeError Unit :=
  if host.connected then .ok () else .error (.internal "no database handle")

def loadIntoConfig (c : Columns) (cfg : Config) : Handler String Config := do
  let providers ← select .providers fun t => decodeProviders c t.rows
  let routes ← select .routes fun t => .ok (t.rows.map (rowToRoute c))
  let fallbackRoute ← select .settings fun t => .ok (decodeFallbackRoute c t)
  pure { cfg with providers, routes, fallbackRoute := fallbackRoute.getD cfg.fallbackRoute }

def reloadFromDb (host : Host) : Handler BridgeError Unit := do
  pool host
  let cfg ← config
  let cfg ← (loadIntoConfig host.columns cfg).mapError fun e => .internal ("reload from db: " ++ e)
  swapConfig (cfg.applyEnvOverrides host.toUppercase host.env)

/-- **A load that nobody disturbs decodes the database as it stands.** -/
theorem loadIntoConfig_alone (c : Columns) (cfg : Config) (s : AppState) :
    Task.alone (loadIntoConfig c cfg) s = (loaded c s.db cfg, s) := by
  cases h : decodeProviders c s.db.providers.rows with
  | error e =>
      simp [loadIntoConfig, loaded, h, bind, Attempt.bind, Attempt.access, select, Task.bind,
        Task.alone, Except.map, Database.table]
  | ok providers =>
      simp [loadIntoConfig, loaded, h, bind, Attempt.bind, Attempt.access, select, Task.bind,
        Task.alone, Except.map, pure, Database.table]

/-! ## Authentication -/

/-- Request headers; a value is `none` when it is not visible ASCII. -/
abbrev HeaderMap := List (String × Option String)

def HeaderMap.text (headers : HeaderMap) (name : String) : Option String :=
  (headers.lookup name).join

/-- `str::strip_prefix`. -/
def stripPrefix (start s : String) : Option String :=
  (start.toList.isPrefixOf? s.toList).map String.ofList

def checkAuth (cfg : Config) (headers : HeaderMap) : Except BridgeError Unit :=
  match cfg.authToken with
  | none => .ok ()
  | some expected =>
      let bearer := (headers.text "authorization").bind (stripPrefix "Bearer ")
      let apiKey := headers.text "x-api-key"
      if bearer = some expected ∨ apiKey = some expected then .ok ()
      else .error (.unauthorized "invalid bridge auth token")

/-! ## A plain host -/

/-- `serde_json` at the text of one empty value. -/
def emptyCodec {α : Type} (text : String) (a : α) : Codec α :=
  ⟨fun _ => text, fun s => if s = text then some a else none⟩

/-- A host for databases whose JSON columns are empty. -/
def plainHost : Host where
  columns :=
    { extraHeaders := emptyCodec "{}" []
      costWindows := emptyCodec "[]" []
      models := emptyCodec "[]" []
      modelPrices := emptyCodec "{}" []
      usage := emptyCodec "[]" []
      fallback := emptyCodec "[]" []
      fallbackRoute := emptyCodec "null" none }
  sqlText _ := ""
  toUppercase := String.toUpper
  env _ := none
  connected := true

def plainConfig : Config :=
  ⟨"127.0.0.1:8282", "bridge.db", none, none, false, [], [], none⟩

end AiApiBridge
