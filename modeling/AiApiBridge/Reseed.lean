import AiApiBridge.Server
import AiApiBridge.Lib.Statements

/-!
# Startup and reseeding

What `main` does to the store before it serves: with `--reseed` it clears the tables
by statements that commit one by one, and it imports the configuration into an empty
store in one transaction. The import is atomic, the wiping before it is not: a startup
that fails in the import leaves the store as it was exactly when there was nothing to
wipe (`reseed_failed_iff`).
-/

set_option autoImplicit false

namespace AiApiBridge

open Store Statements

/-- What makes a statement fail: a constraint of the schema, or anything else, such
as a full disk. -/
inductive StatementError where
  | schema (e : SqlError)
  | other
  deriving DecidableEq, Repr

namespace Database

/-! ## The statements of `clear` -/

/-- No routes, no dangling routes. -/
theorem noRoutes (keys : List String) :
    ∀ r ∈ (KeyedTable.empty : KeyedTable RouteRow.routeAlias).rows, r.provider ∈ keys := by
  intro r hr
  cases hr

/-- Two empty tables. -/
theorem noRows :
    ∀ r ∈ (KeyedTable.empty : KeyedTable RouteRow.routeAlias).rows,
      r.provider ∈ (KeyedTable.empty : KeyedTable ProviderRow.name).keys :=
  noRoutes _

/-- `DELETE FROM routes`. -/
def deleteRoutes (db : Database) : Except SqlError (Database × Nat) :=
  .ok ({ db with
      routes := .empty
      foreignKey := noRoutes _ }, db.routes.rows.length)

/-- `DELETE FROM providers`, with the cascade to their routes. -/
def deleteProviders (db : Database) : Except SqlError (Database × Nat) :=
  .ok ({ db with
      providers := .empty
      routes := .empty
      foreignKey := noRows }, db.providers.rows.length)

/-- `DELETE FROM settings WHERE key = ?`. -/
def deleteSetting (key : String) (db : Database) : Except SqlError (Database × Nat) :=
  .ok ({ db with settings := db.settings.erase key }, if key ∈ db.settings.keys then 1 else 0)

/-- The database without what a reseed wipes. -/
def wiped (db : Database) : Database :=
  ⟨.empty, .empty, db.settings.erase fallbackRouteKey, noRows⟩

/-- Routes need providers. -/
theorem routes_eq_empty {db : Database} (h : db.providers.rows = []) : db.routes.rows = [] := by
  rw [List.eq_nil_iff_forall_not_mem]
  intro r hr
  have hkey := db.foreignKey r hr
  rw [KeyedTable.keys, h] at hkey
  cases hkey

/-- **When there is nothing to wipe.** -/
theorem wiped_eq_iff (db : Database) :
    db.wiped = db ↔ db.providers.rows = [] ∧ fallbackRouteKey ∉ db.settings.keys := by
  constructor
  · intro h
    refine ⟨by rw [← h]; rfl, ?_⟩
    intro hkey
    rw [← h] at hkey
    exact (KeyedTable.mem_keys_erase.1 hkey).2 rfl
  · rintro ⟨hproviders, hkey⟩
    apply Database.ext
    · exact KeyedTable.ext_rows hproviders.symm
    · exact KeyedTable.ext_rows (routes_eq_empty hproviders).symm
    · exact KeyedTable.erase_of_notMem hkey

end Database

namespace Store

/-- A statement on the tables. -/
def statement (f : Database → Except SqlError (Database × Nat)) :
    Statement Database StatementError := fun db =>
  match f db with
  | .ok r => .ok r.1
  | .error e => .error (.schema e)

/-- `BEGIN` and `COMMIT`, which change no table. -/
def bracket : Statement Database StatementError := .ok

/-- The statements of `clear`, which commit one by one. -/
def clear : List (Statement Database StatementError) :=
  [statement Database.deleteRoutes, statement Database.deleteProviders,
    statement (Database.deleteSetting fallbackRouteKey)]

variable (c : Columns)

def insertProviders (cfg : Config) : List (Statement Database StatementError) :=
  cfg.providers.map fun (name, p) => statement (Database.insertProvider (providerRow c name p))

def insertRoutes (cfg : Config) : List (Statement Database StatementError) :=
  cfg.routes.map fun r => statement (Database.insertRoute (routeRow c r))

/-- Only a configuration that sets a fallback route stores one. -/
def insertFallbackRoute (cfg : Config) : List (Statement Database StatementError) :=
  cfg.fallbackRoute.toList.map fun fb =>
    statement (Database.replaceSetting fallbackRouteKey (c.fallbackRoute.toString (some fb)))

/-- The statements of `seed_from_config`, which commit together. -/
def seedFromConfig (cfg : Config) : List (Statement Database StatementError) :=
  [bracket] ++ insertProviders c cfg ++ insertRoutes c cfg ++ insertFallbackRoute c cfg ++ [bracket]

/-- `is_empty`. -/
def isEmpty (db : Database) : Bool := db.providers.rows.isEmpty

end Store

/-! ## Startup -/

/-- The parts of a startup that touch the store before it is loaded. -/
inductive Stage where
  | clearing
  | checking
  | importing
  deriving DecidableEq, Repr

/-- The statements that fail although the schema allows them. -/
abbrev Faults := Stage → Nat → Bool

/-- The fault of a statement. -/
def Faults.at (faults : Faults) (stage : Stage) (i : Nat) : Option StatementError :=
  if faults stage i then some .other else none

section Startup

variable (c : Columns) (faults : Faults)

/-- The store part of `main`: the tables it leaves, and where and how it failed if it
did. -/
def startup (reseed : Bool) (cfg : Config) (db : Database) :
    Database × Option (Stage × StatementError) :=
  -- `--reseed` clears statement by statement, each committed on its own
  let cleared := if reseed then autocommit (withFaults (faults.at .clearing) clear) db
    else (db, none)
  match cleared.2, faults.at .checking 0 with
  | some e, _ => (cleared.1, some (.clearing, e))
  | none, some e => (cleared.1, some (.checking, e))
  | none, none =>
      if isEmpty cleared.1 then
        -- the import is one transaction
        let seeded := transaction (withFaults (faults.at .importing) (seedFromConfig c cfg)) cleared.1
        (seeded.1, seeded.2.map fun e => (.importing, e))
      else (cleared.1, none)

variable {c faults}

theorem runAll_clear (db : Database) : runAll clear db = .ok db.wiped := rfl

/-- **A startup that fails without `--reseed`** leaves the store as it was. -/
theorem startup_failed {cfg : Config} {db db' : Database} {failure : Stage × StatementError}
    (h : startup c faults false cfg db = (db', some failure)) : db' = db := by
  simp only [startup] at h
  cases hcheck : faults.at .checking 0 with
  | some e =>
      simp only [hcheck, Bool.false_eq_true, if_false] at h
      exact (congrArg Prod.fst h).symm
  | none =>
      simp only [hcheck, Bool.false_eq_true, if_false] at h
      split at h
      · obtain ⟨s', -, hok⟩ | ⟨e, hfailed⟩ := transaction_cases
          (withFaults (faults.at .importing) (seedFromConfig c cfg)) db
        · simp [hok] at h
        · rw [hfailed] at h
          exact (congrArg Prod.fst h).symm
      · simp at h

/-- **A reseed that fails in the import** has wiped the store. -/
theorem reseed_failed {cfg : Config} {db db' : Database} {e : StatementError}
    (h : startup c faults true cfg db = (db', some (.importing, e))) : db' = db.wiped := by
  rw [startup] at h
  rw [if_pos rfl] at h
  generalize hcleared : autocommit (withFaults (faults.at .clearing) clear) db = cleared at h
  rcases cleared with ⟨db₁, e₁⟩
  cases e₁ with
  | some e₁ => simp at h
  | none =>
      -- the clearing has gone through, so nothing is left
      have hwiped : db₁ = db.wiped := by
        have hrun := runAll_of_withFaults (autocommit_ok.1 hcleared)
        rw [runAll_clear] at hrun
        exact (Except.ok.inj hrun).symm
      cases hcheck : faults.at .checking 0 with
      | some e₂ => simp [hcheck] at h
      | none =>
          simp only [hcheck] at h
          split at h
          · obtain ⟨s', -, hok⟩ | ⟨e₂, hfailed⟩ := transaction_cases
              (withFaults (faults.at .importing) (seedFromConfig c cfg)) db₁
            · simp [hok] at h
            · -- the import has failed and was rolled back to what the clearing left
              rw [hfailed] at h
              exact (congrArg Prod.fst h).symm.trans hwiped
          · simp at h

end Startup

/-! ## Bad routes -/

section Import

variable {c : Columns} {db db' : Database}

theorem statement_insertProvider {row : ProviderRow}
    (h : statement (Database.insertProvider row) db = .ok db') :
    db'.providers.rows = db.providers.rows ++ [row] ∧ db'.routes = db.routes := by
  rw [statement, Database.insertProvider] at h
  split at h
  · rename_i r hr
    split at hr
    · cases hr
    · cases hr
      cases h
      exact ⟨rfl, rfl⟩
  · cases h

theorem statement_insertRoute {row : RouteRow}
    (h : statement (Database.insertRoute row) db = .ok db') :
    row.provider ∈ db.providers.keys ∧ db'.providers = db.providers ∧
      db'.routes.rows = db.routes.rows ++ [row] := by
  rw [statement, Database.insertRoute] at h
  split at h
  · rename_i r hr
    split at hr
    · cases hr
    · split at hr
      · rename_i hp
        cases hr
        cases h
        exact ⟨hp, rfl, rfl⟩
      · cases hr
  · cases h

/-- The providers in the store are providers of the configuration. -/
def Configured (cfg : Config) (db : Database) : Prop :=
  ∀ k ∈ db.providers.keys, k ∈ cfg.providers.map Prod.fst

theorem configured_insertProviders {cfg : Config} :
    ∀ st ∈ insertProviders c cfg, ∀ db db', Configured cfg db → st db = .ok db' →
      Configured cfg db' := by
  intro st hst db db' hdb h
  obtain ⟨⟨name, p⟩, hmem, rfl⟩ := List.mem_map.1 hst
  have hrows := (statement_insertProvider h).1
  intro k hk
  rw [KeyedTable.keys, hrows, List.map_append] at hk
  rcases List.mem_append.1 hk with hk | hk
  · exact hdb k hk
  · rw [List.mem_singleton.1 hk]
    exact List.mem_map.2 ⟨(name, p), hmem, rfl⟩

theorem configured_insertRoutes {cfg : Config} :
    ∀ st ∈ insertRoutes c cfg, ∀ db db', Configured cfg db → st db = .ok db' →
      Configured cfg db' := by
  intro st hst db db' hdb h
  obtain ⟨r, -, rfl⟩ := List.mem_map.1 hst
  obtain ⟨-, hproviders, -⟩ := statement_insertRoute h
  rw [Configured, hproviders]
  exact hdb

/-- The provider rows that have been stored. -/
theorem rows_insertProviders {providers : List (String × Provider)}
    (h : runAll (providers.map fun (name, p) =>
      statement (Database.insertProvider (providerRow c name p))) db = .ok db') :
    db'.providers.rows = db.providers.rows ++ providers.map (fun np => providerRow c np.1 np.2) ∧
      db'.routes = db.routes := by
  induction providers generalizing db with
  | nil =>
      cases h
      exact ⟨(List.append_nil _).symm, rfl⟩
  | cons np providers ih =>
      obtain ⟨db₁, hp, hproviders⟩ := runAll_cons_ok.1 h
      obtain ⟨hrows, hroutes⟩ := ih hproviders
      obtain ⟨hrows₁, hroutes₁⟩ := statement_insertProvider hp
      rw [hrows, hroutes, hrows₁, hroutes₁]
      simp

/-- The route rows that have been stored. -/
theorem rows_insertRoutes {routes : List Route}
    (h : runAll (routes.map fun r => statement (Database.insertRoute (routeRow c r))) db = .ok db') :
    db'.providers = db.providers ∧ db'.routes.rows = db.routes.rows ++ routes.map (routeRow c) := by
  induction routes generalizing db with
  | nil =>
      cases h
      exact ⟨rfl, (List.append_nil _).symm⟩
  | cons r routes ih =>
      obtain ⟨db₁, hr, hroutes⟩ := runAll_cons_ok.1 h
      obtain ⟨-, hproviders₁, hrows₁⟩ := statement_insertRoute hr
      obtain ⟨hproviders, hrows⟩ := ih hroutes
      rw [hproviders, hrows, hproviders₁, hrows₁]
      simp

/-- **The import writes one row for each provider and each route.** -/
theorem rows_seedFromConfig {cfg : Config} (hempty : db.providers.rows = [])
    (h : runAll (seedFromConfig c cfg) db = .ok db') :
    db'.providers.rows = cfg.providers.map (fun np => providerRow c np.1 np.2) ∧
      db'.routes.rows = cfg.routes.map (routeRow c) := by
  obtain ⟨db₄, h, hcommit⟩ := runAll_append_ok.1 h
  obtain ⟨db₃, h, hfallback⟩ := runAll_append_ok.1 h
  obtain ⟨db₂, h, hroutes⟩ := runAll_append_ok.1 h
  obtain ⟨db₁, hbegin, hproviders⟩ := runAll_append_ok.1 h
  cases hbegin
  cases hcommit
  obtain ⟨hrows₂, hroutes₂⟩ := rows_insertProviders hproviders
  obtain ⟨hproviders₃, hrows₃⟩ := rows_insertRoutes hroutes
  -- the fallback route is a setting
  have hlast : db'.providers = db₃.providers ∧ db'.routes = db₃.routes := by
    rw [insertFallbackRoute] at hfallback
    cases hfb : cfg.fallbackRoute with
    | none =>
        rw [hfb] at hfallback
        cases hfallback
        exact ⟨rfl, rfl⟩
    | some fb =>
        rw [hfb] at hfallback
        cases hfallback
        exact ⟨rfl, rfl⟩
  rw [hlast.1, hlast.2, hproviders₃, hrows₂, hrows₃, hroutes₂, hempty,
    Database.routes_eq_empty hempty]
  exact ⟨rfl, rfl⟩

/-- **Only good routes are imported**: their providers are there and their aliases are
distinct. -/
theorem goodRoutes_of_seeded {cfg : Config} (hempty : db.providers.rows = [])
    (h : runAll (seedFromConfig c cfg) db = .ok db') :
    (∀ r ∈ cfg.routes, r.provider ∈ cfg.providers.map Prod.fst) ∧
      (cfg.routes.map Route.routeAlias).Nodup := by
  obtain ⟨db₄, h, -⟩ := runAll_append_ok.1 h
  obtain ⟨db₃, h, -⟩ := runAll_append_ok.1 h
  obtain ⟨db₂, h, hroutes⟩ := runAll_append_ok.1 h
  obtain ⟨db₁, h, hproviders⟩ := runAll_append_ok.1 h
  cases h
  -- an empty database has no provider that the file lacks
  have hstart : Configured cfg db := by
    intro k hk
    rw [KeyedTable.keys, hempty] at hk
    cases hk
  have hconfigured := runAll_invariant configured_insertProviders hstart hproviders
  refine ⟨?_, ?_⟩
  · intro r hr
    obtain ⟨db₅, db₆, hdb₅, hst⟩ := runAll_ok_of_mem configured_insertRoutes hconfigured hroutes
      (List.mem_map.2 ⟨r, hr, rfl⟩)
    exact hdb₅ r.provider (statement_insertRoute hst).1
  · -- the routes were inserted one by one under different aliases
    have hnodup := db₃.routes.nodup
    rw [(rows_insertRoutes hroutes).2, List.map_append, List.map_map] at hnodup
    exact (List.nodup_append'.1 hnodup).2.1

/-- **A bad route costs the whole store.** A reseed from a configuration in which a
route names an unknown provider or two routes share an alias fails in the import,
behind the wiping. -/
theorem reseed_badRoutes {cfg : Config}
    (hbad : ¬ ((∀ r ∈ cfg.routes, r.provider ∈ cfg.providers.map Prod.fst) ∧
      (cfg.routes.map Route.routeAlias).Nodup)) (db : Database) :
    ∃ e, startup c (fun _ _ => false) true cfg db = (db.wiped, some (.importing, e)) := by
  obtain ⟨db', hok, -⟩ | ⟨e, hfailed⟩ := transaction_cases (seedFromConfig c cfg) db.wiped
  · exact absurd (goodRoutes_of_seeded rfl hok) hbad
  · refine ⟨e, ?_⟩
    have hfaults : ∀ stage, Faults.at (fun _ _ => false) stage = fun _ => none := fun _ => rfl
    have hclear : autocommit clear db = (db.wiped, none) := autocommit_ok.2 (runAll_clear db)
    have hempty : isEmpty db.wiped = true := rfl
    simp [startup, hfaults, hclear, hempty, hfailed]

end Import

/-! ## The store behind a failed reseed -/

/-- **When a failed reseed leaves the store as it was**: when no provider, and so no
route, and no fallback route was stored. -/
theorem reseed_failed_iff {c : Columns} {faults : Faults} {cfg : Config} {db db' : Database}
    {e : StatementError} (h : startup c faults true cfg db = (db', some (.importing, e))) :
    db' = db ↔ db.providers.rows = [] ∧ fallbackRouteKey ∉ db.settings.keys := by
  rw [reseed_failed h]
  exact db.wiped_eq_iff

/-- A configuration whose one route names no provider of it. -/
def strayRoute : Config :=
  { plainConfig with routes := [⟨"fast", "zen", "gpt-5", []⟩] }

/-- A store with one provider and one route to it. -/
def storeWithRoute : Database :=
  ⟨⟨[providerRow plainHost.columns "zen" ⟨.openaiChat, "http://localhost", none, none,
      "max_tokens", [], none, none, .path, none, none, none, [], [], [], []⟩], by decide⟩,
    ⟨[⟨"fast", "zen", "gpt-5", "[]"⟩], by decide⟩, .empty, by decide⟩

/-- A stray route, and a store to lose. -/
theorem reseed_failed_iff_strayRoute :
    storeWithRoute.wiped = storeWithRoute ↔
      storeWithRoute.providers.rows = [] ∧ fallbackRouteKey ∉ storeWithRoute.settings.keys :=
  reseed_failed_iff
    (show startup plainHost.columns (fun _ _ => false) true strayRoute storeWithRoute =
      (storeWithRoute.wiped, some (.importing, .schema .foreignKey)) by decide)

/-- A reseed from a configuration with a stray route fails, and the stored provider
and its route are gone. -/
theorem not_reseed_atomic_strayRoute :
    ∃ db' e, startup plainHost.columns (fun _ _ => false) true strayRoute storeWithRoute =
        (db', some (.importing, e)) ∧ db' ≠ storeWithRoute :=
  ⟨storeWithRoute.wiped, .schema .foreignKey, by decide, by decide⟩

end AiApiBridge
