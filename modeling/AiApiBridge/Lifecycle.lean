import AiApiBridge.ConcurrentWrites
import AiApiBridge.Reseed

/-!
# From one start to the next

`main` seeds an empty store from the configuration file, loads the store over the file
and serves; admin writes change store and live configuration together; a restart
begins again with the file. A restart brings the live configuration back as long as a
provider is stored. Behind the last deletion the store counts as empty, and the file
is imported a second time (`restores_iff`).
-/

set_option autoImplicit false

namespace AiApiBridge

open Store Refresh Statements Admin

/-! ## Booting -/

/-- Every statement the schema allows succeeds. -/
def noFaults : Faults := fun _ _ => false

/-- Load the store over the file and go live. -/
def goLive (host : Host) (file : Config) (db : Database) : Database × Option Config :=
  match loaded host.columns db file with
  | .error _ => (db, none)
  -- the keys of the environment come last, so that they are not stored
  | .ok cfg => (db, some (cfg.applyEnvOverrides host.toUppercase host.env))

/-- `main` until it serves: the tables it leaves, and the live configuration if it gets
so far. -/
def boot (host : Host) (faults : Faults) (reseed : Bool) (file : Config) (db : Database) :
    Database × Option Config :=
  match startup host.columns faults reseed file db with
  | (db, some _) => (db, none)
  | (db, none) => goLive host file db

variable {host : Host} {file : Config}

theorem loaded_of_goLive {db db' : Database} {cfg : Config}
    (h : goLive host file db = (db', some cfg)) : db' = db ∧ Loaded host file ⟨cfg, db⟩ := by
  rw [goLive] at h
  cases hloaded : loaded host.columns db file with
  | error e => simp [hloaded] at h
  | ok cfg' =>
      rw [hloaded] at h
      obtain ⟨rfl, hcfg⟩ := Prod.mk.inj h
      exact ⟨rfl, by simp [Loaded, hloaded, Except.map, Option.some.inj hcfg]⟩

/-- **A process that serves** has loaded what the store holds. -/
theorem loaded_of_boot {faults : Faults} {reseed : Bool} {db db' : Database} {cfg : Config}
    (h : boot host faults reseed file db = (db', some cfg)) : Loaded host file ⟨cfg, db'⟩ := by
  rw [boot] at h
  split at h
  · cases h
  · obtain ⟨rfl, hloaded⟩ := loaded_of_goLive h
    exact hloaded

/-- A start without `--reseed` that finds providers serves them. -/
theorem boot_of_providers {db : Database} (h : db.providers.rows ≠ []) :
    boot host noFaults false file db = goLive host file db := by
  have hfaults : ∀ stage, Faults.at noFaults stage = fun _ => none := fun _ => rfl
  have hstartup : startup host.columns noFaults false file db = (db, none) := by
    simp [startup, hfaults, isEmpty, h]
  rw [boot, hstartup]

/-- A start that finds none imports the file first. -/
theorem boot_of_noProviders {db : Database} (h : db.providers.rows = []) :
    boot host noFaults false file db =
      match runAll (seedFromConfig host.columns file) db with
      | .ok db₁ => goLive host file db₁
      | .error _ => (db, none) := by
  have hfaults : ∀ stage, Faults.at noFaults stage = fun _ => none := fun _ => rfl
  cases hrun : runAll (seedFromConfig host.columns file) db with
  | error e =>
      have hstartup : startup host.columns noFaults false file db = (db, some (.importing, e)) := by
        simp [startup, hfaults, isEmpty, h, transaction, hrun]
      rw [boot, hstartup]
  | ok db₁ =>
      have hstartup : startup host.columns noFaults false file db = (db₁, none) := by
        simp [startup, hfaults, isEmpty, h, transaction, hrun]
      rw [boot, hstartup]

/-! ## The import -/

/-- Other settings beside the same providers and routes. -/
def Database.withSettings (db : Database)
    (settings : KeyedTable (Prod.fst : String × String → String)) : Database :=
  { db with settings }

/-- The settings an import leaves. -/
def importedSettings (c : Columns) (file : Config)
    (settings : KeyedTable (Prod.fst : String × String → String)) :
    KeyedTable (Prod.fst : String × String → String) :=
  match file.fallbackRoute with
  | none => settings
  | some fb => settings.put (fallbackRouteKey, c.fallbackRoute.toString (some fb))

section Import

variable {c : Columns} {settings : KeyedTable (Prod.fst : String × String → String)}

theorem statement_insertProvider_withSettings (row : ProviderRow) (db : Database) :
    statement (Database.insertProvider row) (db.withSettings settings) =
      (statement (Database.insertProvider row) db).map (·.withSettings settings) := by
  by_cases h : row.name ∈ db.providers.keys <;>
    simp [statement, Database.insertProvider, Database.withSettings, h, Except.map]

theorem statement_insertRoute_withSettings (row : RouteRow) (db : Database) :
    statement (Database.insertRoute row) (db.withSettings settings) =
      (statement (Database.insertRoute row) db).map (·.withSettings settings) := by
  by_cases h : row.routeAlias ∈ db.routes.keys <;>
    by_cases hp : row.provider ∈ db.providers.keys <;>
    simp [statement, Database.insertRoute, Database.withSettings, h, hp, Except.map]

/-- A store without providers is the empty one, its settings apart. -/
theorem eq_empty_withSettings {db : Database} (h : db.providers.rows = []) :
    db = Database.empty.withSettings db.settings :=
  Database.ext (KeyedTable.ext_rows h) (KeyedTable.ext_rows (Database.routes_eq_empty h)) rfl

/-- **The import does not look at the settings**: what it makes of the empty store it
makes of every store without providers. -/
theorem runAll_seedFromConfig {db db₀ : Database}
    (hseed : runAll (seedFromConfig c file) Database.empty = .ok db₀) (h : db.providers.rows = []) :
    runAll (seedFromConfig c file) db =
      .ok (db₀.withSettings (importedSettings c file db.settings)) := by
  obtain ⟨db₂, hseed, hcommit⟩ := runAll_append_ok.1 hseed
  obtain ⟨db₁, hrows, hfallback⟩ := runAll_append_ok.1 hseed
  cases hcommit
  have hframe : ∀ st ∈ [bracket] ++ insertProviders c file ++ insertRoutes c file, ∀ db',
      st (db'.withSettings db.settings) = (st db').map (·.withSettings db.settings) := by
    intro st hst db'
    simp only [List.mem_append, List.mem_singleton] at hst
    rcases hst with (rfl | hst) | hst
    · rfl
    · obtain ⟨np, -, rfl⟩ := List.mem_map.1 hst
      exact statement_insertProvider_withSettings _ db'
    · obtain ⟨r, -, rfl⟩ := List.mem_map.1 hst
      exact statement_insertRoute_withSettings _ db'
  have hstart : runAll ([bracket] ++ insertProviders c file ++ insertRoutes c file) db =
      .ok (db₁.withSettings db.settings) := by
    rw [eq_empty_withSettings h]
    exact (runAll_map hframe Database.empty).trans (by rw [hrows]; rfl)
  refine runAll_append_ok.2 ⟨_, runAll_append_ok.2 ⟨_, hstart, ?_⟩, rfl⟩
  -- only a fallback route of the file touches the settings
  rw [insertFallbackRoute, importedSettings] at *
  cases hfb : file.fallbackRoute with
  | none =>
      rw [hfb] at hfallback
      cases hfallback
      rfl
  | some fb =>
      rw [hfb] at hfallback
      cases hfallback
      rfl

/-- **An import stores every provider of the file.** -/
theorem names_seedFromConfig {db₀ : Database}
    (h : runAll (seedFromConfig c file) Database.empty = .ok db₀) :
    db₀.providers.keys = file.providers.map Prod.fst := by
  rw [KeyedTable.keys, (rows_seedFromConfig rfl h).1, List.map_map]
  rfl

end Import

theorem mapM_cons_ok {α β ε : Type} {f : α → Except ε β} {x : α} {xs : List α} {ys : List β} :
    (x :: xs).mapM f = .ok ys ↔ ∃ b bs, f x = .ok b ∧ xs.mapM f = .ok bs ∧ ys = b :: bs := by
  rw [List.mapM_cons]
  cases f x with
  | error e => simp [bind, Except.bind]
  | ok b => cases xs.mapM f <;> simp [bind, Except.bind, pure, Except.pure, eq_comm]

/-- Rows are decoded one by one, under their names. -/
theorem names_decodeProviders {c : Columns} {rows : List ProviderRow}
    {providers : List (String × Provider)} (h : decodeProviders c rows = .ok providers) :
    providers.map Prod.fst = rows.map ProviderRow.name := by
  induction rows generalizing providers with
  | nil =>
      cases h
      rfl
  | cons r rows ih =>
      obtain ⟨np, nps, hr, hrows, rfl⟩ := mapM_cons_ok.1 h
      have hname : np.1 = r.name := by
        cases hp : rowToProvider c r with
        | error e => simp [hp, Except.map] at hr
        | ok p =>
            rw [hp] at hr
            cases hr
            rfl
      rw [List.map_cons, List.map_cons, hname, ih hrows]

/-- Overrides change keys only. -/
theorem names_applyEnvOverrides (toUppercase : String → String) (env : String → Option String)
    (cfg : Config) :
    (cfg.applyEnvOverrides toUppercase env).providers.map Prod.fst = cfg.providers.map Prod.fst := by
  simp [Config.applyEnvOverrides, Function.comp_def]

/-- What a live configuration has of the store. -/
theorem Loaded.parts {s : AppState} (h : Loaded host file s) :
    s.config.providers.map Prod.fst = s.db.providers.keys ∧
      s.config.routes = s.db.routes.rows.map (rowToRoute host.columns) ∧
      s.config.fallbackRoute = (storedFallback host s.db).getD file.fallbackRoute := by
  rw [Loaded, loaded] at h
  cases hp : decodeProviders host.columns s.db.providers.rows with
  | error e => simp [hp, Except.map] at h
  | ok providers =>
      simp only [hp, Except.map, Except.ok.injEq] at h
      rw [← h, names_applyEnvOverrides]
      exact ⟨names_decodeProviders hp, rfl, rfl⟩

/-! ## Runs -/

/-- The states of a process that serves: a first start on an empty store, admin writes
one after the other, and restarts with the same file and environment. -/
inductive Serves (host : Host) (file : Config) : AppState → Prop where
  | firstRun {db : Database} {cfg : Config}
      (h : boot host noFaults false file Database.empty = (db, some cfg)) :
      Serves host file ⟨cfg, db⟩
  | written {s s' : AppState} {headers : HeaderMap} {w : Write} {v : Value}
      (hs : Serves host file s) (h : Task.alone (w.handler host headers) s = (.ok v, s')) :
      Serves host file s'
  | restarted {s : AppState} {db : Database} {cfg : Config} (hs : Serves host file s)
      (h : boot host noFaults false file s.db = (db, some cfg)) :
      Serves host file ⟨cfg, db⟩

namespace Serves

variable {s : AppState}

/-- **In every state the live configuration is what the store and the file make.** -/
theorem loaded (h : Serves host file s) : Loaded host file s := by
  induction h with
  | firstRun h => exact loaded_of_boot h
  | written _ h ih =>
      exact (Refreshes.alone (refreshes_handler _ _) ih.fromFile h).2
  | restarted _ h _ => exact loaded_of_boot h

/-- The import has succeeded once, and its providers could be read. -/
theorem imported (h : Serves host file s) :
    ∃ db₀ providers, runAll (seedFromConfig host.columns file) Database.empty = .ok db₀ ∧
      decodeProviders host.columns db₀.providers.rows = .ok providers := by
  induction h with
  | written _ _ ih => exact ih
  | restarted _ _ ih => exact ih
  | firstRun h =>
      rw [boot_of_noProviders rfl] at h
      cases hrun : runAll (seedFromConfig host.columns file) Database.empty with
      | error e => simp [hrun] at h
      | ok db₀ =>
          cases hp : decodeProviders host.columns db₀.providers.rows with
          | error e => simp [hrun, goLive, Store.loaded, hp, Except.map] at h
          | ok providers => exact ⟨db₀, providers, rfl, hp⟩

end Serves

/-! ## Restarts -/

/-- A restart brings back the providers, the routes and the fallback route that are
live. -/
def Restores (host : Host) (file : Config) (s : AppState) : Prop :=
  ∃ db cfg, boot host noFaults false file s.db = (db, some cfg) ∧
    cfg.providers = s.config.providers ∧ cfg.routes = s.config.routes ∧
      cfg.fallbackRoute = s.config.fallbackRoute

/-- `serde_json` reads the fallback route of the file back. -/
def ReadsBack (c : Columns) (file : Config) : Prop :=
  ∀ fb, file.fallbackRoute = some fb →
    c.fallbackRoute.fromStr (c.fallbackRoute.toString (some fb)) = some (some fb)

/-- The fallback route behind an import is the file's if the file has one. -/
theorem fallback_imported {c : Columns} (hcodec : ReadsBack c file)
    (settings : KeyedTable (Prod.fst : String × String → String)) :
    (decodeFallbackRoute c (importedSettings c file settings)).getD file.fallbackRoute =
      file.fallbackRoute.or (decodeFallbackRoute c settings).join := by
  rw [importedSettings]
  cases hfb : file.fallbackRoute with
  | none => cases decodeFallbackRoute c settings <;> rfl
  | some fb =>
      have hput := KeyedTable.get?_put settings (fallbackRouteKey, c.fallbackRoute.toString (some fb))
      simp [decodeFallbackRoute, hput, hcodec fb hfb]

/-- **A start on a store without providers** imports the file again. -/
theorem boot_again {s : AppState} (h : Serves host file s) (hnone : s.db.providers.rows = []) :
    ∃ cfg db, boot host noFaults false file s.db = (db, some cfg) ∧
      cfg.providers.map Prod.fst = file.providers.map Prod.fst ∧
      (file.providers = [] → cfg.routes = []) ∧
      cfg.fallbackRoute = (decodeFallbackRoute host.columns
        (importedSettings host.columns file s.db.settings)).getD file.fallbackRoute := by
  obtain ⟨db₀, providers, hrun, hproviders⟩ := h.imported
  let db := db₀.withSettings (importedSettings host.columns file s.db.settings)
  have hdecoded : decodeProviders host.columns db.providers.rows = .ok providers := hproviders
  obtain ⟨cfg, hlive⟩ : ∃ cfg, goLive host file db = (db, some cfg) := by
    simp [goLive, loaded, hdecoded, Except.map]
  obtain ⟨-, hloaded⟩ := loaded_of_goLive hlive
  obtain ⟨hnames, hroutes, hfallback⟩ := hloaded.parts
  have hkeys : db₀.providers.keys = file.providers.map Prod.fst := names_seedFromConfig hrun
  refine ⟨cfg, db, ?_, hnames.trans hkeys, ?_, hfallback⟩
  · rw [boot_of_noProviders hnone, runAll_seedFromConfig hrun hnone]
    exact hlive
  · intro hfile
    -- no providers, no routes
    rw [hfile] at hkeys
    have hrows : db₀.routes.rows = [] := Database.routes_eq_empty (List.map_eq_nil_iff.1 hkeys)
    rw [hroutes, show db.routes.rows = db₀.routes.rows from rfl, hrows, List.map_nil]

/-- **When a restart restores the live configuration**: when a provider is stored, or
the file has nothing to bring back. -/
theorem restores_iff (hcodec : ReadsBack host.columns file) {s : AppState}
    (h : Serves host file s) :
    Restores host file s ↔ s.db.providers.rows ≠ [] ∨
      (file.providers = [] ∧
        (file.fallbackRoute = none ∨ s.config.fallbackRoute = file.fallbackRoute)) := by
  obtain ⟨hnames, hroutes, hfallback⟩ := h.loaded.parts
  by_cases hnone : s.db.providers.rows = []
  · -- nothing is stored, and nothing but the fallback route is live
    have hlive : s.config.providers = [] := by
      rw [KeyedTable.keys, hnone] at hnames
      exact List.map_eq_nil_iff.1 hnames
    have hnoRoutes : s.config.routes = [] := by
      rw [hroutes, Database.routes_eq_empty hnone, List.map_nil]
    obtain ⟨cfg, db, hboot, hnames', hroutes', hfallback'⟩ := boot_again h hnone
    have hproviders : cfg.providers = [] ↔ file.providers = [] := by
      rw [← @List.map_eq_nil_iff _ _ Prod.fst, hnames', List.map_eq_nil_iff]
    have hstored : cfg.fallbackRoute = s.config.fallbackRoute ↔
        file.fallbackRoute = none ∨ s.config.fallbackRoute = file.fallbackRoute := by
      rw [hfallback', fallback_imported hcodec, hfallback, storedFallback]
      cases file.fallbackRoute with
      | none => cases decodeFallbackRoute host.columns s.db.settings <;> simp
      | some fb => cases decodeFallbackRoute host.columns s.db.settings <;> simp [eq_comm]
    simp only [hnone, ne_eq, not_true_eq_false, false_or]
    constructor
    · rintro ⟨db', cfg', hboot', hp, -, hf⟩
      obtain ⟨rfl, hcfg⟩ := Prod.mk.inj (hboot.symm.trans hboot')
      obtain rfl := Option.some.inj hcfg
      exact ⟨hproviders.1 (hp.trans hlive), hstored.1 hf⟩
    · rintro ⟨hp, hf⟩
      exact ⟨db, cfg, hboot, (hproviders.2 hp).trans hlive.symm,
        (hroutes' hp).trans hnoRoutes.symm, hstored.2 hf⟩
  · simp only [hnone, ne_eq, not_false_eq_true, true_or, iff_true]
    have hboot : boot host noFaults false file s.db = (s.db, some s.config) := by
      rw [boot_of_providers hnone]
      have hloaded := h.loaded
      rw [Loaded] at hloaded
      rw [goLive]
      cases hl : loaded host.columns s.db file with
      | error e => simp [hl, Except.map] at hloaded
      | ok cfg => simpa [hl, Except.map] using hloaded
    exact ⟨_, _, hboot, rfl, rfl, rfl⟩

/-! ## The last provider -/

/-- The fallback route of the file below. -/
def zenTarget : RouteTarget := ⟨"zen", "gpt-5.5"⟩

/-- `serde_json` at a cleared fallback route and at this one. -/
def zenTargetCodec : Codec (Option RouteTarget) where
  toString
    | none => "null"
    | some _ => "\x7b\"provider\":\"zen\",\"model\":\"gpt-5.5\"\x7d"
  fromStr s :=
    if s = "null" then some none
    else if s = "\x7b\"provider\":\"zen\",\"model\":\"gpt-5.5\"\x7d" then some (some zenTarget)
    else none

def zenHost : Host :=
  { plainHost with columns := { plainHost.columns with fallbackRoute := zenTargetCodec } }

/-- A file with one provider, which is also the fallback route. -/
def zenFile : Config :=
  { plainConfig with
    providers := [("zen", ⟨.openaiChat, "http://localhost", none, none, "max_tokens", [], none,
      none, .path, none, none, none, [], [], [], []⟩)]
    fallbackRoute := some zenTarget }

theorem readsBack_zenFile : ReadsBack zenHost.columns zenFile := by
  rintro fb ⟨⟩
  decide

/-- The state after the first start. -/
def zenStarted : AppState := ⟨zenFile, (boot zenHost noFaults false zenFile Database.empty).1⟩

theorem serves_zenStarted : Serves zenHost zenFile zenStarted :=
  .firstRun (by decide)

/-- The state after a write that has succeeded. -/
def afterWrite (host : Host) (s : AppState) (w : Write) : AppState :=
  (Task.alone (w.handler host []) s).2

/-- The provider is deleted, and the fallback route is cleared. -/
def zenDeleted : AppState :=
  afterWrite zenHost (afterWrite zenHost zenStarted (.deleteProvider "zen"))
    (.setFallbackRoute ⟨none, none⟩)

theorem serves_zenDeleted : Serves zenHost zenFile zenDeleted := by
  have hdeleted : Serves zenHost zenFile (afterWrite zenHost zenStarted (.deleteProvider "zen")) :=
    .written serves_zenStarted (show Task.alone ((Write.deleteProvider "zen").handler zenHost [])
      zenStarted = (.ok (.object [("ok", .bool true)]), _) from rfl)
  exact .written hdeleted (show Task.alone ((Write.setFallbackRoute ⟨none, none⟩).handler zenHost [])
    (afterWrite zenHost zenStarted (.deleteProvider "zen")) =
      (.ok (.object [("ok", .bool true), ("fallback_route", .null)]), _) from rfl)

/-- A restart keeps a store that has a provider. -/
theorem restores_iff_zenStarted :
    Restores zenHost zenFile zenStarted ↔ zenStarted.db.providers.rows ≠ [] ∨
      (zenFile.providers = [] ∧
        (zenFile.fallbackRoute = none ∨ zenStarted.config.fallbackRoute = zenFile.fallbackRoute)) :=
  restores_iff readsBack_zenFile serves_zenStarted

/-- Everything has been deleted, and a restart brings it back. -/
theorem not_restores_zenDeleted :
    Serves zenHost zenFile zenDeleted ∧ zenDeleted.config.providers = [] ∧
      zenDeleted.config.fallbackRoute = none ∧ ¬ Restores zenHost zenFile zenDeleted := by
  refine ⟨serves_zenDeleted, by decide, by decide, ?_⟩
  rintro ⟨db, cfg, hboot, hproviders, -, -⟩
  have hagain : (boot zenHost noFaults false zenFile zenDeleted.db).2 = some zenFile := by decide
  rw [hboot] at hagain
  obtain rfl := Option.some.inj hagain
  exact absurd hproviders (by decide)

end AiApiBridge
