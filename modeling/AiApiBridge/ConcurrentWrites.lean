import AiApiBridge.Admin

/-!
# Concurrent admin writes

Any number of admin writes run as tasks over one `AppState`. Each of them writes
to the database once and then reloads the live configuration, so the handlers keep
to the discipline of `Lib.Refresh` (`Write.refreshes`), with the tables as parts
and the live configuration as the cache.

Nothing keeps one reload from overtaking another. The live configuration is what
the database holds once all writes have returned, provided that every swap which
brings in a table overwritten in the meantime leaves another write to swap after
it (`loaded_of_goodSwaps`).
-/

set_option autoImplicit false

namespace AiApiBridge

open Store Refresh Admin

/-! ## What the live configuration should be -/

section Loaded

variable (host : Host) (file : Config)

/-- The live configuration is what the database and the configuration file make,
the keys of the environment laid over it. -/
def Loaded (s : AppState) : Prop :=
  (loaded host.columns s.db file).map (Config.applyEnvOverrides host.toUppercase host.env) =
    .ok s.config

instance (s : AppState) : Decidable (Loaded host file s) :=
  inferInstanceAs (Decidable (_ = _))

/-- The fallback route a database stores. -/
def storedFallback (db : Database) : Option (Option RouteTarget) :=
  decodeFallbackRoute host.columns db.settings

/-- What a configuration keeps of the file: everything but providers and routes, the
fallback route as long as none is stored. -/
def FromFile (db : Database) (cfg : Config) : Prop :=
  (∃ providers routes fallbackRoute, cfg = { file with providers, routes, fallbackRoute }) ∧
    (storedFallback host db = none → cfg.fallbackRoute = file.fallbackRoute)

/-- Tables as parts, the live configuration as the cache. A stored fallback route is
never taken away. -/
def setting : Setting AppState Table Table.Rows where
  Inv s := FromFile host file s.db s.config
  Le s s' := storedFallback host s'.db = none → storedFallback host s.db = none
  part t s := s.db.table t
  Current := Loaded host file
  le_refl _ h := h
  le_trans h h' h'' := h (h' h'')

variable {host file}

theorem Loaded.fromFile {s : AppState} (h : Loaded host file s) :
    FromFile host file s.db s.config := by
  rw [Loaded, loaded] at h
  cases hp : decodeProviders host.columns s.db.providers.rows with
  | error e =>
      rw [hp] at h
      cases h
  | ok providers =>
      rw [hp] at h
      simp only [Except.map, Except.ok.injEq] at h
      rw [← h]
      refine ⟨⟨_, _, _, rfl⟩, fun hnone => ?_⟩
      simp only [storedFallback] at hnone
      simp [Config.applyEnvOverrides, hnone]

end Loaded

/-! ## Statements -/

section Statements

variable {host : Host} {file : Config}

/-- What a statement leaves alone: everything when it affects no row, the tables it
is not said to touch, and the fact that a fallback route is stored. -/
def Frames (host : Host) (touched : List Table)
    (statement : Database → Except SqlError (Database × Nat)) : Prop :=
  ∀ db db' n, statement db = .ok (db', n) →
    (n = 0 → db' = db) ∧ (∀ t, t ∉ touched → db'.table t = db.table t) ∧
      (storedFallback host db' = none → storedFallback host db = none)

/-- A statement on the other tables leaves the stored fallback route alone. -/
theorem frames_of_settings {touched : List Table}
    {statement : Database → Except SqlError (Database × Nat)}
    (h : ∀ db db' n, statement db = .ok (db', n) →
      (n = 0 → db' = db) ∧ (∀ t, t ∉ touched → db'.table t = db.table t) ∧
        db'.settings = db.settings) :
    Frames host touched statement := by
  intro db db' n hok
  obtain ⟨hzero, htables, hsettings⟩ := h db db' n hok
  refine ⟨hzero, htables, fun hnone => ?_⟩
  rwa [storedFallback, hsettings] at hnone

theorem frames_insertProvider (row : ProviderRow) :
    Frames host [.providers] (Database.insertProvider row) := by
  apply frames_of_settings
  intro db db' n h
  rw [Database.insertProvider] at h
  split at h
  · cases h
  · cases h
    refine ⟨fun h => absurd h Nat.one_ne_zero, fun t ht => ?_, rfl⟩
    cases t <;> simp_all [Database.table]

theorem frames_updateProvider (row : ProviderRow) :
    Frames host [.providers] (Database.updateProvider row) := by
  apply frames_of_settings
  intro db db' n h
  cases h
  refine ⟨fun hzero => ?_, fun t ht => ?_, rfl⟩
  · have hnot : row.name ∉ db.providers.keys := by simpa using hzero
    exact Database.ext (KeyedTable.modify_of_notMem hnot) rfl rfl
  · cases t <;> simp_all [Database.table]

theorem frames_deleteProvider (name : String) :
    Frames host [.providers, .routes] (Database.deleteProvider name) := by
  apply frames_of_settings
  intro db db' n h
  cases h
  refine ⟨fun hzero => ?_, fun t ht => ?_, rfl⟩
  · have hnot : name ∉ db.providers.keys := by simpa using hzero
    refine Database.ext (KeyedTable.erase_of_notMem hnot) (KeyedTable.filter_of_forall ?_) rfl
    intro r hr
    have hne : r.provider ≠ name := fun heq => hnot (heq ▸ db.foreignKey r hr)
    simp [hne]
  · cases t <;> simp_all [Database.table]

theorem frames_insertRoute (row : RouteRow) :
    Frames host [.routes] (Database.insertRoute row) := by
  apply frames_of_settings
  intro db db' n h
  rw [Database.insertRoute] at h
  split at h
  · cases h
  · split at h
    · cases h
      refine ⟨fun h => absurd h Nat.one_ne_zero, fun t ht => ?_, rfl⟩
      cases t <;> simp_all [Database.table]
    · cases h

theorem frames_updateRoute (row : RouteRow) :
    Frames host [.routes] (Database.updateRoute row) := by
  apply frames_of_settings
  intro db db' n h
  rw [Database.updateRoute] at h
  split at h
  · split at h
    · cases h
      refine ⟨fun h => absurd h Nat.one_ne_zero, fun t ht => ?_, rfl⟩
      cases t <;> simp_all [Database.table]
    · cases h
  · cases h
    exact ⟨fun _ => rfl, fun _ _ => rfl, rfl⟩

theorem frames_deleteRoute (routeAlias : String) :
    Frames host [.routes] (Database.deleteRoute routeAlias) := by
  apply frames_of_settings
  intro db db' n h
  cases h
  refine ⟨fun hzero => ?_, fun t ht => ?_, rfl⟩
  · have hnot : routeAlias ∉ db.routes.keys := by simpa using hzero
    exact Database.ext rfl (KeyedTable.erase_of_notMem hnot) rfl
  · cases t <;> simp_all [Database.table]

/-- Storing a fallback route stores one. -/
theorem frames_replaceSetting (value : String) :
    Frames host [.settings] (Database.replaceSetting fallbackRouteKey value) := by
  intro db db' n h
  cases h
  refine ⟨fun h => absurd h Nat.one_ne_zero, fun t ht => ?_, fun hnone => ?_⟩
  · cases t <;> simp_all [Database.table]
  · have hput := KeyedTable.get?_put db.settings (fallbackRouteKey, value)
    simp [storedFallback, decodeFallbackRoute, hput] at hnone

end Statements

/-! ## Handlers -/

section Handlers

variable {host : Host} {file : Config} {low : AppState}

/-- A handler that is about to reload. -/
def Ready (stage : Stage Table.Rows) : Prop := stage = .front ∨ stage = .refreshing unseen

theorem follows_execute {touched : List Table}
    {statement : Database → Except SqlError (Database × Nat)} (h : Frames host touched statement) :
    Follows (setting host file) (fun stage _ _ => Ready stage) .front low
      (execute host touched statement) := by
  refine Follows.commit (fun s _ hinv => ?_) fun stage _ _ hstage => hstage
  cases hok : statement s.db with
  | error e => exact .inl rfl
  | ok r =>
      rcases r with ⟨db, n⟩
      obtain ⟨hzero, htables, hstored⟩ := h s.db db n hok
      by_cases hn : n = 0
      · refine .inl ?_
        simp [hn, hzero hn]
      · refine .inr ⟨{ s with db }, touched, by simp [hn], ?_, hstored, htables⟩
        exact ⟨hinv.1, fun hnone => hinv.2 (hstored hnone)⟩

/-- A pure check leaves the stage as it is. -/
theorem follows_check {stage : Stage Table.Rows} {ε α : Type} (x : Except ε α) :
    Follows (setting host file) (fun stage' _ _ => stage' = stage) stage low
      (Attempt.lift x : Handler ε α) :=
  Follows.lift fun _ _ => rfl

/-- A snapshot of the live configuration, taken anywhere before the write. -/
theorem follows_config {stage : Stage Table.Rows} {ε : Type} :
    Follows (setting host file)
      (fun stage' s cfg => stage' = stage ∧ FromFile host file s.db cfg) stage low
      (config : Handler ε Config) := by
  refine Follows.quiet fun s cfg _ hinv hcfg => ⟨rfl, ?_⟩
  cases hcfg
  exact hinv

theorem follows_select {t : Table} {ε α : Type} {decode : t.Rows → Except ε α}
    {stage : Stage Table.Rows} {seen : (t : Table) → Option t.Rows}
    (hstage : stage = .front ∧ seen = unseen ∨ stage = .refreshing seen) :
    Follows (setting host file)
      (fun stage' s a => stage' = .refreshing (see seen t (s.db.table t)) ∧
        decode (s.db.table t) = .ok a ∧ (setting host file).Le low s) stage low
      (select t decode) :=
  Follows.read hstage fun _ _ hle _ ha => ⟨rfl, ha, hle⟩

/-- What a load brings back: the three tables it has seen, decoded over the file's
fields. If no fallback route is stored even now, none has been seen, and the
snapshot it falls back to has the file's. -/
def Brought (host : Host) (file : Config) (stage : Stage Table.Rows) (s : AppState) (cfg : Config) :
    Prop :=
  ∃ (providers : Table.providers.Rows) (routes : Table.routes.Rows) (settings : Table.settings.Rows)
    (decoded : List (String × Provider)) (fallbackRoute : Option RouteTarget),
    stage = .refreshing (see (see (see unseen .providers providers) .routes routes)
      .settings settings) ∧
    decodeProviders host.columns providers.rows = .ok decoded ∧
    cfg = { file with
      providers := decoded
      routes := routes.rows.map (rowToRoute host.columns)
      fallbackRoute := (decodeFallbackRoute host.columns settings).getD fallbackRoute } ∧
    (storedFallback host s.db = none →
      decodeFallbackRoute host.columns settings = none ∧ fallbackRoute = file.fallbackRoute)

theorem follows_loadIntoConfig {stage : Stage Table.Rows} (hstage : Ready stage) {cfg : Config}
    (hcfg : FromFile host file low.db cfg) :
    Follows (setting host file) (Brought host file) stage low
      (loadIntoConfig host.columns cfg) := by
  rcases hcfg with ⟨⟨_, _, fallbackRoute, rfl⟩, hfallback⟩
  have hfirst : stage = .front ∧ (unseen : (t : Table) → Option t.Rows) = unseen ∨
      stage = .refreshing unseen := hstage.imp_left fun h => ⟨h, rfl⟩
  apply (follows_select hfirst).bind
  intro stage₁ s₁ decoded h₁
  rcases h₁ with ⟨rfl, hdecoded, hle₁⟩
  apply (follows_select (.inr rfl)).bind
  intro stage₂ s₂ routes h₂
  rcases h₂ with ⟨rfl, hroutes, hle₂⟩
  cases hroutes
  refine (follows_select (.inr rfl)).bind fun stage₃ s₃ stored h₃ => ?_
  obtain ⟨rfl, hstored, hle₃⟩ := h₃
  cases hstored
  refine ⟨s₁.db.providers, s₂.db.routes, s₃.db.settings, decoded, fallbackRoute, rfl, hdecoded,
    rfl, fun hnone => ⟨hnone, ?_⟩⟩
  exact hfallback (hle₁ (hle₂ (hle₃ hnone)))

/-- **A reload follows the discipline to its end.** -/
theorem follows_reloadFromDb {stage : Stage Table.Rows} (hstage : Ready stage) :
    Follows (setting host file) (fun stage _ _ => stage = .refreshed) stage low
      (reloadFromDb host) := by
  apply (follows_check _).bind
  intro stage₁ s₁ _ h₁
  cases h₁
  apply follows_config.bind
  intro stage₂ s₂ cfg h₂
  rcases h₂ with ⟨rfl, hcfg⟩
  refine ((follows_loadIntoConfig hstage hcfg).mapError _).bind fun stage₃ s₃ cfg' h₃ => ?_
  obtain ⟨providers, routes, settings, decoded, fallbackRoute, rfl, hdecoded, rfl, hnone⟩ := h₃
  refine Follows.swap (fun s hle _ => ⟨⟨⟨_, _, _, rfl⟩, fun h => ?_⟩, id, fun _ => rfl,
    fun hseen => ?_⟩) fun _ _ => rfl
  · obtain ⟨hsettings, hfile⟩ := hnone (hle h)
    simp [Config.applyEnvOverrides, hsettings, hfile]
  · -- the tables are as they were seen, so decoding them is loading the database
    have hproviders : s.db.providers = providers := hseen .providers providers (by simp [see])
    have hroutes : s.db.routes = routes := hseen .routes routes (by simp [see])
    have hsettings : s.db.settings = settings := hseen .settings settings (by simp [see])
    have hfallback : (decodeFallbackRoute host.columns settings).getD fallbackRoute =
        (decodeFallbackRoute host.columns settings).getD file.fallbackRoute := by
      cases hstored : decodeFallbackRoute host.columns settings with
      | some fb => rfl
      | none =>
          have hnow : storedFallback host s.db = none := by rw [storedFallback, hsettings, hstored]
          exact (hnone (hle hnow)).2
    simp only [Loaded, setting, loaded, hproviders, hroutes, hsettings, hdecoded, Except.map,
      hfallback]

/-- The end of every handler. -/
theorem follows_reply {stage : Stage Table.Rows} (hstage : Ready stage) (v : Value) :
    Follows (setting host file) (fun stage _ _ => stage = .refreshed) stage low
      (reloadFromDb host >>= fun _ => pure v : Handler BridgeError Value) :=
  (follows_reloadFromDb hstage).bind fun _ _ _ h => h

/-- The beginning of every handler. -/
theorem follows_enter (headers : HeaderMap) :
    Follows (setting host file) (fun stage _ _ => stage = .front) .front low
      (enter host headers) := by
  apply follows_config.bind
  intro stage₁ s₁ cfg h₁
  rcases h₁ with ⟨rfl, -⟩
  apply (follows_check _).bind
  intro stage₂ s₂ _ h₂
  cases h₂
  refine (follows_check _).bind fun stage₃ s₃ _ h₃ => ?_
  exact h₃

theorem follows_getProvider (name : String) :
    Follows (setting host file) (fun stage _ _ => stage = .front) .front low
      (getProvider host name) :=
  Follows.quiet fun _ _ _ _ _ => rfl

/-- A write with what follows it in every handler. -/
theorem refreshes_execute {touched : List Table}
    {statement : Database → Except SqlError (Database × Nat)} (h : Frames host touched statement)
    (v : Value) :
    Refreshes (setting host file) low
      (execute host touched statement >>= fun _ => reloadFromDb host >>= fun _ => pure v :
        Handler BridgeError Value) :=
  (follows_execute h).bind fun _ _ _ hready => follows_reply hready v

/-- **Every admin write follows the discipline.** -/
theorem refreshes_handler (headers : HeaderMap) (w : Write) :
    Refreshes (setting host file) low (w.handler host headers) := by
  -- reads and checks stay in front of the write, and the reload comes behind it
  cases w with
  | createProvider input =>
      apply (follows_enter headers).refreshes
      intro s₁ cfg
      apply (follows_check _).refreshes
      intro s₂ name
      refine (follows_getProvider name).refreshes fun s₃ existing => ?_
      split
      · trivial
      · refine (follows_check _).refreshes fun s₄ provider => ?_
        exact refreshes_execute (frames_insertProvider _) _
  | updateProvider name input =>
      apply (follows_enter headers).refreshes
      intro s₁ cfg
      apply (follows_getProvider name).refreshes
      intro s₂ existing
      cases existing with
      | none => trivial
      | some existing =>
          refine (follows_check _).refreshes fun s₃ provider => ?_
          exact refreshes_execute (frames_updateProvider _) _
  | deleteProvider name =>
      apply (follows_enter headers).refreshes
      intro s₁ cfg
      apply (follows_execute (frames_deleteProvider name)).bind
      intro stage₂ s₂ n hready
      split
      · trivial
      · exact follows_reply hready _
  | createRoute input =>
      apply (follows_enter headers).refreshes
      intro s₁ cfg
      apply (follows_check _).refreshes
      intro s₂ routeAlias
      split
      · trivial
      · refine (follows_check _).refreshes fun s₃ route => ?_
        exact refreshes_execute (frames_insertRoute _) _
  | updateRoute routeAlias input =>
      apply (follows_enter headers).refreshes
      intro s₁ cfg
      split
      · apply (follows_check _).refreshes
        intro s₂ route
        exact refreshes_execute (frames_updateRoute _) _
      · trivial
  | deleteRoute routeAlias =>
      apply (follows_enter headers).refreshes
      intro s₁ cfg
      apply (follows_execute (frames_deleteRoute routeAlias)).bind
      intro stage₂ s₂ n hready
      split
      · trivial
      · exact follows_reply hready _
  | setFallbackRoute input =>
      apply (follows_enter headers).refreshes
      intro s₁ cfg
      apply (follows_check _).refreshes
      intro s₂ target
      exact refreshes_execute (frames_replaceSetting _) _

end Handlers

/-! ## Runs -/

section Runs

variable {ι : Type} [DecidableEq ι]

/-- Admin writes, each with the headers of its request, over a state. -/
def adminWrites (host : Host) (headers : ι → HeaderMap) (write : ι → Write) (s : AppState) :
    Pool ι AppState (Event Table) (Except BridgeError Value) where
  shared := s
  task i := (write i).handler host (headers i)

/-- **When no committed write is missing from the running configuration.** -/
theorem loaded_of_goodSwaps (host : Host) (file : Config) (s : AppState) (hs : Loaded host file s)
    (headers : ι → HeaderMap) (write : ι → Write) (schedule : List ι)
    (hswaps : GoodSwaps ((adminWrites host headers write s).trace schedule))
    (hdone : ∀ i, ∃ v, ((adminWrites host headers write s).after schedule).task i = .done (.ok v)) :
    Loaded host file ((adminWrites host headers write s).after schedule).shared :=
  current_of_succeeded (P := setting host file) (c := adminWrites host headers write s)
    hs.fromFile hs (fun i => refreshes_handler (headers i) (write i)) schedule hswaps hdone

end Runs

/-! ## Two creations -/

/-- Create a provider of the least configuration. -/
def createPlain (name : String) : Write :=
  .createProvider ⟨some name, "openai-chat", "http://localhost", none, none, none, [], none, none,
    none, none, none, none, [], [], [], []⟩

/-- Two providers are created at the same time. -/
def twoCreations : Pool (Fin 2) AppState (Event Table) (Except BridgeError Value) :=
  adminWrites plainHost (fun _ => []) (fun i => createPlain (if i = 0 then "a" else "b"))
    ⟨plainConfig, .empty⟩

/-- The first creation swaps in what it read before the second one wrote, but the
second is still to swap. -/
theorem loaded_of_goodSwaps_twoCreations :
    Loaded plainHost plainConfig
      (twoCreations.after
        (List.replicate 7 0 ++ List.replicate 3 1 ++ [0] ++ List.replicate 5 1)).shared :=
  loaded_of_goodSwaps plainHost plainConfig _ (by decide) _ _
    (List.replicate 7 0 ++ List.replicate 3 1 ++ [0] ++ List.replicate 5 1) (by decide)
    fun i => match i with
      | 0 => ⟨_, rfl⟩
      | 1 => ⟨_, rfl⟩

/-- The second creation runs from its entry to its end between the last query and
the swap of the first: both return `Ok`, and the provider of the second is in the
database only. -/
theorem not_loaded_overtakenReload :
    Loaded plainHost plainConfig twoCreations.shared ∧
      (∀ i, ∃ v, (twoCreations.after
        (List.replicate 7 0 ++ List.replicate 8 1 ++ [0])).task i = .done (.ok v)) ∧
      ¬ Loaded plainHost plainConfig
        (twoCreations.after (List.replicate 7 0 ++ List.replicate 8 1 ++ [0])).shared := by
  refine ⟨by decide, fun i => ?_, by decide⟩
  match i with
  | 0 => exact ⟨_, rfl⟩
  | 1 => exact ⟨_, rfl⟩

end AiApiBridge
