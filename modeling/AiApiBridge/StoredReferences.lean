import AiApiBridge.Lifecycle
import AiApiBridge.Lib.Runs

/-!
# References between stored rows

A route names its provider in a column with a foreign key, its fallback providers in a
JSON column, and the global fallback route is a row of the settings. Every write checks
the names it brings in, and the foreign key keeps the routes of a deleted provider from
staying behind. Nothing looks for a deleted provider in the other two places, so the
references stay closed exactly as long as no provider is deleted that one of them names
(`closed_iff_unreferenced`).
-/

set_option autoImplicit false

namespace AiApiBridge

open Store Refresh Admin

/-! ## What a write commits -/

section Alone

variable {host : Host} {headers : HeaderMap} {s s' : AppState}

/-- The way in leaves the state as it is, and hands on the live configuration. -/
theorem alone_enter {α : Type} {k : Config → Handler BridgeError α} {a : α}
    (h : Task.alone (enter host headers >>= k : Handler BridgeError α) s = (.ok a, s')) :
    Task.alone (k s.config) s = (.ok a, s') := by
  obtain ⟨cfg, s₁, henter, h⟩ := Attempt.alone_bind_ok h
  obtain ⟨cfg₁, s₂, hconfig, henter⟩ := Attempt.alone_bind_ok henter
  cases hconfig
  obtain ⟨_, -, henter⟩ := Attempt.alone_lift_ok henter
  obtain ⟨_, -, henter⟩ := Attempt.alone_lift_ok henter
  cases henter
  exact h

theorem alone_getProvider {α : Type} {name : String} {k : Option Provider → Handler BridgeError α}
    {a : α} (h : Task.alone (getProvider host name >>= k : Handler BridgeError α) s = (.ok a, s')) :
    ∃ existing, Task.alone (k existing) s = (.ok a, s') := by
  obtain ⟨existing, s₁, hget, h⟩ := Attempt.alone_bind_ok h
  obtain ⟨-, rfl⟩ := Prod.mk.inj hget
  exact ⟨existing, h⟩

theorem alone_execute {touched : List Table}
    {statement : Database → Except SqlError (Database × Nat)} {n : Nat}
    (h : Task.alone (execute host touched statement) s = (.ok n, s')) :
    statement s.db = .ok (s'.db, n) := by
  cases hst : statement s.db with
  | error e => simp [execute, Attempt.access, Task.alone, hst] at h
  | ok r =>
      simp only [execute, Attempt.access, Task.alone, hst, Prod.mk.injEq, Except.ok.injEq] at h
      rcases h with ⟨rfl, rfl⟩
      rfl

theorem alone_reloadFromDb (h : Task.alone (reloadFromDb host) s = (.ok (), s')) :
    s'.db = s.db := by
  obtain ⟨_, -, h⟩ := Attempt.alone_lift_ok h
  obtain ⟨cfg, s₁, hconfig, h⟩ := Attempt.alone_bind_ok h
  cases hconfig
  obtain ⟨cfg', s₂, hload, h⟩ := Attempt.alone_bind_ok h
  cases h
  have hquiet := Task.alone_bind (loadIntoConfig host.columns s.config)
    (fun r => .done (r.mapError fun e => BridgeError.internal ("reload from db: " ++ e))) s
  rw [loadIntoConfig_alone] at hquiet
  obtain rfl : s₂ = s := congrArg Prod.snd (hload.symm.trans hquiet)
  rfl

/-- What a write that succeeds does to the tables: one statement, with a row that has
passed its checks against the live configuration `cfg`. -/
inductive Commits (host : Host) (cfg : Config) (db db' : Database) : Write → Prop where
  | createProvider {input : ProviderInput} (name : String) (p : Provider) (n : Nat)
      (h : Database.insertProvider (providerRow host.columns name p) db = .ok (db', n)) :
      Commits host cfg db db' (.createProvider input)
  | updateProvider {name : String} {input : ProviderInput} (p : Provider) (n : Nat)
      (h : Database.updateProvider (providerRow host.columns name p) db = .ok (db', n)) :
      Commits host cfg db db' (.updateProvider name input)
  | deleteProvider {name : String} (n : Nat)
      (h : Database.deleteProvider name db = .ok (db', n)) :
      Commits host cfg db db' (.deleteProvider name)
  | createRoute {input : RouteInput} (routeAlias : String) (r : Route) (n : Nat)
      (hr : input.intoRoute routeAlias cfg.providers = .ok r)
      (h : Database.insertRoute (routeRow host.columns r) db = .ok (db', n)) :
      Commits host cfg db db' (.createRoute input)
  | updateRoute {routeAlias : String} {input : RouteInput} (r : Route) (n : Nat)
      (hr : input.intoRoute routeAlias cfg.providers = .ok r)
      (h : Database.updateRoute (routeRow host.columns r) db = .ok (db', n)) :
      Commits host cfg db db' (.updateRoute routeAlias input)
  | deleteRoute {routeAlias : String} (n : Nat)
      (h : Database.deleteRoute routeAlias db = .ok (db', n)) :
      Commits host cfg db db' (.deleteRoute routeAlias)
  | setFallbackRoute {input : FallbackRouteInput} (target : Option RouteTarget) (n : Nat)
      (ht : input.target cfg.providers = .ok target)
      (h : Database.replaceSetting fallbackRouteKey
        (host.columns.fallbackRoute.toString target) db = .ok (db', n)) :
      Commits host cfg db db' (.setFallbackRoute input)

/-- A statement with the reload behind it. -/
theorem alone_write {touched : List Table}
    {statement : Database → Except SqlError (Database × Nat)} {v v' : Value}
    (h : Task.alone (execute host touched statement >>= fun _ => reloadFromDb host >>= fun _ =>
      pure v' : Handler BridgeError Value) s = (.ok v, s')) :
    ∃ n, statement s.db = .ok (s'.db, n) := by
  obtain ⟨n, s₁, hwrite, h⟩ := Attempt.alone_bind_ok h
  obtain ⟨_, s₂, hreload, h⟩ := Attempt.alone_bind_ok h
  cases h
  rw [alone_reloadFromDb hreload]
  exact ⟨n, alone_execute hwrite⟩

/-- The same with a check of the number of rows in between. -/
theorem alone_write_rows {touched : List Table}
    {statement : Database → Except SqlError (Database × Nat)} {e : BridgeError} {v v' : Value}
    (h : Task.alone (execute host touched statement >>= fun n =>
      if n = 0 then Attempt.lift (.error e)
      else reloadFromDb host >>= fun _ => pure v' : Handler BridgeError Value) s = (.ok v, s')) :
    ∃ n, statement s.db = .ok (s'.db, n) := by
  obtain ⟨n, s₁, hwrite, h⟩ := Attempt.alone_bind_ok h
  by_cases hn : n = 0
  · rw [if_pos hn] at h
    cases h
  · rw [if_neg hn] at h
    obtain ⟨_, s₂, hreload, h⟩ := Attempt.alone_bind_ok h
    cases h
    rw [alone_reloadFromDb hreload]
    exact ⟨n, alone_execute hwrite⟩

/-- **A write that succeeds alone commits one statement.** -/
theorem commits_of_alone {w : Write} {v : Value}
    (h : Task.alone (w.handler host headers) s = (.ok v, s')) :
    Commits host s.config s.db s'.db w := by
  cases w with
  | createProvider input =>
      obtain ⟨name, -, h⟩ := Attempt.alone_lift_ok (alone_enter h)
      obtain ⟨existing, h⟩ := alone_getProvider h
      cases existing with
      | some p => cases h
      | none =>
          obtain ⟨p, -, h⟩ := Attempt.alone_lift_ok h
          obtain ⟨n, hn⟩ := alone_write h
          exact .createProvider name p n hn
  | updateProvider name input =>
      obtain ⟨existing, h⟩ := alone_getProvider (alone_enter h)
      cases existing with
      | none => cases h
      | some existing =>
          obtain ⟨p, -, h⟩ := Attempt.alone_lift_ok h
          obtain ⟨n, hn⟩ := alone_write h
          exact .updateProvider p n hn
  | deleteProvider name =>
      obtain ⟨n, hn⟩ := alone_write_rows (alone_enter h)
      exact .deleteProvider n hn
  | createRoute input =>
      obtain ⟨routeAlias, -, h⟩ := Attempt.alone_lift_ok (alone_enter h)
      -- a route of that name already exists, or it is built and checked
      split at h
      · cases h
      · obtain ⟨r, hr, h⟩ := Attempt.alone_lift_ok h
        obtain ⟨n, hn⟩ := alone_write h
        exact .createRoute routeAlias r n hr hn
  | updateRoute routeAlias input =>
      have h := alone_enter h
      split at h
      · obtain ⟨r, hr, h⟩ := Attempt.alone_lift_ok h
        obtain ⟨n, hn⟩ := alone_write h
        exact .updateRoute r n hr hn
      · cases h
  | deleteRoute routeAlias =>
      obtain ⟨n, hn⟩ := alone_write_rows (alone_enter h)
      exact .deleteRoute n hn
  | setFallbackRoute input =>
      obtain ⟨target, ht, h⟩ := Attempt.alone_lift_ok (alone_enter h)
      obtain ⟨n, hn⟩ := alone_write h
      exact .setFallbackRoute target n ht hn

end Alone

/-! ## Closed references -/

/-- Every provider that a stored row names is stored. -/
structure Closed (c : Columns) (db : Database) : Prop where
  provider : ∀ r ∈ db.routes.rows, r.provider ∈ db.providers.keys
  fallback : ∀ r ∈ db.routes.rows, ∀ fb ∈ (rowToRoute c r).fallback,
    fb.provider ∈ db.providers.keys
  fallbackRoute : ∀ fb ∈ (decodeFallbackRoute c db.settings).join,
    fb.provider ∈ db.providers.keys

/-- A deleted provider is named neither in the fallback list of a route that stays nor
in the fallback route. -/
def Unreferenced (c : Columns) (db : Database) : Write → Prop
  | .deleteProvider name =>
      (∀ r ∈ db.routes.rows, r.provider ≠ name →
        ∀ fb ∈ (rowToRoute c r).fallback, fb.provider ≠ name) ∧
      ∀ fb ∈ (decodeFallbackRoute c db.settings).join, fb.provider ≠ name
  | _ => True

/-- `serde_json` reads back what the write stores in JSON. -/
def Admin.Write.ReadsBack (c : Columns) : Write → Prop
  | .createRoute input | .updateRoute _ input =>
      c.fallback.fromStr (c.fallback.toString input.fallback) = some input.fallback
  | .setFallbackRoute input => ∀ providers target, input.target providers = .ok target →
      c.fallbackRoute.fromStr (c.fallbackRoute.toString target) = some target
  | _ => True

section Closed

variable {c : Columns} {db db' : Database}

instance : Decidable (Closed c db) :=
  decidable_of_iff
    ((∀ r ∈ db.routes.rows, r.provider ∈ db.providers.keys) ∧
      (∀ r ∈ db.routes.rows, ∀ fb ∈ (rowToRoute c r).fallback, fb.provider ∈ db.providers.keys) ∧
      ∀ fb ∈ (decodeFallbackRoute c db.settings).join, fb.provider ∈ db.providers.keys)
    ⟨fun h => ⟨h.1, h.2.1, h.2.2⟩, fun h => ⟨h.provider, h.fallback, h.fallbackRoute⟩⟩

/-- Providers may come, and what else is new may name stored providers. -/
theorem Closed.extend (h : Closed c db)
    (hkeys : ∀ k ∈ db.providers.keys, k ∈ db'.providers.keys)
    (hroutes : ∀ r ∈ db'.routes.rows, r ∈ db.routes.rows ∨
      ∀ fb ∈ (rowToRoute c r).fallback, fb.provider ∈ db'.providers.keys)
    (hsettings : db'.settings = db.settings ∨
      ∀ fb ∈ (decodeFallbackRoute c db'.settings).join, fb.provider ∈ db'.providers.keys) :
    Closed c db' where
  provider := db'.foreignKey
  fallback r hr fb hfb := by
    rcases hroutes r hr with hold | hnew
    · exact hkeys _ (h.fallback r hold fb hfb)
    · exact hnew fb hfb
  fallbackRoute fb hfb := by
    rcases hsettings with hold | hnew
    · rw [hold] at hfb
      exact hkeys _ (h.fallbackRoute fb hfb)
    · exact hnew fb hfb

theorem Closed.insertProvider (h : Closed c db) {row : ProviderRow} {n : Nat}
    (hok : Database.insertProvider row db = .ok (db', n)) : Closed c db' := by
  rw [Database.insertProvider] at hok
  split at hok
  · cases hok
  · cases hok
    refine h.extend (fun k hk => ?_) (fun r hr => .inl hr) (.inl rfl)
    simp only [KeyedTable.keys, KeyedTable.rows_insert, List.map_append, List.mem_append]
    exact .inl hk

theorem Closed.updateProvider (h : Closed c db) {row : ProviderRow} {n : Nat}
    (hok : Database.updateProvider row db = .ok (db', n)) : Closed c db' := by
  cases hok
  refine h.extend (fun k hk => ?_) (fun r hr => .inl hr) (.inl rfl)
  rwa [KeyedTable.keys_modify]

theorem Closed.deleteRoute (h : Closed c db) {routeAlias : String} {n : Nat}
    (hok : Database.deleteRoute routeAlias db = .ok (db', n)) : Closed c db' := by
  cases hok
  exact h.extend (fun k hk => hk) (fun r hr => .inl (List.mem_filter.1 hr).1) (.inl rfl)

theorem Closed.insertRoute (h : Closed c db) {row : RouteRow} {n : Nat}
    (hrow : ∀ fb ∈ (rowToRoute c row).fallback, fb.provider ∈ db.providers.keys)
    (hok : Database.insertRoute row db = .ok (db', n)) : Closed c db' := by
  rw [Database.insertRoute] at hok
  split at hok
  · cases hok
  · split at hok
    · cases hok
      refine h.extend (fun k hk => hk) (fun r hr => ?_) (.inl rfl)
      rcases List.mem_append.1 hr with hr | hr
      · exact .inl hr
      · rw [List.mem_singleton.1 hr]
        exact .inr hrow
    · cases hok

theorem Closed.updateRoute (h : Closed c db) {row : RouteRow} {n : Nat}
    (hrow : ∀ fb ∈ (rowToRoute c row).fallback, fb.provider ∈ db.providers.keys)
    (hok : Database.updateRoute row db = .ok (db', n)) : Closed c db' := by
  rw [Database.updateRoute] at hok
  split at hok
  · split at hok
    · cases hok
      refine h.extend (fun k hk => hk) (fun r hr => ?_) (.inl rfl)
      -- the row that is replaced has been checked, the others are as before
      obtain ⟨r', hr', rfl⟩ := List.mem_map.1 hr
      by_cases heq : r'.routeAlias = row.routeAlias
      · rw [if_pos heq]
        exact .inr hrow
      · rw [if_neg heq]
        exact .inl hr'
    · cases hok
  · cases hok
    exact h

theorem Closed.replaceSetting (h : Closed c db) {target : Option RouteTarget} {n : Nat}
    (hread : c.fallbackRoute.fromStr (c.fallbackRoute.toString target) = some target)
    (htarget : ∀ fb ∈ target, fb.provider ∈ db.providers.keys)
    (hok : Database.replaceSetting fallbackRouteKey (c.fallbackRoute.toString target) db =
      .ok (db', n)) : Closed c db' := by
  cases hok
  refine h.extend (fun k hk => hk) (fun r hr => .inl hr) (.inr ?_)
  have hput := KeyedTable.get?_put db.settings (fallbackRouteKey, c.fallbackRoute.toString target)
  simpa [decodeFallbackRoute, hput, hread] using htarget

/-- **A deletion** leaves the references closed exactly when the provider is not among
them. The routes of the provider go with it. -/
theorem Closed.deleteProvider_iff (h : Closed c db) {name : String} {n : Nat}
    (hok : Database.deleteProvider name db = .ok (db', n)) :
    Closed c db' ↔ Unreferenced c db (.deleteProvider name) := by
  cases hok
  constructor
  · intro h'
    refine ⟨fun r hr hne fb hfb => ?_, fun fb hfb => ?_⟩
    · -- a route of another provider stays
      have hstays : r ∈ db.routes.rows.filter fun r => r.provider ≠ name :=
        List.mem_filter.2 ⟨hr, by simpa using hne⟩
      exact (KeyedTable.mem_keys_erase.1 (h'.fallback r hstays fb hfb)).2
    · exact (KeyedTable.mem_keys_erase.1 (h'.fallbackRoute fb hfb)).2
  · rintro ⟨hroutes, hfallbackRoute⟩
    refine ⟨Database.foreignKey _, fun r hr fb hfb => ?_, fun fb hfb => ?_⟩
    · obtain ⟨hr, hne⟩ := List.mem_filter.1 hr
      exact KeyedTable.mem_keys_erase.2
        ⟨h.fallback r hr fb hfb, hroutes r hr (by simpa using hne) fb hfb⟩
    · exact KeyedTable.mem_keys_erase.2 ⟨h.fallbackRoute fb hfb, hfallbackRoute fb hfb⟩

end Closed

/-! ## What the checks establish -/

theorem knows_iff_mem (providers : List (String × Provider)) (name : String) :
    knows providers name = true ↔ name ∈ providers.map Prod.fst := by
  simp [knows]

/-- A route that is built names known providers only. -/
theorem known_of_intoRoute {input : RouteInput} {routeAlias : String}
    {providers : List (String × Provider)} {r : Route}
    (h : input.intoRoute routeAlias providers = .ok r) :
    r.fallback = input.fallback ∧ ∀ fb ∈ r.fallback, knows providers fb.provider = true := by
  simp only [RouteInput.intoRoute] at h
  split at h
  · cases h
  · split at h
    · cases h
    · split at h
      · cases h
      · rename_i hnone
        cases h
        refine ⟨rfl, fun fb hfb => ?_⟩
        simpa using List.find?_eq_none.1 hnone fb hfb

/-- So does a fallback route that is set. -/
theorem known_of_target {input : FallbackRouteInput} {providers : List (String × Provider)}
    {target : Option RouteTarget} (h : input.target providers = .ok target) :
    ∀ fb ∈ target, knows providers fb.provider = true := by
  rw [FallbackRouteInput.target] at h
  split at h
  · cases h
    simp
  · rename_i provider model _ _
    by_cases hknown : knows providers provider = true
    · rw [if_pos hknown] at h
      cases h
      simpa using hknown
    · rw [if_neg hknown] at h
      cases h
  · cases h

/-! ## Runs of writes -/

/-- One admin request that succeeds: its headers and its input. -/
def writeStep (host : Host) (s : AppState) (request : HeaderMap × Write) : Option AppState :=
  match Task.alone (request.2.handler host request.1) s with
  | (.ok _, s') => some s'
  | (.error _, _) => none

section Runs

variable {host : Host} {file : Config} {s s' : AppState} {request : HeaderMap × Write}

theorem alone_of_writeStep (h : writeStep host s request = some s') :
    ∃ v, Task.alone (request.2.handler host request.1) s = (.ok v, s') := by
  rw [writeStep] at h
  split at h
  next v t heq =>
    cases h
    exact ⟨v, heq⟩
  next => cases h

/-- Behind a write that has succeeded the live configuration is up to date. -/
theorem Loaded.written (hs : Loaded host file s) (h : writeStep host s request = some s') :
    Loaded host file s' := by
  obtain ⟨v, hv⟩ := alone_of_writeStep h
  exact (Refreshes.alone (refreshes_handler _ _) hs.fromFile hv).2

/-- **One write**: only a deletion can open the references, and only a deletion of a
provider that is still named. -/
theorem closed_writeStep_iff (hs : Loaded host file s) (hread : request.2.ReadsBack host.columns)
    (hclosed : Closed host.columns s.db) (h : writeStep host s request = some s') :
    Closed host.columns s'.db ↔ Unreferenced host.columns s.db request.2 := by
  -- the checks look at the live configuration, which is what the store holds
  have hknown : ∀ name, knows s.config.providers name = true → name ∈ s.db.providers.keys := by
    intro name hname
    rwa [knows_iff_mem, hs.parts.1] at hname
  rcases request with ⟨headers, w⟩
  obtain ⟨v, hv⟩ := alone_of_writeStep h
  -- the fallback list of a row that has been checked
  have hfallback : ∀ {r : Route} {routeAlias : String} {input : RouteInput},
      input.intoRoute routeAlias s.config.providers = .ok r →
      host.columns.fallback.fromStr (host.columns.fallback.toString input.fallback) =
        some input.fallback →
      ∀ fb ∈ (rowToRoute host.columns (routeRow host.columns r)).fallback,
        fb.provider ∈ s.db.providers.keys := by
    intro r routeAlias input hr hinput fb hfb
    obtain ⟨heq, hall⟩ := known_of_intoRoute hr
    simp only [rowToRoute, routeRow, heq, hinput, Option.getD_some] at hfb
    exact hknown _ (hall fb (heq ▸ hfb))
  cases commits_of_alone hv with
  | createProvider name p n hok => exact iff_of_true (hclosed.insertProvider hok) trivial
  | updateProvider p n hok => exact iff_of_true (hclosed.updateProvider hok) trivial
  | deleteProvider n hok => exact hclosed.deleteProvider_iff hok
  | createRoute routeAlias r n hr hok =>
      exact iff_of_true (hclosed.insertRoute (hfallback hr hread) hok) trivial
  | updateRoute r n hr hok =>
      exact iff_of_true (hclosed.updateRoute (hfallback hr hread) hok) trivial
  | deleteRoute n hok => exact iff_of_true (hclosed.deleteRoute hok) trivial
  | setFallbackRoute target n ht hok =>
      have htarget := fun fb hfb => hknown _ (known_of_target ht fb hfb)
      exact iff_of_true (hclosed.replaceSetting (hread _ _ ht) htarget hok) trivial

/-- **When the references stay closed**: in every state that a run of successful writes
passes through, exactly when no write of the run deletes a provider that is still
named. -/
theorem closed_iff_unreferenced {requests : List (HeaderMap × Write)} (hs : Loaded host file s)
    (hclosed : Closed host.columns s.db)
    (hread : ∀ request ∈ requests, request.2.ReadsBack host.columns)
    (h : Runs.run (writeStep host) s requests = some s') :
    (∀ t, Runs.Visits (writeStep host) s requests t → Closed host.columns t.db) ↔
      ∀ t request, Runs.Takes (writeStep host) s requests t request →
        Unreferenced host.columns t.db request.2 :=
  Runs.visits_iff_takes (fun request => request.2.ReadsBack host.columns) (Loaded host file)
    (fun t => Closed host.columns t.db) (fun t request => Unreferenced host.columns t.db request.2)
    (fun _ _ _ _ hs h => hs.written h)
    (fun _ _ _ hread hs hclosed h => closed_writeStep_iff hs hread hclosed h) hread hs hclosed h

end Runs

/-! ## A deleted fallback provider -/

/-- The fallback route is cleared before its provider is deleted. -/
theorem closed_iff_unreferenced_clearedFirst :
    (∀ t, Runs.Visits (writeStep zenHost) zenStarted
        [([], .setFallbackRoute ⟨none, none⟩), ([], .deleteProvider "zen")] t →
      Closed zenHost.columns t.db) ↔
      ∀ t request, Runs.Takes (writeStep zenHost) zenStarted
          [([], .setFallbackRoute ⟨none, none⟩), ([], .deleteProvider "zen")] t request →
        Unreferenced zenHost.columns t.db request.2 := by
  have hread : ∀ request ∈ [(([] : HeaderMap), Write.setFallbackRoute ⟨none, none⟩),
      ([], .deleteProvider "zen")], request.2.ReadsBack zenHost.columns := by
    intro request hrequest
    simp only [List.mem_cons, List.not_mem_nil, or_false] at hrequest
    rcases hrequest with rfl | rfl
    · intro providers target h
      cases h
      decide
    · trivial
  exact closed_iff_unreferenced serves_zenStarted.loaded (by decide) hread
    (show Runs.run (writeStep zenHost) zenStarted _ = some _ from rfl)

/-- `serde_json` at an empty fallback list and at this one. -/
def zenListCodec : Codec (List RouteTarget) where
  toString
    | [] => "[]"
    | _ => "[\x7b\"provider\":\"zen\",\"model\":\"gpt-5.5\"\x7d]"
  fromStr s :=
    if s = "[]" then some []
    else if s = "[\x7b\"provider\":\"zen\",\"model\":\"gpt-5.5\"\x7d]" then some [zenTarget]
    else none

def pairHost : Host :=
  { plainHost with columns := { plainHost.columns with fallback := zenListCodec } }

/-- Two providers, and a route of the one that falls back to the other. -/
def pairFile : Config :=
  { plainConfig with
    providers := zenFile.providers ++ [("go", ⟨.openaiChat, "http://localhost", none, none,
      "max_tokens", [], none, none, .path, none, none, none, [], [], [], []⟩)]
    routes := [⟨"fast", "go", "glm-5", [zenTarget]⟩] }

/-- The state after the first start. -/
def pairStarted : AppState := ⟨pairFile, (boot pairHost noFaults false pairFile Database.empty).1⟩

/-- The provider that the route falls back to is deleted, and the route stays. -/
theorem not_closed_deletedFallback :
    Serves pairHost pairFile pairStarted ∧ Closed pairHost.columns pairStarted.db ∧
      writeStep pairHost pairStarted ([], .deleteProvider "zen") =
        some (afterWrite pairHost pairStarted (.deleteProvider "zen")) ∧
      ¬ Closed pairHost.columns (afterWrite pairHost pairStarted (.deleteProvider "zen")).db :=
  ⟨.firstRun (by decide), by decide, rfl, by decide⟩

end AiApiBridge
