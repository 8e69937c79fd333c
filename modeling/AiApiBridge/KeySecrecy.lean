import AiApiBridge.Lifecycle
import AiApiBridge.Lib.Related

/-!
# Keys from the environment

An api key of the environment is laid over the live configuration and over nothing
else. Two processes that differ in their environments alone go through the same starts
and admin operations with live configurations that are equal up to keys, and no
handler writes a key of the configuration it reads; so both leave the same tables
(`tables_of_environments`).
-/

set_option autoImplicit false

namespace AiApiBridge

open Store Refresh Admin

/-! ## Configurations up to keys -/

def Provider.keyless (p : Provider) : Provider := { p with apiKey := none }

/-- A configuration without its providers' keys. -/
def Config.keyless (cfg : Config) : Config :=
  { cfg with providers := cfg.providers.map fun (name, p) => (name, p.keyless) }

/-- The same host in another environment. -/
def Host.under (host : Host) (env : String → Option String) : Host := { host with env }

/-- Overrides leave no trace but keys. -/
theorem keyless_applyEnvOverrides (toUppercase : String → String) (env : String → Option String)
    (cfg : Config) : (cfg.applyEnvOverrides toUppercase env).keyless = cfg.keyless := by
  simp only [Config.keyless, Config.applyEnvOverrides, List.map_map]
  congr 1
  apply List.map_congr_left
  intro np _
  rcases np with ⟨name, p⟩
  cases henv : env (Config.envKey toUppercase name) <;> simp [henv, Provider.keyless]

/-- Two states with the same tables and live configurations equal up to keys. -/
structure SameButKeys (s s' : AppState) : Prop where
  db : s.db = s'.db
  config : s.config.keyless = s'.config.keyless

section Reading

variable {cfg cfg' : Config}

theorem checkAuth_keyless (headers : HeaderMap) :
    checkAuth cfg.keyless headers = checkAuth cfg headers := rfl

theorem knows_keyless (name : String) :
    knows cfg.keyless.providers name = knows cfg.providers name := by
  have hlookup : ∀ providers : List (String × Provider),
      (providers.map fun (name, p) => (name, p.keyless)).lookup name =
        (providers.lookup name).map Provider.keyless := by
    intro providers
    induction providers with
    | nil => rfl
    | cons np providers ih =>
        rcases np with ⟨key, p⟩
        rw [List.map_cons, lookup_cons_ite, lookup_cons_ite, ih]
        by_cases hname : name = key
        · rw [if_pos hname, if_pos hname, Option.map_some]
        · rw [if_neg hname, if_neg hname]
  rw [knows, Config.keyless, hlookup, Option.isSome_map, knows]

/-- The checks of a handler look at names only. -/
theorem knows_congr (h : cfg.keyless = cfg'.keyless) :
    knows cfg.providers = knows cfg'.providers := by
  funext name
  rw [← knows_keyless, h, knows_keyless]

theorem routes_congr (h : cfg.keyless = cfg'.keyless) : cfg.routes = cfg'.routes :=
  show cfg.keyless.routes = cfg'.keyless.routes from congrArg Config.routes h

theorem checkAuth_congr (h : cfg.keyless = cfg'.keyless) (headers : HeaderMap) :
    checkAuth cfg headers = checkAuth cfg' headers := by
  rw [← checkAuth_keyless, h, checkAuth_keyless]

theorem intoRoute_congr (h : cfg.keyless = cfg'.keyless) (input : RouteInput)
    (routeAlias : String) :
    input.intoRoute routeAlias cfg.providers = input.intoRoute routeAlias cfg'.providers := by
  simp only [RouteInput.intoRoute, knows_congr h]

theorem target_congr (h : cfg.keyless = cfg'.keyless) (input : FallbackRouteInput) :
    input.target cfg.providers = input.target cfg'.providers := by
  simp only [FallbackRouteInput.target, knows_congr h]

end Reading

/-! ## Handlers -/

section Handlers

variable {host : Host} {env env' : String → Option String}

/-- Reading the live configuration brings back two that are equal up to keys. -/
theorem alike_config {ε : Type} :
    Attempt.Related SameButKeys Eq (fun cfg cfg' : Config => cfg.keyless = cfg'.keyless)
      (config : Handler ε Config) config :=
  Attempt.Related.access fun _ _ hs => ⟨hs, rfl, hs.config⟩

/-- A check that comes to the same on both sides. -/
theorem alike_check {ε α : Type} {x x' : Except ε α} (h : x = x') :
    Attempt.Related SameButKeys Eq (· = ·) (Attempt.lift x : Handler ε α) (Attempt.lift x') := by
  subst h
  exact Attempt.Related.lift Attempt.Agree.refl

theorem alike_select {ε α : Type} (t : Table) (decode : t.Rows → Except ε α) :
    Attempt.Related SameButKeys Eq (· = ·) (select t decode) (select t decode) :=
  Attempt.Related.access fun _ _ hs => ⟨hs, rfl, by rw [hs.db]; exact Attempt.Agree.refl⟩

/-- A statement does the same to the same tables. -/
theorem alike_execute (touched : List Table)
    (statement : Database → Except SqlError (Database × Nat)) :
    Attempt.Related SameButKeys Eq (· = ·) (execute (host.under env) touched statement)
      (execute (host.under env') touched statement) := by
  apply Attempt.Related.access
  intro s s' hs
  rw [← hs.db]
  cases statement s.db with
  | ok r => exact ⟨⟨rfl, hs.config⟩, rfl, rfl⟩
  | error e => exact ⟨hs, rfl, rfl⟩

theorem alike_getProvider (name : String) :
    Attempt.Related SameButKeys Eq (· = ·) (getProvider (host.under env) name)
      (getProvider (host.under env') name) := by
  refine Attempt.Related.access fun s s' hs => ⟨hs, rfl, ?_⟩
  rw [← hs.db]
  exact Attempt.Agree.refl

theorem alike_loadIntoConfig (c : Columns) {cfg cfg' : Config} (h : cfg.keyless = cfg'.keyless) :
    Attempt.Related SameButKeys Eq (fun cfg cfg' : Config => cfg.keyless = cfg'.keyless)
      (loadIntoConfig c cfg) (loadIntoConfig c cfg') := by
  apply (alike_select _ _).bind_eq
  intro providers
  apply (alike_select _ _).bind_eq
  intro routes
  apply (alike_select _ _).bind_eq
  intro fallbackRoute
  apply Attempt.Related.pure
  -- what the load keeps of the snapshot has no keys
  have hfields := h
  simp only [Config.keyless, Config.mk.injEq] at hfields ⊢
  simp [hfields]

/-- **A reload puts the keys of the environment into the live configuration only.** -/
theorem alike_reloadFromDb :
    Attempt.Related SameButKeys Eq (· = ·) (reloadFromDb (host.under env))
      (reloadFromDb (host.under env')) := by
  apply (alike_check rfl).bind_eq
  intro _
  apply alike_config.bind
  intro cfg cfg' hcfg
  apply ((alike_loadIntoConfig host.columns hcfg).mapError _).bind
  intro cfg cfg' hcfg
  refine Attempt.Related.access fun s s' hs => ⟨⟨hs.db, ?_⟩, rfl, rfl⟩
  rw [keyless_applyEnvOverrides, keyless_applyEnvOverrides, hcfg]

/-- The end of every handler. -/
theorem alike_reply (v : Value) :
    Attempt.Related SameButKeys Eq (· = ·)
      (reloadFromDb (host.under env) >>= fun _ => pure v : Handler BridgeError Value)
      (reloadFromDb (host.under env') >>= fun _ => pure v : Handler BridgeError Value) :=
  alike_reloadFromDb.bind fun _ _ _ => Attempt.Related.pure rfl

theorem alike_enter (headers : HeaderMap) :
    Attempt.Related SameButKeys Eq (fun cfg cfg' : Config => cfg.keyless = cfg'.keyless)
      (enter (host.under env) headers) (enter (host.under env') headers) := by
  apply alike_config.bind
  intro cfg cfg' hcfg
  apply (alike_check (checkAuth_congr hcfg headers)).bind_eq
  intro _
  apply (alike_check rfl).bind_eq
  intro _
  exact Attempt.Related.pure hcfg

/-- A write with what follows it in every handler. -/
theorem alike_written (touched : List Table)
    (statement : Database → Except SqlError (Database × Nat)) (v : Value) :
    Attempt.Related SameButKeys Eq (· = ·)
      (execute (host.under env) touched statement >>= fun _ =>
        reloadFromDb (host.under env) >>= fun _ => pure v : Handler BridgeError Value)
      (execute (host.under env') touched statement >>= fun _ =>
        reloadFromDb (host.under env') >>= fun _ => pure v : Handler BridgeError Value) :=
  (alike_execute touched statement).bind fun _ _ _ => alike_reply v

/-- **No handler tells two environments apart in what it writes or answers.** -/
theorem alike_handler (headers : HeaderMap) (w : Write) :
    Attempt.Related SameButKeys Eq (· = ·) (w.handler (host.under env) headers)
      (w.handler (host.under env') headers) := by
  cases w with
  | createProvider input =>
      apply (alike_enter headers).bind
      intro cfg cfg' hcfg
      apply (alike_check rfl).bind_eq
      intro name
      apply (alike_getProvider name).bind_eq
      intro existing
      split
      · exact alike_check rfl
      · apply (alike_check rfl).bind_eq
        intro provider
        exact alike_written _ _ _
  | updateProvider name input =>
      apply (alike_enter headers).bind
      intro cfg cfg' hcfg
      apply (alike_getProvider name).bind_eq
      intro existing
      cases existing with
      | none => exact alike_check rfl
      | some existing =>
          -- the key that a blank one keeps comes from the row
          apply (alike_check rfl).bind_eq
          intro provider
          exact alike_written _ _ _
  | deleteProvider name =>
      apply (alike_enter headers).bind
      intro cfg cfg' hcfg
      apply (alike_execute _ _).bind_eq
      intro n
      split
      · exact alike_check rfl
      · exact alike_reply _
  | createRoute input =>
      apply (alike_enter headers).bind
      intro cfg cfg' hcfg
      apply (alike_check rfl).bind_eq
      intro routeAlias
      rw [routes_congr hcfg]
      split
      · exact alike_check rfl
      · apply (alike_check (intoRoute_congr hcfg input routeAlias)).bind_eq
        intro route
        exact alike_written _ _ _
  | updateRoute routeAlias input =>
      apply (alike_enter headers).bind
      intro cfg cfg' hcfg
      rw [routes_congr hcfg]
      split
      · apply (alike_check (intoRoute_congr hcfg input routeAlias)).bind_eq
        intro route
        exact alike_written _ _ _
      · exact alike_check rfl
  | deleteRoute routeAlias =>
      apply (alike_enter headers).bind
      intro cfg cfg' hcfg
      apply (alike_execute _ _).bind_eq
      intro n
      split
      · exact alike_check rfl
      · exact alike_reply _
  | setFallbackRoute input =>
      apply (alike_enter headers).bind
      intro cfg cfg' hcfg
      apply (alike_check (target_congr hcfg input)).bind_eq
      intro target
      exact alike_written _ _ _

end Handlers

/-! ## Operations -/

/-- The tables, and the live configuration of the process if one serves. -/
structure Machine where
  db : Database
  live : Option Config

/-- A start of the process, or admin writes while it serves: one that runs to its end,
or any number of them that take turns and may be cut off by the next start. -/
inductive Operation where
  | start (faults : Faults) (reseed : Bool) (file : Config)
  | write (headers : HeaderMap) (w : Write)
  | writes (headers : Nat → HeaderMap) (w : Nat → Write) (schedule : List Nat)

namespace Machine

/-- Operate on the state of a process that serves. -/
def serving (m : Machine) (f : AppState → AppState) : Machine :=
  match m.live with
  | none => m
  | some cfg => ⟨(f ⟨cfg, m.db⟩).db, some (f ⟨cfg, m.db⟩).config⟩

/-- One operation. -/
def next (host : Host) (m : Machine) : Operation → Machine
  | .start faults reseed file =>
      ⟨(boot host faults reseed file m.db).1, (boot host faults reseed file m.db).2⟩
  | .write headers w => m.serving fun s => (Task.alone (w.handler host headers) s).2
  | .writes headers w schedule =>
      m.serving fun s => ((adminWrites host headers w s).after schedule).shared

/-- A sequence of operations, from a store that no process serves yet. -/
def run (host : Host) (db : Database) (operations : List Operation) : Machine :=
  operations.foldl (next host) ⟨db, none⟩

/-- The same tables, and live configurations that are equal up to keys. -/
structure Indistinct (m m' : Machine) : Prop where
  db : m.db = m'.db
  live : m.live.map Config.keyless = m'.live.map Config.keyless

variable {host : Host} {env env' : String → Option String}

theorem Indistinct.serving {m m' : Machine} (h : Indistinct m m') {f f' : AppState → AppState}
    (hf : ∀ s s', SameButKeys s s' → SameButKeys (f s) (f' s')) :
    Indistinct (m.serving f) (m'.serving f') := by
  rcases m with ⟨db, live⟩
  rcases m' with ⟨db', live'⟩
  rcases h with ⟨rfl, hlive⟩
  cases live with
  | none =>
      cases live' with
      | none => exact ⟨rfl, rfl⟩
      | some cfg' => cases hlive
  | some cfg =>
      cases live' with
      | none => cases hlive
      | some cfg' =>
          have hs := hf ⟨cfg, db⟩ ⟨cfg', db⟩ ⟨rfl, Option.some.inj hlive⟩
          exact ⟨hs.db, congrArg some hs.config⟩

/-- **A start stores nothing of the environment**: the import comes before the
overrides. -/
theorem indistinct_boot (host : Host) (env env' : String → Option String) (faults : Faults)
    (reseed : Bool) (file : Config) (db : Database) :
    (boot (host.under env) faults reseed file db).1 =
        (boot (host.under env') faults reseed file db).1 ∧
      (boot (host.under env) faults reseed file db).2.map Config.keyless =
        (boot (host.under env') faults reseed file db).2.map Config.keyless := by
  have hlive : ∀ db, (goLive (host.under env) file db).1 = (goLive (host.under env') file db).1 ∧
      (goLive (host.under env) file db).2.map Config.keyless =
        (goLive (host.under env') file db).2.map Config.keyless := by
    intro db
    simp only [goLive]
    rw [show (host.under env).columns = (host.under env').columns from rfl]
    cases loaded (host.under env').columns db file with
    | error e => exact ⟨rfl, rfl⟩
    | ok cfg => simp [keyless_applyEnvOverrides]
  simp only [boot]
  rw [show (host.under env).columns = (host.under env').columns from rfl]
  split
  · exact ⟨rfl, rfl⟩
  · exact hlive _

/-- **An operation keeps two machines in step.** -/
theorem Indistinct.next {m m' : Machine} (h : Indistinct m m') (op : Operation) :
    Indistinct (m.next (host.under env) op) (m'.next (host.under env') op) := by
  cases op with
  | start faults reseed file =>
      obtain ⟨hdb, hlive⟩ := indistinct_boot host env env' faults reseed file m.db
      refine ⟨?_, ?_⟩
      · rw [Machine.next, hdb, h.db]
        rfl
      · rw [Machine.next, hlive, h.db]
        rfl
  | write headers w => exact h.serving fun s s' hs => ((alike_handler headers w).alone hs).2
  | writes headers w schedule =>
      rw [Machine.next, Machine.next]
      apply h.serving
      intro s s' hs
      have hpools : PoolsRelated SameButKeys Eq (Attempt.Agree (· = ·))
          (adminWrites (host.under env) headers w s) (adminWrites (host.under env') headers w s') :=
        ⟨hs, fun i => alike_handler (headers i) (w i)⟩
      exact (hpools.run schedule).1.shared

/-- **No key of the environment reaches the tables**: two environments leave the same
providers, routes and settings behind the same operations. -/
theorem tables_of_environments (host : Host) (env env' : String → Option String) (db : Database)
    (operations : List Operation) :
    (run (host.under env) db operations).db = (run (host.under env') db operations).db := by
  have hrun : ∀ m m' : Machine, Indistinct m m' →
      Indistinct (operations.foldl (next (host.under env)) m)
        (operations.foldl (next (host.under env')) m') := by
    induction operations with
    | nil => exact fun _ _ h => h
    | cons op operations ih => exact fun m m' h => ih _ _ (h.next op)
  exact (hrun _ _ ⟨rfl, rfl⟩).db

end Machine

end AiApiBridge
