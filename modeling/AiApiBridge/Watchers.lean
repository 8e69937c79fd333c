import AiApiBridge.AdminViews
import AiApiBridge.Demotion
import AiApiBridge.ProbeWrites

/-!
# The probe tasks of a server

`run_probe` of `probe.rs`, and the tasks that call it: the watchers that `watcher.rs` keeps
running, and the one-shot probes of `mark_degraded`. Reloads, probes and failed requests come in
any order, over any number of restarts.

The watchers that may still start a probe are one for each probed provider of the
configuration that was reconciled last, whatever overlaps (`watchers_follow`); this is the live
one as long as no reload overtakes another between its swap and its reconcile.
-/

set_option autoImplicit false

namespace AiApiBridge

open FailoverState (watched)
open Failover (markDegraded degraded)

/-! ## One probe -/

/-- The table a probe script returns. -/
structure ProbeReturn where
  ok : Bool
  remaining : Option FloatValue
  used : Option FloatValue
  limit : Option FloatValue
  note : Option String

/-- How a script ends: with a table, with an error of its own, or with its task. -/
inductive ScriptEnd where
  | returned (ret : ProbeReturn)
  | failed (e : String)
  | joinFailed (e : String)

/-- What a probe depends on: files, the Lua runtime, and an HTTP client for a ping, which may
not be built. -/
structure ProbeWorld where
  readToString : String → Except String String
  runLua : String → Value → ScriptEnd
  buildClient : Except String Unit
  get : String → Except String Nat

/-- `err_status`. -/
def errStatus (now : Int) (msg : String) : ProviderStatus :=
  { ProviderStatus.new with
    available := false
    lastChecked := some now
    lastOk := false
    error := some msg }

/-- The `ctx` of a script. -/
def probeContext (name : String) (provider : Provider) : Value :=
  .object [("name", .string name), ("base_url", .string provider.baseUrl),
    ("api_key", Value.ofOption provider.apiKey),
    ("extra_headers", .object (provider.extraHeaders.map fun (k, v) => (k, .string v))),
    ("wire", .string provider.wire.asStr)]

/-- `ping`: any answer counts as reachable. -/
def ping (world : ProbeWorld) (provider : Provider) (now : Int) : ProviderStatus :=
  match world.buildClient with
  | .error e => errStatus now e
  | .ok () =>
      match world.get provider.baseUrl with
      | .ok status =>
          { ProviderStatus.new with
            available := true
            lastChecked := some now
            lastOk := true
            note := some ("ping " ++ provider.baseUrl ++ " -> " ++ Nat.repr status) }
      | .error e => errStatus now ("ping failed: " ++ e)

/-- The script of a provider, if it has one. -/
def probeScriptOf (world : ProbeWorld) (provider : Provider) : Except String (Option String) :=
  match provider.probeSource with
  | .path =>
      match provider.probeScript with
      | some path =>
          match world.readToString path with
          | .ok s => .ok (some s)
          | .error e => .error ("read " ++ path ++ ": " ++ e)
      | none => .ok none
  | .text => .ok provider.probeScriptText

/-- `run_probe`. -/
def runProbe (world : ProbeWorld) (name : String) (provider : Provider) (now : Int) :
    ProviderStatus :=
  match probeScriptOf world provider with
  | .error e => errStatus now e
  | .ok (some script) =>
      match world.runLua script (probeContext name provider) with
      | .returned ret =>
          { available := ret.ok
            quotaRemaining := ret.remaining
            quotaUsed := ret.used
            quotaLimit := ret.limit
            lastChecked := some now
            lastOk := ret.ok
            error := none
            note := ret.note }
      | .failed e => errStatus now e
      | .joinFailed e => errStatus now ("probe task failed: " ++ e)
  | .ok none => ping world provider now

/-! ## The tasks -/

/-- How far a task has come. Its row is written before its entry. -/
inductive TaskPhase where
  | waiting
  | found (result : ProviderStatus)
  | written (result : ProviderStatus)
  | finished

/-- A task with the provider it was given. A one-shot task probes once, and nobody holds a handle
to it. -/
structure ProbeTask where
  name : String
  provider : Provider
  oneShot : Bool
  phase : TaskPhase
  aborted : Bool

/-- A reload that has swapped the configuration, or has reconciled the watchers, too. -/
inductive ReloadPhase where
  | swapped (providers : List (String × Provider))
  | reconciled (providers : List (String × Provider))

/-- The providers of the live configuration, the reloads under way, all tasks ever spawned with
the handles to some of them, the status map and the table of statuses. -/
structure Runtime where
  live : List (String × Provider)
  reloads : Nat → Option ReloadPhase
  tasks : List ProbeTask
  handles : List Nat
  status : StatusMap
  rows : StatusMap

inductive RuntimeEvent where
  /-- A reload swaps in a configuration with these providers. -/
  | swap (i : Nat) (providers : List (String × Provider))
  | reconcile (i : Nat)
  | retain (i : Nat)
  /-- A task probes; the clock is read when it starts. -/
  | probe (t : Nat) (world : ProbeWorld) (now : Int)
  /-- `write_status` returns; it may have failed. -/
  | persist (t : Nat) (stored : Bool)
  | insert (t : Nat)
  /-- A request marks the provider of a candidate. -/
  | degrade (name : String) (provider : Provider) (err : BridgeError)
  /-- The row of a provider goes with the provider. -/
  | forget (name : String)
  /-- The process starts again, on a configuration with these providers. -/
  | restart (providers : List (String × Provider))

/-- The watcher of a provider before its first probe. -/
def spawned (oneShot : Bool) (np : String × Provider) : ProbeTask :=
  ⟨np.1, np.2, oneShot, .waiting, false⟩

/-- `spawn`: a task for each provider that is probed. -/
def spawnWatchers (providers : List (String × Provider)) : List ProbeTask :=
  (watched providers).map (spawned false)

/-- `abort` on the tasks with these positions. -/
def abortAll (handles : List Nat) (tasks : List ProbeTask) : List ProbeTask :=
  tasks.mapIdx fun t task => if t ∈ handles then { task with aborted := true } else task

namespace Runtime

/-- A process at its start. -/
def start (providers : List (String × Provider)) (rows : StatusMap) : Runtime where
  live := providers
  reloads := fun _ => none
  tasks := spawnWatchers providers
  handles := List.range (spawnWatchers providers).length
  status := rows
  rows := rows

/-- `reconcile`: abort all, and spawn from the new providers. -/
def reconcile (s : Runtime) (providers : List (String × Provider)) : Runtime :=
  { s with
    tasks := abortAll s.handles s.tasks ++ spawnWatchers providers
    handles := (List.range (spawnWatchers providers).length).map (s.tasks.length + ·) }

/-- The same tasks, one of them further. -/
def setPhase (s : Runtime) (t : Nat) (phase : TaskPhase) : Runtime :=
  { s with tasks := s.tasks.modify t fun task => { task with phase } }

/-- One step. An aborted task starts no further probe. What it has under way may still take
effect: a statement that has been handed over is executed, and between its return and the entry
nothing is awaited. -/
def next (s : Runtime) : RuntimeEvent → Option Runtime
  | .swap i providers =>
      match s.reloads i with
      | none => some { s with
          live := providers
          reloads := Function.update s.reloads i (some (.swapped providers)) }
      | some _ => none
  | .reconcile i =>
      match s.reloads i with
      | some (.swapped providers) =>
          some { s.reconcile providers with
            reloads := Function.update s.reloads i (some (.reconciled providers)) }
      | _ => none
  | .retain i =>
      match s.reloads i with
      | some (.reconciled providers) => some { s with
          status := fun name => if (providers.lookup name).isSome then s.status name else none
          reloads := Function.update s.reloads i none }
      | _ => none
  | .probe t world now =>
      match s.tasks[t]? with
      | some ⟨name, provider, _, .waiting, false⟩ =>
          some (s.setPhase t (.found (runProbe world name provider now)))
      | _ => none
  | .persist t stored =>
      match s.tasks[t]? with
      | some ⟨name, _, _, .found result, _⟩ =>
          some { s.setPhase t (.written result) with
            rows := if stored then Function.update s.rows name (some result.stored) else s.rows }
      | _ => none
  | .insert t =>
      match s.tasks[t]? with
      | some ⟨name, _, oneShot, .written result, _⟩ =>
          some { s.setPhase t (if oneShot then .finished else .waiting) with
            status := Function.update s.status name (some result) }
      | _ => none
  | .degrade name provider err =>
      some { s with
        status := markDegraded name err s.status
        tasks := if provider.isProbed then s.tasks ++ [spawned true (name, provider)]
          else s.tasks }
  | .forget name => some { s with rows := Function.update s.rows name none }
  | .restart providers => some (start providers s.rows)

/-! ## What a step does -/

section Steps

variable {s s' : Runtime}

theorem next_swap {i : Nat} {providers : List (String × Provider)}
    (h : s.next (.swap i providers) = some s') :
    s.reloads i = none ∧ s' = { s with
      live := providers
      reloads := Function.update s.reloads i (some (.swapped providers)) } := by
  rw [next] at h
  split at h
  · exact ⟨‹_›, (Option.some.inj h).symm⟩
  · cases h

theorem next_reconcile {i : Nat} (h : s.next (.reconcile i) = some s') :
    ∃ providers, s.reloads i = some (.swapped providers) ∧ s' = { s.reconcile providers with
      reloads := Function.update s.reloads i (some (.reconciled providers)) } := by
  rw [next] at h
  split at h
  · exact ⟨_, ‹_›, (Option.some.inj h).symm⟩
  · cases h

theorem next_retain {i : Nat} (h : s.next (.retain i) = some s') :
    ∃ providers, s.reloads i = some (.reconciled providers) ∧ s' = { s with
      status := fun name => if (providers.lookup name).isSome then s.status name else none
      reloads := Function.update s.reloads i none } := by
  rw [next] at h
  split at h
  · exact ⟨_, ‹_›, (Option.some.inj h).symm⟩
  · cases h

theorem next_probe {t : Nat} {world : ProbeWorld} {now : Int}
    (h : s.next (.probe t world now) = some s') :
    ∃ name provider oneShot, s.tasks[t]? = some ⟨name, provider, oneShot, .waiting, false⟩ ∧
      s' = s.setPhase t (.found (runProbe world name provider now)) := by
  rw [next] at h
  split at h
  · exact ⟨_, _, _, ‹_›, (Option.some.inj h).symm⟩
  · cases h

theorem next_persist {t : Nat} {stored : Bool} (h : s.next (.persist t stored) = some s') :
    ∃ task result, s.tasks[t]? = some task ∧ task.phase = .found result ∧
      s' = { s.setPhase t (.written result) with
        rows := if stored then Function.update s.rows task.name (some result.stored)
          else s.rows } := by
  rw [next] at h
  split at h
  · exact ⟨_, _, ‹_›, rfl, (Option.some.inj h).symm⟩
  · cases h

theorem next_insert {t : Nat} (h : s.next (.insert t) = some s') :
    ∃ task result, s.tasks[t]? = some task ∧ task.phase = .written result ∧
      s' = { s.setPhase t (if task.oneShot then .finished else .waiting) with
        status := Function.update s.status task.name (some result) } := by
  rw [next] at h
  split at h
  · exact ⟨_, _, ‹_›, rfl, (Option.some.inj h).symm⟩
  · cases h

end Steps

/-! ## Who probes -/

/-- A watcher that has not been aborted. -/
def isRunning (task : ProbeTask) : Bool := !task.oneShot && !task.aborted

/-- What is being watched. -/
def running (s : Runtime) : List (String × Provider) :=
  (s.tasks.filter isRunning).map fun task => (task.name, task.provider)

/-- The handles are those of the running watchers. -/
def Held (s : Runtime) : Prop :=
  ∀ t, t ∈ s.handles ↔ ∃ task, s.tasks[t]? = some task ∧ isRunning task = true

/-- Which phase a task is in has no part in who runs. -/
theorem getElem?_modify_isRunning (tasks : List ProbeTask) (t u : Nat) (phase : TaskPhase) :
    (∃ task, (tasks.modify t fun task => { task with phase })[u]? = some task ∧
      isRunning task = true) ↔ ∃ task, tasks[u]? = some task ∧ isRunning task = true := by
  rw [List.getElem?_modify]
  cases tasks[u]? with
  | none => simp
  | some old =>
      simp only [Option.map_eq_map, Option.map_some, Option.some.injEq, exists_eq_left']
      split <;> rfl

theorem Held.setPhase {s : Runtime} (h : s.Held) (t : Nat) (phase : TaskPhase) :
    (s.setPhase t phase).Held := by
  intro u
  exact (h u).trans (getElem?_modify_isRunning s.tasks t u phase).symm

theorem running_setPhase (s : Runtime) (t : Nat) (phase : TaskPhase) :
    (s.setPhase t phase).running = s.running := by
  have hlist : ∀ tasks : List ProbeTask, ∀ t,
      ((tasks.modify t fun task => { task with phase }).filter isRunning).map
        (fun task => (task.name, task.provider)) =
          (tasks.filter isRunning).map fun task => (task.name, task.provider) := by
    intro tasks
    induction tasks with
    | nil =>
        intro t
        rw [List.modify_nil]
    | cons task tasks ih =>
        intro t
        cases t with
        | zero =>
            have hsame : isRunning { task with phase } = isRunning task := rfl
            rw [List.modify_zero_cons, List.filter_cons, List.filter_cons, hsame]
            split <;> rfl
        | succ t =>
            rw [List.modify_succ_cons, List.filter_cons, List.filter_cons]
            split
            · rw [List.map_cons, List.map_cons, ih t]
            · exact ih t
  exact hlist s.tasks t

/-! ## What a reconcile leaves -/

theorem abortAll_length (handles : List Nat) (tasks : List ProbeTask) :
    (abortAll handles tasks).length = tasks.length := List.length_mapIdx

/-- The handles are those of the running watchers, so none of these goes on. -/
theorem Held.abortAll {s : Runtime} (h : s.Held) :
    ∀ task ∈ abortAll s.handles s.tasks, isRunning task = false := by
  intro task htask
  obtain ⟨t, ht, rfl⟩ := List.mem_mapIdx.1 htask
  split
  · simp [isRunning]
  · rename_i hnot
    refine Bool.eq_false_iff.2 fun hrunning => hnot ((h t).2 ?_)
    exact ⟨_, List.getElem?_eq_getElem ht, hrunning⟩

theorem isRunning_of_mem_spawnWatchers {providers : List (String × Provider)} {task : ProbeTask}
    (h : task ∈ spawnWatchers providers) : isRunning task = true := by
  obtain ⟨np, -, rfl⟩ := List.mem_map.1 h
  rfl

theorem running_spawnWatchers (providers : List (String × Provider)) :
    ((spawnWatchers providers).filter isRunning).map (fun task => (task.name, task.provider)) =
      watched providers := by
  rw [List.filter_eq_self.2 fun _ => isRunning_of_mem_spawnWatchers, spawnWatchers, List.map_map]
  exact List.map_id _

/-- A task at a position past the others is a watcher just spawned. -/
theorem exists_running_spawnWatchers (providers : List (String × Provider)) (k : Nat) :
    (∃ task, (spawnWatchers providers)[k]? = some task ∧ isRunning task = true) ↔
      k < (spawnWatchers providers).length := by
  constructor
  · rintro ⟨task, htask, -⟩
    exact (List.getElem?_eq_some_iff.1 htask).1
  · intro hk
    exact ⟨_, List.getElem?_eq_getElem hk, isRunning_of_mem_spawnWatchers (List.getElem_mem hk)⟩

theorem held_start (providers : List (String × Provider)) (rows : StatusMap) :
    (start providers rows).Held := by
  intro t
  exact List.mem_range.trans (exists_running_spawnWatchers providers t).symm

theorem Held.reconcile {s : Runtime} (h : s.Held) (providers : List (String × Provider)) :
    (s.reconcile providers).Held := by
  intro t
  have hlength := abortAll_length s.handles s.tasks
  have hhandle : t ∈ (s.reconcile providers).handles ↔
      ∃ k < (spawnWatchers providers).length, s.tasks.length + k = t := by
    simp only [Runtime.reconcile, List.mem_map, List.mem_range]
  have htasks : (s.reconcile providers).tasks =
      AiApiBridge.abortAll s.handles s.tasks ++ spawnWatchers providers := rfl
  rw [hhandle, htasks]
  by_cases ht : t < s.tasks.length
  · -- an older task, which has just been aborted if it was a watcher
    rw [List.getElem?_append_left (by omega)]
    constructor
    · rintro ⟨k, -, rfl⟩
      omega
    · rintro ⟨task, htask, hrunning⟩
      rw [h.abortAll task (List.mem_of_getElem? htask)] at hrunning
      cases hrunning
  · rw [List.getElem?_append_right (by omega), hlength, exists_running_spawnWatchers]
    constructor
    · rintro ⟨k, hk, rfl⟩
      omega
    · intro hlt
      exact ⟨t - s.tasks.length, hlt, by omega⟩

theorem running_reconcile {s : Runtime} (h : s.Held) (providers : List (String × Provider)) :
    (s.reconcile providers).running = watched providers := by
  have hnone : (abortAll s.handles s.tasks).filter isRunning = [] := by
    rw [List.filter_eq_nil_iff]
    intro task htask
    rw [h.abortAll task htask]
    exact Bool.false_ne_true
  rw [running]
  change ((abortAll s.handles s.tasks ++ spawnWatchers providers).filter isRunning).map _ = _
  rw [List.filter_append, hnone, List.nil_append]
  exact running_spawnWatchers providers

/-- Nobody holds a one-shot task. -/
theorem Held.append_oneShot {s : Runtime} (h : s.Held) (np : String × Provider)
    (status : StatusMap) :
    Held { s with status, tasks := s.tasks ++ [spawned true np] } := by
  intro t
  rw [show t ∈ s.handles ↔ _ from h t]
  change _ ↔ ∃ task, (s.tasks ++ [spawned true np])[t]? = some task ∧ _
  by_cases ht : t < s.tasks.length
  · rw [List.getElem?_append_left ht]
  · rw [List.getElem?_append_right (by omega), List.getElem?_eq_none (by omega)]
    constructor
    · rintro ⟨task, htask, -⟩
      cases htask
    · rintro ⟨task, htask, hrunning⟩
      have hmem := List.mem_of_getElem? htask
      rw [List.mem_singleton.1 hmem] at hrunning
      cases hrunning

theorem running_append_oneShot (s : Runtime) (np : String × Provider) (status : StatusMap) :
    running { s with status, tasks := s.tasks ++ [spawned true np] } = s.running := by
  change ((s.tasks ++ [spawned true np]).filter isRunning).map _ = _
  have hnone : [spawned true np].filter isRunning = [] := rfl
  rw [List.filter_append, hnone, List.append_nil]
  rfl

end Runtime

/-! ## What the history says -/

/-- The providers swapped in last, those reconciled last, and what each reload has swapped in. -/
structure ReloadLedger where
  live : List (String × Provider)
  reconciled : List (String × Provider)
  loaded : Nat → List (String × Provider)

namespace ReloadLedger

def start (providers : List (String × Provider)) : ReloadLedger :=
  ⟨providers, providers, fun _ => []⟩

/-- Read off the event alone. -/
def read (l : ReloadLedger) : RuntimeEvent → ReloadLedger
  | .swap i providers =>
      { l with live := providers, loaded := Function.update l.loaded i providers }
  | .reconcile i => { l with reconciled := l.loaded i }
  | .restart providers => start providers
  | _ => l

def ofEvents (providers : List (String × Provider)) (events : List RuntimeEvent) : ReloadLedger :=
  events.foldl read (start providers)

end ReloadLedger

namespace Runtime

/-- The server is where its history says. -/
structure Follows (s : Runtime) (l : ReloadLedger) : Prop where
  held : s.Held
  running : s.running = watched l.reconciled
  live : s.live = l.live
  loaded : ∀ i providers, s.reloads i = some (.swapped providers) → l.loaded i = providers

theorem follows_start (providers : List (String × Provider)) (rows : StatusMap) :
    (start providers rows).Follows (.start providers) where
  held := held_start providers rows
  running := running_spawnWatchers providers
  live := rfl
  loaded := fun _ _ h => absurd h (Option.some_ne_none _).symm

theorem update_reloads {reloads : Nat → Option ReloadPhase} {i j : Nat}
    {phase : Option ReloadPhase} {providers : List (String × Provider)}
    (hphase : phase ≠ some (.swapped providers))
    (h : Function.update reloads i phase j = some (.swapped providers)) :
    reloads j = some (.swapped providers) := by
  by_cases hj : j = i
  · subst hj
    rw [Function.update_self] at h
    exact absurd h hphase
  · rwa [Function.update_of_ne hj] at h

/-- The history goes along with every step. -/
theorem Follows.next {s s' : Runtime} {l : ReloadLedger} {e : RuntimeEvent} (h : s.Follows l)
    (hs : s.next e = some s') : s'.Follows (l.read e) := by
  cases e with
  | swap i providers =>
      obtain ⟨-, rfl⟩ := next_swap hs
      refine ⟨h.held, h.running, rfl, ?_⟩
      intro j ps hj
      change Function.update s.reloads i _ j = _ at hj
      change Function.update l.loaded i providers j = ps
      by_cases hji : j = i
      · subst hji
        rw [Function.update_self] at hj ⊢
        cases hj
        rfl
      · rw [Function.update_of_ne hji] at hj ⊢
        exact h.loaded j ps hj
  | reconcile i =>
      obtain ⟨providers, hi, rfl⟩ := next_reconcile hs
      refine ⟨h.held.reconcile providers, ?_, h.live, ?_⟩
      · rw [ReloadLedger.read, h.loaded i providers hi]
        exact running_reconcile h.held providers
      · intro j ps hj
        exact h.loaded j ps (update_reloads (by simp) hj)
  | retain i =>
      obtain ⟨providers, -, rfl⟩ := next_retain hs
      exact ⟨h.held, h.running, h.live,
        fun j ps hj => h.loaded j ps (update_reloads (by simp) hj)⟩
  | probe t world now =>
      obtain ⟨name, provider, oneShot, -, rfl⟩ := next_probe hs
      exact ⟨h.held.setPhase t _, (running_setPhase s t _).trans h.running, h.live, h.loaded⟩
  | persist t stored =>
      obtain ⟨task, result, -, -, rfl⟩ := next_persist hs
      exact ⟨h.held.setPhase t _, (running_setPhase s t _).trans h.running, h.live, h.loaded⟩
  | insert t =>
      obtain ⟨task, result, -, -, rfl⟩ := next_insert hs
      exact ⟨h.held.setPhase t _, (running_setPhase s t _).trans h.running, h.live, h.loaded⟩
  | degrade name provider err =>
      cases hs
      split
      · exact ⟨h.held.append_oneShot _ _, (running_append_oneShot s _ _).trans h.running, h.live,
          h.loaded⟩
      · exact ⟨h.held, h.running, h.live, h.loaded⟩
  | forget name =>
      cases hs
      exact ⟨h.held, h.running, h.live, h.loaded⟩
  | restart providers =>
      cases hs
      exact follows_start providers s.rows

theorem Follows.run {s s' : Runtime} {l : ReloadLedger} {events : List RuntimeEvent}
    (h : s.Follows l) (hs : Runs.run Runtime.next s events = some s') :
    s'.Follows (events.foldl ReloadLedger.read l) := by
  induction events generalizing s l with
  | nil =>
      cases hs
      exact h
  | cons e events ih =>
      rw [Runs.run_cons] at hs
      obtain ⟨t, ht, hrest⟩ := Option.bind_eq_some_iff.1 hs
      exact ih (h.next ht) hrest

/-! ## No reload overtakes another -/

/-- A reload has swapped in these providers and not reconciled yet. -/
def Pending (s : Runtime) (i : Nat) (providers : List (String × Provider)) : Prop :=
  s.reloads i = some (.swapped providers)

/-- At most one reload is between its swap and its reconcile, with what is live; when there is
none, what is live is watched. -/
structure Settled (s : Runtime) : Prop where
  alone : ∀ i j ps qs, s.Pending i ps → s.Pending j qs → i = j
  pending : ∀ i ps, s.Pending i ps → ps = s.live
  watching : (∀ i ps, ¬ s.Pending i ps) → s.running = watched s.live

/-- A reload swaps only while no other is pending. -/
def Awaits (s : Runtime) (e : RuntimeEvent) : Prop :=
  ∀ i providers, e = .swap i providers → ∀ j ps, ¬ s.Pending j ps

/-- What leaves the reloads, the live providers and the watchers as they are. -/
theorem Settled.of_eq {s s' : Runtime} (h : s.Settled) (hreloads : s'.reloads = s.reloads)
    (hlive : s'.live = s.live) (hrunning : s'.running = s.running) : s'.Settled := by
  have hpending : ∀ i ps, s'.Pending i ps ↔ s.Pending i ps := by
    intro i ps
    rw [Pending, Pending, hreloads]
  refine ⟨?_, ?_, ?_⟩
  · intro i j ps qs hi hj
    exact h.alone i j ps qs ((hpending i ps).1 hi) ((hpending j qs).1 hj)
  · intro i ps hi
    rw [hlive]
    exact h.pending i ps ((hpending i ps).1 hi)
  · intro hnone
    rw [hrunning, hlive]
    exact h.watching fun i ps hi => hnone i ps ((hpending i ps).2 hi)

theorem settled_start (providers : List (String × Provider)) (rows : StatusMap) :
    (start providers rows).Settled where
  alone := fun _ _ _ _ h => absurd h (Option.some_ne_none _).symm
  pending := fun _ _ h => absurd h (Option.some_ne_none _).symm
  watching := fun _ => running_spawnWatchers providers

theorem Settled.next {s s' : Runtime} {e : RuntimeEvent} (h : s.Settled) (hheld : s.Held)
    (hawaits : s.Awaits e) (hs : s.next e = some s') : s'.Settled := by
  cases e with
  | swap i providers =>
      obtain ⟨-, rfl⟩ := next_swap hs
      -- the only reload that is pending now is this one
      have honly : ∀ j ps, Function.update s.reloads i (some (.swapped providers)) j =
          some (.swapped ps) → j = i ∧ ps = providers := by
        intro j ps hj
        by_cases hji : j = i
        · subst hji
          rw [Function.update_self] at hj
          cases hj
          exact ⟨rfl, rfl⟩
        · rw [Function.update_of_ne hji] at hj
          exact absurd hj (hawaits i providers rfl j ps)
      refine ⟨?_, ?_, ?_⟩
      · intro j k ps qs hj hk
        rw [(honly j ps hj).1, (honly k qs hk).1]
      · intro j ps hj
        exact (honly j ps hj).2
      · intro hnone
        exact absurd (Function.update_self ..) (hnone i providers)
  | reconcile i =>
      obtain ⟨providers, hi, rfl⟩ := next_reconcile hs
      -- it was the pending one, so none is left
      have hnone : ∀ j ps, ¬ Function.update s.reloads i (some (.reconciled providers)) j =
          some (.swapped ps) := by
        intro j ps hj
        have hold := update_reloads (by simp) hj
        have hji := h.alone j i ps providers hold hi
        rw [hji, Function.update_self] at hj
        cases hj
      refine ⟨fun j _ ps _ hj => absurd hj (hnone j ps), fun j ps hj => absurd hj (hnone j ps), ?_⟩
      intro _
      rw [show providers = s.live from h.pending i providers hi] at *
      exact running_reconcile hheld s.live
  | retain i =>
      obtain ⟨providers, hi, rfl⟩ := next_retain hs
      have hpending : ∀ j ps, Function.update s.reloads i none j = some (.swapped ps) ↔
          s.Pending j ps := by
        intro j ps
        constructor
        · exact fun hj => update_reloads (by simp) hj
        · intro hj
          have hji : j ≠ i := by
            rintro rfl
            cases hi.symm.trans hj
          rw [Function.update_of_ne hji]
          exact hj
      refine ⟨?_, ?_, ?_⟩
      · intro j k ps qs hj hk
        exact h.alone j k ps qs ((hpending j ps).1 hj) ((hpending k qs).1 hk)
      · intro j ps hj
        exact h.pending j ps ((hpending j ps).1 hj)
      · intro hnone
        exact h.watching fun j ps hj => hnone j ps ((hpending j ps).2 hj)
  | probe t world now =>
      obtain ⟨name, provider, oneShot, -, rfl⟩ := next_probe hs
      exact h.of_eq rfl rfl (running_setPhase s t _)
  | persist t stored =>
      obtain ⟨task, result, -, -, rfl⟩ := next_persist hs
      exact h.of_eq rfl rfl (running_setPhase s t _)
  | insert t =>
      obtain ⟨task, result, -, -, rfl⟩ := next_insert hs
      exact h.of_eq rfl rfl (running_setPhase s t _)
  | degrade name provider err =>
      cases hs
      split
      · exact h.of_eq rfl rfl (running_append_oneShot s _ _)
      · exact h.of_eq rfl rfl rfl
  | forget name =>
      cases hs
      exact h.of_eq rfl rfl rfl
  | restart providers =>
      cases hs
      exact settled_start providers s.rows

theorem Settled.run {s s' : Runtime} {events : List RuntimeEvent} {l : ReloadLedger}
    (h : s.Settled) (hl : s.Follows l)
    (hawaits : ∀ t e, Runs.Takes Runtime.next s events t e → t.Awaits e)
    (hs : Runs.run Runtime.next s events = some s') : s'.Settled := by
  induction events generalizing s l with
  | nil =>
      cases hs
      exact h
  | cons e events ih =>
      rw [Runs.run_cons] at hs
      obtain ⟨t, ht, hrest⟩ := Option.bind_eq_some_iff.1 hs
      have hfirst : s.Awaits e := hawaits s e ((Runs.takes_cons ht).2 (.inl ⟨rfl, rfl⟩))
      exact ih (h.next hl.held hfirst ht) (hl.next ht)
        (fun u e' hu => hawaits u e' ((Runs.takes_cons ht).2 (.inr hu))) hrest

/-- Only a watcher that is running, or a task of one probe, starts a probe. -/
theorem mem_running_of_probe {s s' : Runtime} {t : Nat} {world : ProbeWorld} {now : Int}
    (h : s.next (.probe t world now) = some s') :
    ∃ task, s.tasks[t]? = some task ∧
      (task.oneShot = true ∨ (task.name, task.provider) ∈ s.running) := by
  obtain ⟨name, provider, oneShot, htask, -⟩ := next_probe h
  refine ⟨_, htask, ?_⟩
  cases oneShot with
  | true => exact .inl rfl
  | false =>
      have hmem := List.mem_of_getElem? htask
      exact .inr (List.mem_map.2 ⟨_, List.mem_filter.2 ⟨hmem, rfl⟩, rfl⟩)

/-- A provider with its probe switched on. -/
def monitoredProvider : Provider :=
  { defaultedProvider "https://upstream.example" with probeEnabled := some true }

/-- **The watchers follow the configuration.** In every run the running watchers are one for each
probed provider of the configuration reconciled last, and only they and one-shot tasks probe.
If no reload swaps while another has yet to reconcile, what is watched is what is live whenever
none has. -/
theorem watchers_follow {providers : List (String × Provider)} {rows : StatusMap}
    {events : List RuntimeEvent} {s : Runtime}
    (hrun : Runs.run Runtime.next (start providers rows) events = some s) :
    s.running = watched (ReloadLedger.ofEvents providers events).reconciled ∧
      s.live = (ReloadLedger.ofEvents providers events).live ∧
      (∀ t world now s', s.next (.probe t world now) = some s' →
        ∃ task, s.tasks[t]? = some task ∧
          (task.oneShot = true ∨ (task.name, task.provider) ∈ s.running)) ∧
      ((∀ t e, Runs.Takes Runtime.next (start providers rows) events t e → t.Awaits e) →
        (∀ i ps, ¬ s.Pending i ps) → s.running = watched s.live) := by
  have hfollows := (follows_start providers rows).run hrun
  refine ⟨hfollows.running, hfollows.live, fun t world now s' => mem_running_of_probe, ?_⟩
  intro hawaits
  exact ((settled_start providers rows).run (follows_start providers rows) hawaits hrun).watching

/-- A first provider is added. -/
theorem watchers_follow_added :
    ∃ s, Runs.run Runtime.next (start [] fun _ => none)
      [.swap 0 [("go", monitoredProvider)], .reconcile 0] = some s ∧
        s.running = [("go", monitoredProvider)] ∧ s.running = watched s.live := by
  have hfollows := @watchers_follow [] (fun _ => none)
    [.swap 0 [("go", monitoredProvider)], .reconcile 0] _ rfl
  refine ⟨_, rfl, hfollows.1, hfollows.2.2.2 ?_ ?_⟩
  · intro t e ht i providers he j ps
    subst he
    rcases (Runs.takes_cons rfl).1 ht with ⟨rfl, -⟩ | ht
    · exact (Option.some_ne_none _).symm
    · rcases (Runs.takes_cons rfl).1 ht with ⟨-, he⟩ | ht
      · cases he
      · exact absurd ht Runs.not_takes_nil
  · intro i ps hi
    cases i with
    | zero => cases hi
    | succ i => cases hi

end Runtime

end AiApiBridge
