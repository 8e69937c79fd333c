import AiApiBridge.Watchers

/-!
# Where a status comes from

Probes, failed requests, reloads and restarts write the status map and the table of statuses in
any order. Whatever the order, an entry goes back to one probe of its name, kept as found, as
stored, or under the mark of a failed request; nothing says available that no probe has found so
(`statuses_sound`).
-/

set_option autoImplicit false

namespace AiApiBridge

open Failover (markDegraded degraded)

namespace Runtime

/-! ## One probe -/

/-- A probe says when it was made, and finds an error only where it does not succeed. -/
theorem runProbe_coherent (world : ProbeWorld) (name : String) (provider : Provider) (now : Int) :
    (runProbe world name provider now).lastChecked = some now ∧
      (runProbe world name provider now).lastOk = (runProbe world name provider now).available ∧
      ((runProbe world name provider now).available = true →
        (runProbe world name provider now).error = none) := by
  have herr : ∀ msg, (errStatus now msg).lastChecked = some now ∧
      (errStatus now msg).lastOk = (errStatus now msg).available ∧
      ((errStatus now msg).available = true → (errStatus now msg).error = none) := by
    intro msg
    exact ⟨rfl, rfl, fun h => absurd h Bool.false_ne_true⟩
  rw [runProbe]
  cases probeScriptOf world provider with
  | error e => exact herr e
  | ok script =>
      cases script with
      | none =>
          rw [ping]
          cases world.buildClient with
          | error e => exact herr e
          | ok _ =>
              cases world.get provider.baseUrl with
              | error e => exact herr _
              | ok status => exact ⟨rfl, rfl, fun _ => rfl⟩
      | some script =>
          dsimp only
          cases world.runLua script (probeContext name provider) with
          | returned ret => exact ⟨rfl, rfl, fun _ => rfl⟩
          | failed e => exact herr e
          | joinFailed e => exact herr _

/-! ## What was found -/

/-- In this state this event is a probe under the name, of a provider that is probed, with this
result. -/
def Finds (s : Runtime) (e : RuntimeEvent) (name : String) (result : ProviderStatus) : Prop :=
  ∃ t world now task, e = .probe t world now ∧ s.tasks[t]? = some task ∧ task.name = name ∧
    task.provider.isProbed = true ∧ runProbe world name task.provider now = result

/-- A probe of the run has had this result. -/
def FoundIn (s : Runtime) (events : List RuntimeEvent) (name : String)
    (result : ProviderStatus) : Prop :=
  ∃ t e, Runs.Takes Runtime.next s events t e ∧ t.Finds e name result

/-- A result as the map or as the table keeps it. -/
def Recorded (found : ProviderStatus → Prop) (st : ProviderStatus) : Prop :=
  ∃ result, found result ∧ (st = result ∨ st = result.stored)

/-- A recorded result, or one that failed requests have marked since, with the quota and the time
it had; or the mark alone. -/
def Sourced (found : ProviderStatus → Prop) (st : ProviderStatus) : Prop :=
  Recorded found st ∨
    ∃ base err, (base = .new ∨ Recorded found base) ∧ st = degraded (some base) err

theorem Recorded.mono {found found' : ProviderStatus → Prop} {st : ProviderStatus}
    (hsub : ∀ r, found r → found' r) (h : Recorded found st) : Recorded found' st := by
  obtain ⟨result, hfound, heq⟩ := h
  exact ⟨result, hsub result hfound, heq⟩

theorem Sourced.mono {found found' : ProviderStatus → Prop} {st : ProviderStatus}
    (hsub : ∀ r, found r → found' r) (h : Sourced found st) : Sourced found' st := by
  rcases h with h | ⟨base, err, hbase, rfl⟩
  · exact .inl (h.mono hsub)
  · exact .inr ⟨base, err, hbase.imp_right (Recorded.mono hsub), rfl⟩

/-- A further mark replaces the one before it. -/
theorem Sourced.degraded {found : ProviderStatus → Prop} {entry : Option ProviderStatus}
    (h : ∀ st, entry = some st → Sourced found st) (err : BridgeError) :
    Sourced found (degraded entry err) := by
  cases entry with
  | none => exact .inr ⟨.new, err, .inl rfl, rfl⟩
  | some st =>
      rcases h st rfl with hst | ⟨base, err', hbase, rfl⟩
      · exact .inr ⟨st, err, .inr hst, rfl⟩
      · exact .inr ⟨base, err, hbase, rfl⟩

/-- Available is said only of what was found so. -/
theorem Sourced.recorded {found : ProviderStatus → Prop} {st : ProviderStatus}
    (h : Sourced found st) (havailable : st.available = true) : Recorded found st := by
  rcases h with h | ⟨base, err, -, rfl⟩
  · exact h
  · cases havailable

/-! ## What a state holds -/

/-- Everything a state holds of a probe goes back to one that was made. -/
structure Backed (found : String → ProviderStatus → Prop) (s : Runtime) : Prop where
  probed : ∀ task ∈ s.tasks, task.provider.isProbed = true
  held : ∀ task ∈ s.tasks, ∀ result, task.phase = .found result ∨ task.phase = .written result →
    found task.name result
  status : ∀ name st, s.status name = some st → Sourced (found name) st
  rows : ∀ name st, s.rows name = some st → ∃ result, found name result ∧ st = result.stored

theorem Backed.mono {found found' : String → ProviderStatus → Prop} {s : Runtime}
    (hsub : ∀ name r, found name r → found' name r) (h : Backed found s) : Backed found' s where
  probed := h.probed
  held := fun task htask result hphase => hsub _ _ (h.held task htask result hphase)
  status := fun name st hst => (h.status name st hst).mono (hsub name)
  rows := by
    intro name st hst
    obtain ⟨result, hfound, heq⟩ := h.rows name st hst
    exact ⟨result, hsub name result hfound, heq⟩

theorem backed_start (found : String → ProviderStatus → Prop)
    (providers : List (String × Provider)) (rows : StatusMap)
    (hrows : ∀ name st, rows name = some st → ∃ result, found name result ∧ st = result.stored) :
    Backed found (start providers rows) where
  probed := by
    intro task htask
    obtain ⟨np, hnp, rfl⟩ := List.mem_map.1 htask
    exact (List.mem_filter.1 hnp).2
  held := by
    intro task htask result hphase
    obtain ⟨np, -, rfl⟩ := List.mem_map.1 htask
    rcases hphase with hphase | hphase <;> cases hphase
  status := by
    intro name st hst
    obtain ⟨result, hfound, heq⟩ := hrows name st hst
    exact .inl ⟨result, hfound, .inr heq⟩
  rows := hrows

/-- A task in another phase. -/
theorem mem_tasks_setPhase {s : Runtime} {t : Nat} {phase : TaskPhase} {old task : ProbeTask}
    (ht : s.tasks[t]? = some old) (h : task ∈ (s.setPhase t phase).tasks) :
    task ∈ s.tasks ∨ task = { old with phase } := by
  obtain ⟨u, hu⟩ := List.mem_iff_getElem?.1 h
  change (s.tasks.modify t _)[u]? = some task at hu
  rw [List.getElem?_modify] at hu
  obtain ⟨before, hbefore, htask⟩ := Option.map_eq_some_iff.1 hu
  by_cases heq : t = u
  · subst heq
    cases ht.symm.trans hbefore
    rw [if_pos rfl] at htask
    exact .inr htask.symm
  · rw [if_neg heq] at htask
    exact .inl (htask ▸ List.mem_of_getElem? hbefore)

/-- A task goes on to a phase that holds nothing new. -/
theorem Backed.setPhase {found : String → ProviderStatus → Prop} {s : Runtime}
    (h : Backed found s) {t : Nat} {phase : TaskPhase} {old : ProbeTask}
    (ht : s.tasks[t]? = some old)
    (hphase : ∀ result, phase = .found result ∨ phase = .written result → found old.name result) :
    Backed found (s.setPhase t phase) where
  probed := by
    intro task htask
    rcases mem_tasks_setPhase ht htask with hmem | rfl
    · exact h.probed task hmem
    · exact h.probed old (List.mem_of_getElem? ht)
  held := by
    intro task htask result hresult
    rcases mem_tasks_setPhase ht htask with hmem | rfl
    · exact h.held task hmem result hresult
    · exact hphase result hresult
  status := h.status
  rows := h.rows

/-- A spawned task holds no result yet. -/
theorem Backed.spawn {found : String → ProviderStatus → Prop} {s s' : Runtime}
    (h : Backed found s) (hprobed : ∀ task ∈ s'.tasks, task ∈ s.tasks ∨
      (task.provider.isProbed = true ∧ task.phase = .waiting) ∨
        ∃ old ∈ s.tasks, task = { old with aborted := true })
    (hstatus : s'.status = s.status) (hrows : s'.rows = s.rows) : Backed found s' where
  probed := by
    intro task htask
    rcases hprobed task htask with hmem | ⟨hp, -⟩ | ⟨old, hold, rfl⟩
    · exact h.probed task hmem
    · exact hp
    · exact h.probed old hold
  held := by
    intro task htask result hresult
    rcases hprobed task htask with hmem | ⟨-, hphase⟩ | ⟨old, hold, rfl⟩
    · exact h.held task hmem result hresult
    · rw [hphase] at hresult
      rcases hresult with hresult | hresult <;> cases hresult
    · exact h.held old hold result hresult
  status := by
    rw [hstatus]
    exact h.status
  rows := by
    rw [hrows]
    exact h.rows

theorem Backed.next {found found' : String → ProviderStatus → Prop} {s s' : Runtime}
    {e : RuntimeEvent} (hfound : Backed found s) (hsub : ∀ name r, found name r → found' name r)
    (hnew : ∀ name r, s.Finds e name r → found' name r) (hs : s.next e = some s') :
    Backed found' s' := by
  have h := hfound.mono hsub
  cases e with
  | swap i providers =>
      obtain ⟨-, rfl⟩ := next_swap hs
      exact ⟨h.probed, h.held, h.status, h.rows⟩
  | reconcile i =>
      obtain ⟨providers, -, rfl⟩ := next_reconcile hs
      refine h.spawn ?_ rfl rfl
      intro task htask
      rcases List.mem_append.1 htask with hmem | hmem
      · obtain ⟨t, ht, rfl⟩ := List.mem_mapIdx.1 hmem
        split
        · exact .inr (.inr ⟨_, List.getElem_mem ht, rfl⟩)
        · exact .inl (List.getElem_mem ht)
      · obtain ⟨np, hnp, rfl⟩ := List.mem_map.1 hmem
        exact .inr (.inl ⟨(List.mem_filter.1 hnp).2, rfl⟩)
  | retain i =>
      obtain ⟨providers, -, rfl⟩ := next_retain hs
      refine ⟨h.probed, h.held, ?_, h.rows⟩
      intro name st hst
      change (if _ then s.status name else none) = some st at hst
      split at hst
      · exact h.status name st hst
      · cases hst
  | probe t world now =>
      obtain ⟨name, provider, oneShot, htask, rfl⟩ := next_probe hs
      refine h.setPhase htask ?_
      intro result hresult
      rcases hresult with hresult | hresult
      · cases hresult
        have hprobed := h.probed _ (List.mem_of_getElem? htask)
        exact hnew name _ ⟨t, world, now, _, rfl, htask, rfl, hprobed, rfl⟩
      · cases hresult
  | persist t stored =>
      obtain ⟨task, result, htask, hphase, rfl⟩ := next_persist hs
      have hresult := h.held task (List.mem_of_getElem? htask) result (.inl hphase)
      have hset : Backed found' (s.setPhase t (.written result)) := by
        refine h.setPhase htask ?_
        rintro r (hr | hr) <;> cases hr
        exact hresult
      refine ⟨hset.probed, hset.held, hset.status, ?_⟩
      intro name st hst
      cases stored with
      | false => exact h.rows name st hst
      | true =>
          change Function.update s.rows task.name (some result.stored) name = some st at hst
          by_cases hname : name = task.name
          · subst hname
            rw [Function.update_self] at hst
            exact ⟨result, hresult, (Option.some.inj hst).symm⟩
          · rw [Function.update_of_ne hname] at hst
            exact h.rows name st hst
  | insert t =>
      obtain ⟨task, result, htask, hphase, rfl⟩ := next_insert hs
      have hresult := h.held task (List.mem_of_getElem? htask) result (.inr hphase)
      have hset : Backed found' (s.setPhase t (if task.oneShot then .finished else .waiting)) := by
        refine h.setPhase htask ?_
        intro r hr
        cases hone : task.oneShot <;> rw [hone] at hr <;> rcases hr with hr | hr <;> cases hr
      refine ⟨hset.probed, hset.held, ?_, hset.rows⟩
      intro name st hst
      change Function.update s.status task.name (some result) name = some st at hst
      by_cases hname : name = task.name
      · subst hname
        rw [Function.update_self] at hst
        cases hst
        exact .inl ⟨result, hresult, .inl rfl⟩
      · rw [Function.update_of_ne hname] at hst
        exact h.status name st hst
  | degrade name provider err =>
      cases hs
      have hmarked : Backed found' { s with status := markDegraded name err s.status } := by
        refine ⟨h.probed, h.held, ?_, h.rows⟩
        intro n st hst
        change Function.update s.status name _ n = some st at hst
        by_cases hname : n = name
        · subst hname
          rw [Function.update_self] at hst
          cases hst
          exact Sourced.degraded (h.status n) err
        · rw [Function.update_of_ne hname] at hst
          exact h.status n st hst
      refine hmarked.spawn ?_ rfl rfl
      intro task htask
      cases hprobed : provider.isProbed with
      | false =>
          simp only [hprobed, if_false, Bool.false_eq_true] at htask
          exact .inl htask
      | true =>
          simp only [hprobed, if_true] at htask
          rcases List.mem_append.1 htask with hmem | hmem
          · exact .inl hmem
          · rw [List.mem_singleton.1 hmem]
            exact .inr (.inl ⟨hprobed, rfl⟩)
  | forget name =>
      cases hs
      refine ⟨h.probed, h.held, h.status, ?_⟩
      intro n st hst
      change Function.update s.rows name none n = some st at hst
      by_cases hname : n = name
      · rw [hname, Function.update_self] at hst
        cases hst
      · rw [Function.update_of_ne hname] at hst
        exact h.rows n st hst
  | restart providers =>
      cases hs
      exact backed_start found' providers s.rows h.rows

theorem Backed.run {found : String → ProviderStatus → Prop} {s s' : Runtime}
    {events : List RuntimeEvent} (h : Backed found s)
    (hs : Runs.run Runtime.next s events = some s') :
    Backed (fun name r => found name r ∨ s.FoundIn events name r) s' := by
  induction events generalizing s found with
  | nil =>
      cases hs
      exact h.mono fun name r => .inl
  | cons e events ih =>
      rw [Runs.run_cons] at hs
      obtain ⟨t, ht, hrest⟩ := Option.bind_eq_some_iff.1 hs
      have hfirst : Backed (fun name r => found name r ∨ s.Finds e name r) t :=
        h.next (fun _ _ => .inl) (fun _ _ => .inr) ht
      refine (ih hfirst hrest).mono ?_
      rintro name r ((hr | hr) | ⟨u, e', htakes, hr⟩)
      · exact .inl hr
      · exact .inr ⟨s, e, (Runs.takes_cons ht).2 (.inl ⟨rfl, rfl⟩), hr⟩
      · exact .inr ⟨u, e', (Runs.takes_cons ht).2 (.inr htakes), hr⟩

/-- **No status is made up.** Over any run of servers on one table, empty at first, each entry of
the map is what a probe of the run has found of that name, as it was or as its row has kept it,
or such a result marked by a failed request, or a mark alone; each row is what a probe has found.
Only a probe without an error leaves an entry that says available. -/
theorem statuses_sound {providers : List (String × Provider)} {events : List RuntimeEvent}
    {s : Runtime} (hrun : Runs.run Runtime.next (start providers fun _ => none) events = some s) :
    (∀ name st, s.status name = some st →
      Sourced (FoundIn (start providers fun _ => none) events name) st ∧
        st.lastOk = st.available ∧
        (st.available = true → st.error = none ∧ ∃ now, st.lastChecked = some now ∧
          Recorded (FoundIn (start providers fun _ => none) events name) st)) ∧
      ∀ name st, s.rows name = some st →
        ∃ result, FoundIn (start providers fun _ => none) events name result ∧
          st = result.stored := by
  have hbacked := (backed_start (fun _ _ => False) providers (fun _ => none)
    (fun name st h => absurd h (Option.some_ne_none st).symm)).run hrun
  have hfound : Backed (FoundIn (start providers fun _ => none) events) s :=
    hbacked.mono fun name r hr => hr.resolve_left id
  -- what was recorded is the result of a probe
  have hcoherent : ∀ name st, Recorded (FoundIn (start providers fun _ => none) events name) st →
      (∃ now, st.lastChecked = some now) ∧ st.lastOk = st.available ∧
        (st.available = true → st.error = none) := by
    rintro name st ⟨result, ⟨t, e, -, u, world, now, task, -, -, -, -, rfl⟩, heq⟩
    obtain ⟨hchecked, hok, herror⟩ := runProbe_coherent world name task.provider now
    rcases heq with rfl | rfl
    · exact ⟨⟨now, hchecked⟩, hok, herror⟩
    · exact ⟨⟨now, hchecked⟩, hok, herror⟩
  refine ⟨?_, hfound.rows⟩
  intro name st hst
  have hsourced := hfound.status name st hst
  refine ⟨hsourced, ?_, ?_⟩
  · rcases hsourced with hrecorded | ⟨base, err, -, rfl⟩
    · exact (hcoherent name st hrecorded).2.1
    · rfl
  · intro havailable
    have hrecorded := hsourced.recorded havailable
    obtain ⟨hchecked, -, herror⟩ := hcoherent name st hrecorded
    obtain ⟨now, hnow⟩ := hchecked
    exact ⟨herror havailable, now, hnow, hrecorded⟩

/-- A world in which every base URL answers. -/
def reachableWorld : ProbeWorld where
  readToString := fun _ => .error "No such file or directory (os error 2)"
  runLua := fun _ _ => .failed "not a script"
  buildClient := .ok ()
  get := fun _ => .ok 200

/-- A watcher's first probe, and the server's next start. -/
theorem statuses_sound_restarted :
    ∃ s st, Runs.run Runtime.next (start [("go", monitoredProvider)] fun _ => none)
      [.probe 0 reachableWorld 100, .persist 0 true, .insert 0,
        .restart [("go", monitoredProvider)]] = some s ∧
      s.status "go" = some st ∧ st.available = true ∧ st.error = none := by
  have hsound := @statuses_sound [("go", monitoredProvider)]
    [.probe 0 reachableWorld 100, .persist 0 true, .insert 0,
      .restart [("go", monitoredProvider)]] _ rfl
  exact ⟨_, _, rfl, rfl, rfl, ((hsound.1 "go" _ rfl).2.2 rfl).1⟩

end Runtime

end AiApiBridge
