import AiApiBridge.Failover
import AiApiBridge.Store
import AiApiBridge.Lib.Runs

/-!
# Probes and what they write

The watcher of a provider and the one-shot probes that `mark_degraded` spawns
(`watcher.rs`, `probe.rs`, `server.rs`). A probe starts with a time stamp, writes its
result to the row of `provider_status` and then to the entry of the status map, in two
steps; nothing keeps probes of one provider apart. Row and entry are the result of the
probe that started last whenever no probe is in flight, provided that the probe that
finishes last is always the one that started last and also the last to have written the
row (`agrees_iff_orderly`).
-/

set_option autoImplicit false

namespace AiApiBridge

open Store Failover

/-- A status as `load_statuses` reads it back: SQLite stores a NaN as `NULL`. -/
def ProviderStatus.stored (s : ProviderStatus) : ProviderStatus :=
  { s with
    quotaRemaining := bindReal s.quotaRemaining
    quotaUsed := bindReal s.quotaUsed
    quotaLimit := bindReal s.quotaLimit }

/-- A task that probes: the watcher, or the `k`-th that `mark_degraded` has spawned. -/
inductive Prober where
  | watcher
  | reprobe (k : Nat)
  deriving DecidableEq, Repr

/-- How far a task has come. A spawned task is due until it starts; a probe carries its
number in the order of starts. -/
inductive ProbePhase where
  | idle
  | due
  | running (n : Nat) (now : Int)
  | persisted (n : Nat) (result : ProviderStatus)
  deriving DecidableEq, Repr

/-- The number of a probe under way. -/
def ProbePhase.number : ProbePhase → Option Nat
  | running n _ | persisted n _ => some n
  | _ => none

/-- A status, and which probe has written it; none when it was `mark_degraded`. -/
structure Written where
  writer : Option Nat
  status : Option ProviderStatus
  deriving DecidableEq, Repr

/-- When the probe behind a status has started. -/
def Written.lastChecked (w : Written) : Option Int := w.status.bind ProviderStatus.lastChecked

/-- A probed provider: its row, its entry in the status map and its tasks. `started` is
the number of probes so far and `clock` the start of the latest one. -/
structure ProbedState where
  row : Written
  entry : Written
  phase : Prober → ProbePhase
  started : Nat
  spawned : Nat
  clock : Int

/-- A step of a task, or a failed request. -/
inductive ProbeEvent where
  | start (p : Prober) (now : Int)
  | persist (p : Prober) (result : ProviderStatus)
  | insert (p : Prober)
  | degrade (err : BridgeError)
  deriving DecidableEq, Repr

namespace ProbedState

/-- The watcher may start between two probes, a spawned task once. -/
def mayStart (s : ProbedState) : Prober → Bool
  | .watcher => s.phase .watcher = .idle
  | .reprobe k => s.phase (.reprobe k) = .due

/-- One step. The clock does not go back. -/
def next (s : ProbedState) : ProbeEvent → Option ProbedState
  | .start p now =>
      if s.mayStart p ∧ s.clock ≤ now then
        some { s with
          phase := Function.update s.phase p (.running (s.started + 1) now)
          started := s.started + 1
          clock := now }
      else none
  -- `write_status`, with the time at which the probe has started
  | .persist p result =>
      match s.phase p with
      | .running n now =>
          if result.lastChecked = some now then
            some { s with
              row := ⟨some n, some result.stored⟩
              phase := Function.update s.phase p (.persisted n result) }
          else none
      | _ => none
  | .insert p =>
      match s.phase p with
      | .persisted n result =>
          some { s with
            entry := ⟨some n, some result⟩
            phase := Function.update s.phase p .idle }
      | _ => none
  -- `mark_degraded` of a provider that is probed
  | .degrade err =>
      some { s with
        entry := ⟨none, some (degraded s.entry.status err)⟩
        phase := Function.update s.phase (.reprobe s.spawned) .due
        spawned := s.spawned + 1 }

/-- The state at startup: the map holds what `load_statuses` has read. -/
def loaded (status : Option ProviderStatus) (clock : Int) : ProbedState :=
  ⟨⟨some 0, status⟩, ⟨some 0, status⟩, fun _ => .idle, 0, 0, clock⟩

/-- No probe is in flight. -/
def Settled (s : ProbedState) : Prop := ∀ p, s.phase p = .idle

/-- Row and entry hold the same status, both by the probe that started last, and a start
is what it was last checked at. -/
structure Agrees (s : ProbedState) : Prop where
  status : s.entry.status = s.row.status
  entry : s.entry.writer = some s.started
  row : s.row.writer = some s.started
  checked : 0 < s.started → s.row.lastChecked = some s.clock

/-- A probe that leaves no other in flight behind it is the one that started last, nobody
has written the row after it, and its quotas are numbers. -/
def Orderly (s : ProbedState) : ProbeEvent → Prop
  | .insert p => (∀ q, q ≠ p → s.phase q = .idle) →
      (s.phase p).number = some s.started ∧ s.row.writer = some s.started ∧
        ∀ n result, s.phase p = .persisted n result → result.stored = result
  | _ => True

/-! ## What a step does -/

section Steps

variable {s s' : ProbedState} {p : Prober}

theorem next_start {now : Int} (hn : s.next (.start p now) = some s') :
    (s.mayStart p = true ∧ s.clock ≤ now) ∧ s' = { s with
      phase := Function.update s.phase p (.running (s.started + 1) now)
      started := s.started + 1
      clock := now } := by
  rw [next] at hn
  split at hn
  next hstart => exact ⟨hstart, (Option.some.inj hn).symm⟩
  next => cases hn

theorem next_persist {result : ProviderStatus} (hn : s.next (.persist p result) = some s') :
    ∃ n now, s.phase p = .running n now ∧ result.lastChecked = some now ∧ s' = { s with
      row := ⟨some n, some result.stored⟩
      phase := Function.update s.phase p (.persisted n result) } := by
  rw [next] at hn
  split at hn
  next n now hp =>
    split at hn
    next hchecked => exact ⟨n, now, hp, hchecked, (Option.some.inj hn).symm⟩
    next => cases hn
  next => cases hn

theorem next_insert (hn : s.next (.insert p) = some s') :
    ∃ n result, s.phase p = .persisted n result ∧ s' = { s with
      entry := ⟨some n, some result⟩
      phase := Function.update s.phase p .idle } := by
  rw [next] at hn
  split at hn
  next n result hp => exact ⟨n, result, hp, (Option.some.inj hn).symm⟩
  next => cases hn

end Steps

/-! ## What every step keeps -/

/-- The probes under way have different numbers and their start times, and the row holds
what the probe that wrote it has found. -/
structure Wellformed (s : ProbedState) : Prop where
  distinct : ∀ p q n, (s.phase p).number = some n → (s.phase q).number = some n → p = q
  bound : ∀ p n, (s.phase p).number = some n → 0 < n ∧ n ≤ s.started
  running : ∀ p now, s.phase p = .running s.started now → now = s.clock
  persisted : ∀ p result, s.phase p = .persisted s.started result →
    result.lastChecked = some s.clock
  row : ∀ p n result, s.phase p = .persisted n result → s.row.writer = some n →
    s.row.status = some result.stored

theorem wellformed_loaded (status : Option ProviderStatus) (clock : Int) :
    (loaded status clock).Wellformed := by
  constructor <;> simp [loaded, ProbePhase.number]

variable {s s' : ProbedState}

/-- **Every step keeps the books in order.** -/
theorem Wellformed.next {e : ProbeEvent} (h : s.Wellformed) (hn : s.next e = some s') :
    s'.Wellformed := by
  rcases h with ⟨hdistinct, hbound, hrunning, hpersisted, hrow⟩
  cases e with
  | start p now =>
      obtain ⟨⟨hmay, hnow⟩, rfl⟩ := next_start hn
      -- the new number is above those in use
      have hrunningLe : ∀ q n t, s.phase q = .running n t → n ≤ s.started :=
        fun q n t hq => (hbound q n (by rw [hq]; rfl)).2
      have hpersistedLe : ∀ q n r, s.phase q = .persisted n r → n ≤ s.started :=
        fun q n r hq => (hbound q n (by rw [hq]; rfl)).2
      constructor <;> simp only [Function.update_apply] <;> grind [ProbePhase.number]
  | persist p result =>
      obtain ⟨n, now, hp, hchecked, rfl⟩ := next_persist hn
      constructor <;> simp only [Function.update_apply] <;> grind [ProbePhase.number]
  | insert p =>
      obtain ⟨n, result, hp, rfl⟩ := next_insert hn
      constructor <;> simp only [Function.update_apply] <;> grind [ProbePhase.number]
  | degrade err =>
      cases hn
      constructor <;> simp only [Function.update_apply] <;> grind [ProbePhase.number]

/-! ## What a step leaves -/

/-- A task that is under way keeps the provider from being settled. -/
theorem not_settled {p : Prober} (h : s.phase p ≠ .idle) : ¬ s.Settled := fun hs => h (hs p)

/-- The last probe in flight leaves row and entry in agreement exactly if it is in
order. -/
theorem agrees_insert_iff (h : s.Wellformed) {p : Prober} {n : Nat} {result : ProviderStatus}
    (hp : s.phase p = .persisted n result) :
    Agrees { s with
        entry := ⟨some n, some result⟩
        phase := Function.update s.phase p .idle } ↔
      n = s.started ∧ s.row.writer = some s.started ∧ result.stored = result := by
  constructor
  · rintro ⟨hstatus, hentry, hrow, -⟩
    obtain rfl : n = s.started := Option.some.inj hentry
    -- the row is by this probe, so it holds this result as stored
    rw [h.row p _ result hp hrow] at hstatus
    exact ⟨rfl, hrow, (Option.some.inj hstatus).symm⟩
  · rintro ⟨rfl, hrow, hstored⟩
    have hstatus : s.row.status = some result := by rw [h.row p _ result hp hrow, hstored]
    refine ⟨hstatus.symm, rfl, hrow, fun _ => ?_⟩
    rw [Written.lastChecked, hstatus]
    exact h.persisted p result hp

/-- **One step**: only a probe that finishes last can leave row and entry apart. -/
theorem agrees_next_iff {e : ProbeEvent} (h : s.Wellformed) (hn : s.next e = some s') :
    (s'.Settled → s'.Agrees) ↔ s.Orderly e := by
  cases e with
  | start p now =>
      obtain ⟨-, rfl⟩ := next_start hn
      exact iff_of_true (fun hs => absurd hs (not_settled (p := p) (by simp))) trivial
  | persist p result =>
      obtain ⟨n, now, -, -, rfl⟩ := next_persist hn
      exact iff_of_true (fun hs => absurd hs (not_settled (p := p) (by simp))) trivial
  | insert p =>
      obtain ⟨n, result, hp, rfl⟩ := next_insert hn
      -- settled behind the step means that no other was in flight before it
      have hsettled : Settled { s with
          entry := ⟨some n, some result⟩
          phase := Function.update s.phase p .idle } ↔ ∀ q, q ≠ p → s.phase q = .idle := by
        constructor
        · intro hs q hq
          simpa [Function.update_of_ne hq] using hs q
        · intro hs q
          by_cases hq : q = p
          · simp [hq]
          · simpa [Function.update_of_ne hq] using hs q hq
      rw [hsettled, agrees_insert_iff h hp, Orderly, hp]
      simp [ProbePhase.number]
  | degrade err =>
      cases hn
      exact iff_of_true
        (fun hs => absurd hs (not_settled (p := .reprobe s.spawned) (by simp))) trivial

/-- From a settled state on, nothing is written before a probe starts. -/
structure Since (t u : ProbedState) : Prop where
  clock : t.clock ≤ u.clock
  started : t.started ≤ u.started
  row : u.started = t.started → u.row = t.row ∧ ∀ p, (u.phase p).number = none

theorem Settled.since (h : s.Settled) : Since s s :=
  ⟨le_refl _, le_refl _, fun _ => ⟨rfl, fun p => by rw [h p]; rfl⟩⟩

theorem Since.next {t : ProbedState} {e : ProbeEvent} (h : Since t s) (hn : s.next e = some s') :
    Since t s' := by
  rcases h with ⟨hclock, hstarted, hrow⟩
  cases e with
  | start p now =>
      obtain ⟨⟨-, hnow⟩, rfl⟩ := next_start hn
      have hlt : t.started < s.started + 1 := Nat.lt_succ_of_le hstarted
      exact ⟨hclock.trans hnow, hlt.le, fun heq => absurd heq (Nat.ne_of_gt hlt)⟩
  | persist p result =>
      obtain ⟨n, now, hp, -, rfl⟩ := next_persist hn
      refine ⟨hclock, hstarted, fun heq => ?_⟩
      -- a probe is under way, so one has started
      have hnone := (hrow heq).2 p
      rw [hp] at hnone
      cases hnone
  | insert p =>
      obtain ⟨n, result, hp, rfl⟩ := next_insert hn
      refine ⟨hclock, hstarted, fun heq => ?_⟩
      have hnone := (hrow heq).2 p
      rw [hp] at hnone
      cases hnone
  | degrade err =>
      cases hn
      refine ⟨hclock, hstarted, fun heq => ⟨(hrow heq).1, fun p => ?_⟩⟩
      by_cases hp : p = .reprobe s.spawned
      · simp [hp, ProbePhase.number]
      · simpa [Function.update_of_ne hp] using (hrow heq).2 p

/-! ## Runs -/

theorem Settled.since_run (h : s.Settled) {es : List ProbeEvent}
    (hrun : Runs.run next s es = some s') : Since s s' :=
  Runs.run_invariant (fun _ => True) (Since s) (fun _ _ _ _ hs hn => hs.next hn)
    (fun _ _ => trivial) h.since hrun

/-- Where row and entry agree, the time of the last check does not lie ahead. -/
theorem Agrees.lastChecked_le {status : Option ProviderStatus} {clock : Int}
    (hclock : ∀ a, status.bind ProviderStatus.lastChecked = some a → a ≤ clock)
    (hsince : Since (loaded status clock) s) (h : s.Agrees) {a : Int}
    (ha : s.row.lastChecked = some a) : a ≤ s.clock := by
  rcases Nat.eq_zero_or_pos s.started with hzero | hpos
  · -- no probe yet: the row is the one that was loaded
    rw [(hsince.row hzero).1] at ha
    exact (hclock a ha).trans hsince.clock
  · rw [h.checked hpos] at ha
    exact (Option.some.inj ha).ge

section Runs

variable {status : Option ProviderStatus} {clock : Int} {es : List ProbeEvent}

/-- **When row and entry agree**: in every settled state of a run from startup, exactly
if every probe that finishes last is in order. Then a restart, which loads the row,
ranks the provider as the process does, and the time of the last check never goes
back. -/
theorem agrees_iff_orderly
    (hclock : ∀ a, status.bind ProviderStatus.lastChecked = some a → a ≤ clock)
    (h : Runs.run next (loaded status clock) es = some s') :
    ((∀ t, Runs.Visits next (loaded status clock) es t → t.Settled → t.Agrees) ↔
      ∀ t e, Runs.Takes next (loaded status clock) es t e → t.Orderly e) ∧
    ((∀ t e, Runs.Takes next (loaded status clock) es t e → t.Orderly e) →
      ∀ es₁ es₂ es₃ t t', es = es₁ ++ es₂ ++ es₃ →
        Runs.run next (loaded status clock) es₁ = some t → Runs.run next t es₂ = some t' →
        t.Settled → t'.Settled →
        (∀ provider, Router.isUsable provider t'.row.status =
          Router.isUsable provider t'.entry.status) ∧
        ∀ a b, t.row.lastChecked = some a → t'.row.lastChecked = some b → a ≤ b) := by
  have hiff : (∀ t, Runs.Visits next (loaded status clock) es t → t.Settled → t.Agrees) ↔
      ∀ t e, Runs.Takes next (loaded status clock) es t e → t.Orderly e :=
    Runs.visits_iff_takes (fun _ => True) Wellformed (fun t => t.Settled → t.Agrees) Orderly
      (fun _ _ _ _ hs hn => hs.next hn) (fun _ _ _ _ hs _ hn => agrees_next_iff hs hn)
      (fun _ _ => trivial) (wellformed_loaded status clock)
      (fun _ => ⟨rfl, rfl, rfl, fun hpos => absurd hpos (Nat.lt_irrefl 0)⟩) h
  refine ⟨hiff, fun horderly es₁ es₂ es₃ t t' hes hrun hrun' hsettled hsettled' => ?_⟩
  have hstart : Settled (loaded status clock) := fun _ => rfl
  have hagrees : t.Agrees := hiff.2 horderly t ⟨es₁, es₂ ++ es₃, by simp [hes], hrun⟩ hsettled
  have hagrees' : t'.Agrees :=
    hiff.2 horderly t' ⟨es₁ ++ es₂, es₃, hes, by simp [Runs.run_append, hrun, hrun']⟩ hsettled'
  have hsince : Since t t' := hsettled.since_run hrun'
  refine ⟨fun provider => by rw [hagrees'.status], fun a b ha hb => ?_⟩
  by_cases heq : t'.started = t.started
  · -- no probe has started in between, and the row is the same
    rw [(hsince.row heq).1, ha] at hb
    exact (Option.some.inj hb).le
  · have hpos : 0 < t'.started := by
      have := hsince.started
      omega
    rw [hagrees'.checked hpos] at hb
    rw [← Option.some.inj hb]
    exact (hagrees.lastChecked_le hclock (hstart.since_run hrun) ha).trans hsince.clock

end Runs

/-! ## Overlapping probes -/

/-- What a probe that has started at `now` finds. -/
def found (available : Bool) (now : Int) : ProviderStatus :=
  { ProviderStatus.new with available, lastOk := available, lastChecked := some now }

/-- A failed request, and its probe alone. -/
def degradedAlone : List ProbeEvent :=
  [.degrade (.upstream 500 "down"), .start (.reprobe 0) 101, .persist (.reprobe 0) (found false 101),
    .insert (.reprobe 0)]

/-- One probe at a time. -/
theorem agrees_iff_orderly_degradedAlone :
    ((∀ t, Runs.Visits next (loaded none 0) degradedAlone t → t.Settled → t.Agrees) ↔
      ∀ t e, Runs.Takes next (loaded none 0) degradedAlone t e → t.Orderly e) ∧
    ((∀ t e, Runs.Takes next (loaded none 0) degradedAlone t e → t.Orderly e) →
      ∀ es₁ es₂ es₃ t t', degradedAlone = es₁ ++ es₂ ++ es₃ →
        Runs.run next (loaded none 0) es₁ = some t → Runs.run next t es₂ = some t' →
        t.Settled → t'.Settled →
        (∀ provider, Router.isUsable provider t'.row.status =
          Router.isUsable provider t'.entry.status) ∧
        ∀ a b, t.row.lastChecked = some a → t'.row.lastChecked = some b → a ≤ b) :=
  agrees_iff_orderly (by simp)
    (show Runs.run next (loaded none 0) degradedAlone = some _ from rfl)

/-- A slow periodic probe, a failed request and the probe it spawns; `tail` is the order
of their writes. -/
def overlapping (tail : List ProbeEvent) : List ProbeEvent :=
  [.start .watcher 100, .degrade (.upstream 500 "down"), .start (.reprobe 0) 101] ++ tail

/-- The older probe writes the row second and the map first: row and entry stay apart.
When it writes both last, the provider was last checked at an earlier time than
before. -/
theorem not_agrees_overlapping :
    (∃ t, Runs.run next (loaded none 0) (overlapping [.persist (.reprobe 0) (found false 101),
        .persist .watcher (found true 100), .insert .watcher, .insert (.reprobe 0)]) = some t ∧
      t.Settled ∧ t.row.status = some (found true 100) ∧ t.entry.status = some (found false 101)) ∧
    ∃ t, Runs.run next (loaded none 0) (overlapping [.persist (.reprobe 0) (found false 101),
        .insert (.reprobe 0), .persist .watcher (found true 100), .insert .watcher]) = some t ∧
      t.Settled ∧ t.row.lastChecked = some 100 ∧ t.clock = 101 := by
  refine ⟨⟨_, rfl, fun p => ?_, by decide, by decide⟩, ⟨_, rfl, fun p => ?_, by decide, by decide⟩⟩
  · match p with
    | .watcher => rfl
    | .reprobe 0 => rfl
    | .reprobe (k + 1) => rfl
  · match p with
    | .watcher => rfl
    | .reprobe 0 => rfl
    | .reprobe (k + 1) => rfl

end ProbedState

end AiApiBridge
