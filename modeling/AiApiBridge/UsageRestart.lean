import AiApiBridge.UsageHistory

/-!
# The usage log across restarts

Every record goes to memory and to the database, where nothing is dropped before the
next start; a start prunes the table and loads a new meter from it. The meter of a
process that has been restarted holds other logs than one that kept running, but no
window within the retention horizon tells them apart, then or later
(`windows_of_life`).
-/

set_option autoImplicit false

namespace AiApiBridge

open Usage TimedLog FloatValue

/-! ## The table of events -/

namespace UsageKind

def asStr : UsageKind → String
  | billing => "billing"
  | count => "count"
  | token => "token"

def parse (s : String) : Option UsageKind :=
  if s = "billing" then some billing
  else if s = "count" then some count
  else if s = "token" then some token
  else none

/-- Every kind is read back from its own name. -/
@[simp] theorem parse_asStr (k : UsageKind) : parse k.asStr = some k := by
  cases k <;> rfl

end UsageKind

/-- A row of `usage_events`. -/
structure UsageRow where
  provider : String
  ts : Int
  usageType : String
  amount : FloatValue
  deriving DecidableEq, Repr

namespace Store

/-- `insert_usage_event`. -/
def insertUsageEvent (provider : String) (ts : Int) (usageType : String) (amount : FloatValue)
    (table : List UsageRow) : List UsageRow :=
  table ++ [⟨provider, ts, usageType, amount⟩]

/-- `prune_usage_events`. -/
def pruneUsageEvents (before : Int) (table : List UsageRow) : List UsageRow :=
  table.filter fun r => ¬ r.ts < before

/-- What `load_usage_events` may bring: `ORDER BY ts` leaves the order of events of one
time to the database. -/
structure LoadsUsageEvents (least : Int) (table events : List UsageRow) : Prop where
  selected : events.Perm (table.filter fun r => least ≤ r.ts)
  ordered : events.Pairwise fun r r' => r.ts ≤ r'.ts

end Store

open Store

/-- The event a row holds for a provider and kind. -/
def UsageRow.entryFor (p : String) (k : UsageKind) (r : UsageRow) : Option (Int × FloatValue) :=
  if r.provider = p ∧ UsageKind.parse r.usageType = some k then some (r.ts, r.amount) else none

/-- `UsageMeter::load`: every known kind is pushed, then every log is sorted. -/
def UsageMeter.load (m : UsageMeter) (events : List UsageRow) : UsageMeter :=
  ⟨fun p k => (m.events p k ++ events.filterMap (UsageRow.entryFor p k)).mergeSort
    fun e e' => decide (e.1 ≤ e'.1)⟩

/-- A meter and the table it persists to. -/
structure UsageState where
  meter : UsageMeter
  table : List UsageRow

namespace UsageState

def new : UsageState := ⟨.new, []⟩

/-- `record` with an insert that succeeds. -/
def record (s : UsageState) (r : UsageRecord) : UsageState where
  meter := s.meter.recordCall r
  table :=
    if recordable r.amount then insertUsageEvent r.provider r.time r.kind.asStr r.amount s.table
    else s.table

/-- What `main` does to the usage log at the time `now`. -/
def Restarts (now : Int) (s s' : UsageState) : Prop :=
  s'.table = pruneUsageEvents (now - 31 * 24 * 3600) s.table ∧
    ∃ events, LoadsUsageEvents (now - 31 * 24 * 3600) s'.table events ∧
      s'.meter = UsageMeter.new.load events

/-- A process that has recorded `rs` up to the clock, restarted any number of times. -/
inductive Life : List UsageRecord → Int → UsageState → Prop where
  | new (clock : Int) : Life [] clock .new
  | recorded {rs : List UsageRecord} {clock : Int} {s : UsageState} {r : UsageRecord}
      (h : Life rs clock s) (later : clock ≤ r.time) : Life (rs ++ [r]) r.time (s.record r)
  | restarted {rs : List UsageRecord} {clock now : Int} {s s' : UsageState}
      (h : Life rs clock s) (later : clock ≤ now) (restart : Restarts now s s') : Life rs now s'

end UsageState

/-! ## What stays the same -/

/-- The events of a provider and kind in the table. -/
def rowsFor (p : String) (k : UsageKind) (table : List UsageRow) : UsageLog :=
  table.filterMap (UsageRow.entryFor p k)

/-- The running meter, the restarted one and the table agree on what is within the
horizon. -/
structure Agree (clock : Int) (running : UsageMeter) (s : UsageState) : Prop where
  meter : ∀ p k, SameWindows retainSecs clock (running.events p k) (s.meter.events p k)
  table : ∀ p k, SameWindows retainSecs clock (running.events p k) (rowsFor p k s.table)

theorem rowsFor_record (s : UsageState) (r : UsageRecord) (p : String) (k : UsageKind) :
    rowsFor p k (s.record r).table =
      rowsFor p k s.table ++ if r.addsTo p k then [(r.time, r.amount)] else [] := by
  unfold UsageState.record UsageRecord.addsTo rowsFor
  cases hr : recordable r.amount with
  | false => simp
  | true => by_cases hk : r.provider = p ∧ r.kind = k <;>
      simp [insertUsageEvent, UsageRow.entryFor, hk]

theorem entryFor_fst {p : String} {k : UsageKind} {r : UsageRow} {e : Int × FloatValue}
    (h : r.entryFor p k = some e) : e.1 = r.ts := by
  rw [UsageRow.entryFor] at h
  split at h
  · cases h
    rfl
  · cases h

/-- Selecting rows by time is selecting their entries by time. -/
theorem rowsFor_filter (p : String) (k : UsageKind) (keep : Int → Bool) (table : List UsageRow) :
    rowsFor p k (table.filter fun r => keep r.ts) =
      (rowsFor p k table).filter fun e => keep e.1 := by
  induction table with
  | nil => rfl
  | cons r table ih =>
      simp only [rowsFor] at ih ⊢
      cases hentry : r.entryFor p k with
      | none => cases hkeep : keep r.ts <;> simp [hkeep, hentry, ih]
      | some e =>
          have hts := entryFor_fst hentry
          cases hkeep : keep r.ts <;> simp [hkeep, hentry, ih, hts]

namespace Agree

variable {clock now : Int} {running : UsageMeter} {s s' : UsageState}

theorem new (clock : Int) : Agree clock .new .new :=
  ⟨fun _ _ => ⟨List.Perm.refl _, upTo_nil clock, upTo_nil clock⟩,
    fun _ _ => ⟨List.Perm.refl _, upTo_nil clock, upTo_nil clock⟩⟩

/-- **A record of both** keeps them in agreement. -/
theorem record (h : Agree clock running s) {r : UsageRecord} (later : clock ≤ r.time) :
    Agree r.time (running.recordCall r) (s.record r) where
  meter p k := by
    rw [UsageState.record, events_recordCall, events_recordCall]
    split
    · exact (h.meter p k).push later r.amount
    · exact (h.meter p k).later later
  table p k := by
    rw [rowsFor_record, events_recordCall]
    split
    · exact (h.table p k).append later r.amount
    · rw [List.append_nil]
      exact (h.table p k).later later

/-- **A restart drops what no window sees.** -/
theorem restart (h : Agree clock running s) (later : clock ≤ now)
    (hrestart : UsageState.Restarts now s s') : Agree now running s' := by
  rcases hrestart with ⟨htable, events, ⟨hselected, hordered⟩, hmeter⟩
  have hpruned : ∀ p k, SameWindows retainSecs now (running.events p k) (rowsFor p k s'.table) := by
    intro p k
    rw [htable, pruneUsageEvents,
      rowsFor_filter p k (fun ts => decide (¬ ts < now - 31 * 24 * 3600))]
    refine ((h.table p k).later later).dropRight fun e he => decide_eq_true ?_
    have : now - retainSecs < e.1 := he
    rw [retainSecs] at this
    omega
  refine ⟨fun p k => ?_, hpruned⟩
  -- the new log holds the selected rows, sorted
  have hlog : s'.meter.events p k =
      (events.filterMap (UsageRow.entryFor p k)).mergeSort fun e e' => decide (e.1 ≤ e'.1) := by
    rw [hmeter]
    rfl
  have hrows : (events.filterMap (UsageRow.entryFor p k)).Perm
      ((rowsFor p k s'.table).filter fun e => decide (now - 31 * 24 * 3600 ≤ e.1)) := by
    rw [← rowsFor_filter p k (fun ts => decide (now - 31 * 24 * 3600 ≤ ts))]
    exact hselected.filterMap _
  rw [hlog]
  refine SameWindows.permRight ?_ ((List.mergeSort_perm _ _).trans hrows) ?_
  · refine (hpruned p k).dropRight fun e he => decide_eq_true ?_
    have : now - retainSecs < e.1 := he
    rw [retainSecs] at this
    omega
  · refine (List.pairwise_mergeSort ?_ ?_ _).imp of_decide_eq_true
    · intro e₁ e₂ e₃ h₁ h₂
      exact decide_eq_true (Int.le_trans (of_decide_eq_true h₁) (of_decide_eq_true h₂))
    · intro e₁ e₂
      simpa using Int.le_total e₁.1 e₂.1

end Agree

/-- **A process that has been restarted** agrees with a meter that has kept running. -/
theorem UsageState.Life.agree {rs : List UsageRecord} {clock : Int} {s : UsageState}
    (h : Life rs clock s) : Agree clock (UsageMeter.recordRun rs) s := by
  induction h with
  | new clock => exact Agree.new clock
  | recorded _ later ih =>
      rw [recordRun_concat]
      exact ih.record later
  | restarted _ later restart ih => exact ih.restart later restart

/-! ## Windows across restarts -/

/-- Logs that no window tells apart have the same windows. -/
theorem windowStatBy_congr {clock now : Int} {log log' : UsageLog}
    (h : SameWindows retainSecs clock log log') (later : clock ≤ now) {w : UsageWindow}
    (hw : (w.windowSecs : Int) ≤ retainSecs) :
    UsageMeter.windowStatBy addExact log now w = UsageMeter.windowStatBy addExact log' now w := by
  have hsecs : asI64 w.windowSecs = w.windowSecs := by
    rw [retainSecs] at hw
    exact asI64_of_lt (by omega)
  have hs : clock - retainSecs ≤ now - asI64 w.windowSecs := by omega
  have hspent := foldl_addExact_perm ((h.since hs).map Prod.snd) (.finite 0)
  have holdest := congrArg List.head? (h.times hs)
  rw [List.head?_map, List.head?_map] at holdest
  exact UsageMeter.windowStatBy_eq hspent holdest

/-- Every window fits into the retention horizon. -/
def WithinHorizon (ws : List UsageWindow) : Prop := ∀ w ∈ ws, (w.windowSecs : Int) ≤ retainSecs

/-- **Restarts go unnoticed**: a process that has been restarted reports the windows, and
the exhausted providers, of a meter that has kept running on the same records. -/
theorem windows_of_life {rs : List UsageRecord} {clock now : Int} {s : UsageState}
    (h : UsageState.Life rs clock s) (later : clock ≤ now) :
    (∀ p k ws, WithinHorizon ws →
      s.meter.windowsBy addExact p k ws now =
        (UsageMeter.recordRun rs).windowsBy addExact p k ws now) ∧
    ∀ providers : List (String × Provider),
      (∀ np ∈ providers, ∀ spec ∈ np.2.usage, WithinHorizon spec.windows) →
      s.meter.exhaustedSetBy addExact providers now =
        (UsageMeter.recordRun rs).exhaustedSetBy addExact providers now := by
  -- a window within the horizon reads only entries that were restored
  have hwindows : ∀ p k ws, WithinHorizon ws →
      s.meter.windowsBy addExact p k ws now =
        (UsageMeter.recordRun rs).windowsBy addExact p k ws now := by
    intro p k ws hws
    apply List.map_congr_left
    intro w hw
    exact (windowStatBy_congr (h.agree.meter p k) later (hws w hw)).symm
  refine ⟨hwindows, fun providers hproviders => ?_⟩
  refine congrArg (List.map Prod.fst) (List.filter_congr fun np hnp => ?_)
  rcases np with ⟨name, p⟩
  have hspecs : ∀ spec ∈ p.usage, s.meter.windowsBy addExact name spec.kind spec.windows now =
      (UsageMeter.recordRun rs).windowsBy addExact name spec.kind spec.windows now :=
    fun spec hspec => hwindows name spec.kind spec.windows (hproviders _ hnp spec hspec)
  rw [Bool.eq_iff_iff]
  simp only [UsageMeter.exhaustedBy, List.any_eq_true]
  refine exists_congr fun spec => and_congr_right fun hspec => ?_
  rw [hspecs spec hspec]

/-- The row of the second of two requests, forty days after the first. -/
def secondRow : UsageRow := ⟨"go", 40 * 86400, "count", .finite 1⟩

/-- A restart on the evening of that day: the first row is pruned, the second loaded. -/
theorem life_twoRequests :
    UsageState.Life twoRequests (40 * 86400 + 3600) ⟨UsageMeter.new.load [secondRow], [secondRow]⟩ := by
  have hfirst : UsageState.Life (twoRequests.take 1) 0
      (UsageState.new.record ⟨"go", .count, .finite 1, 0⟩) :=
    .recorded (.new 0) (Int.le_refl 0)
  have hboth : UsageState.Life twoRequests (40 * 86400)
      ((UsageState.new.record ⟨"go", .count, .finite 1, 0⟩).record
        ⟨"go", .count, .finite 1, 40 * 86400⟩) :=
    .recorded hfirst (by decide)
  refine .restarted hboth (by decide) ⟨by decide +kernel, [secondRow], ⟨?_, ?_⟩, rfl⟩
  · exact List.Perm.of_eq (by decide)
  · exact List.pairwise_singleton _ _

/-- The restarted process still counts the request of the last thirty days. -/
theorem windows_of_life_twoRequests :
    (∀ p k ws, WithinHorizon ws →
      (UsageMeter.new.load [secondRow]).windowsBy addExact p k ws (41 * 86400) =
        (UsageMeter.recordRun twoRequests).windowsBy addExact p k ws (41 * 86400)) ∧
    ∀ providers : List (String × Provider),
      (∀ np ∈ providers, ∀ spec ∈ np.2.usage, WithinHorizon spec.windows) →
      (UsageMeter.new.load [secondRow]).exhaustedSetBy addExact providers (41 * 86400) =
        (UsageMeter.recordRun twoRequests).exhaustedSetBy addExact providers (41 * 86400) :=
  windows_of_life life_twoRequests (by decide)

end AiApiBridge
