import AiApiBridge.UsageHistory
import AiApiBridge.Lib.Arrivals

/-!
# Records that overtake each other

A request reads the clock before its `record` takes the lock, so the events of a log
need not be in the order of their times; only `load` sorts them. `windows` takes the
first event of a window for its oldest one. What it reports is that of the order of
time exactly as long as, in every window, no event arrives in front of the first one
of an earlier time (`arrivalFree_iff`).
-/

set_option autoImplicit false

namespace AiApiBridge

open Usage TimedLog FloatValue

/-! ## Orders of arrival -/

/-- The calls come in the order of their times. -/
def InTimeOrder (rs : List UsageRecord) : Prop := rs.Pairwise fun r r' => r.time ≤ r'.time

theorem entriesOf_perm {rs rs' : List UsageRecord} (h : rs'.Perm rs) (p : String) (k : UsageKind) :
    (entriesOf p k rs').Perm (entriesOf p k rs) := (h.filter _).map _

theorem near_of_perm {rs rs' : List UsageRecord} (h : rs'.Perm rs) {p : String} {k : UsageKind}
    (hnear : Near retainSecs (entriesOf p k rs)) : Near retainSecs (entriesOf p k rs') := by
  intro e he e' he'
  have hperm := entriesOf_perm h p k
  exact hnear e (hperm.mem_iff.mp he) e' (hperm.mem_iff.mp he')

/-- Events within the horizon of each other are all kept, as they arrived. -/
theorem events_of_near {rs : List UsageRecord} {p : String} {k : UsageKind}
    (hnear : Near retainSecs (entriesOf p k rs)) :
    (UsageMeter.recordRun rs).events p k = entriesOf p k rs := by
  rw [events_recordRun, pushAll_of_near hnear]

/-- From `clock` on the windows report what they would have reported had the same calls
come in the order of time, and a window that is not empty resets when its oldest event
leaves it. -/
structure ArrivalFree (plus : FloatValue → FloatValue → FloatValue) (rs : List UsageRecord)
    (p : String) (k : UsageKind) (ws : List UsageWindow) (clock : Int) : Prop where
  same : ∀ now, clock ≤ now → ∀ rs' : List UsageRecord, rs'.Perm rs → InTimeOrder rs' →
    (UsageMeter.recordRun rs).windowsBy plus p k ws now =
      (UsageMeter.recordRun rs').windowsBy plus p k ws now
  resets : ∀ now, clock ≤ now → ∀ w ∈ ws,
    ∀ e ∈ since (now - w.windowSecs) (entriesOf p k rs),
      (∀ e' ∈ since (now - w.windowSecs) (entriesOf p k rs), e.1 ≤ e'.1) →
      (UsageMeter.windowStatBy plus ((UsageMeter.recordRun rs).events p k) now w).resetInSecs =
        e.1 + w.windowSecs - now

/-- In none of the windows does an event arrive in front of the first one of an earlier
time. -/
def NoneOvertaken (rs : List UsageRecord) (p : String) (k : UsageKind) (ws : List UsageWindow)
    (clock : Int) : Prop :=
  ∀ w ∈ ws, FirstsAscend (clock - w.windowSecs) (entriesOf p k rs)

/-- The rationals the recorded amounts stand for. -/
def amountsOf (p : String) (k : UsageKind) (rs : List UsageRecord) : List Rat :=
  (entriesOf p k rs).map fun e => e.2.toRat

/-! ## Sums -/

/-- The events in the order of their times. -/
def Ascending (log : UsageLog) : Prop := log.Pairwise fun e e' => e.1 ≤ e'.1

theorem ascending_entriesOf {rs : List UsageRecord} (h : InTimeOrder rs) (p : String)
    (k : UsageKind) : Ascending (entriesOf p k rs) :=
  List.pairwise_map.mpr (h.sublist List.filter_sublist)

/-- What any part of the log adds up to is what it adds up to in the order of time. -/
def SumsAlike (plus : FloatValue → FloatValue → FloatValue) (log : UsageLog) : Prop :=
  ∀ s (log' : UsageLog), log'.Perm log → Ascending log' →
    ((since s log').map Prod.snd).foldl plus (.finite 0) =
      ((since s log).map Prod.snd).foldl plus (.finite 0)

theorem sumsAlike_addExact (log : UsageLog) : SumsAlike addExact log := by
  intro s log' hperm _
  exact foldl_addExact_perm ((hperm.filter _).map _) (.finite 0)

/-- Events with increasing times have one order of time, however they are added. -/
theorem sumsAlike_of_increasing (plus : FloatValue → FloatValue → FloatValue) {log : UsageLog}
    (h : log.Pairwise fun e e' => e.1 < e'.1) : SumsAlike plus log := by
  intro s log' hperm hascending
  have hnodup : (log.map Prod.fst).Nodup := List.pairwise_map.mpr (h.imp Int.ne_of_lt)
  have hsame : log' = log := by
    apply List.Perm.eq_of_pairwise _ hascending (h.imp Int.le_of_lt) hperm
    -- the log has one event of each time
    intro e e' he he' hle hge
    exact List.inj_on_of_nodup_map hnodup (hperm.mem_iff.mp he) he' (Int.le_antisymm hle hge)
  rw [hsame]

/-- What is recorded is finite. -/
theorem finite_entriesOf {p : String} {k : UsageKind} {rs : List UsageRecord}
    {e : Int × FloatValue} (he : e ∈ entriesOf p k rs) : .finite e.2.toRat = e.2 := by
  rcases List.mem_map.mp he with ⟨r, hr, rfl⟩
  have hadds := (List.mem_filter.mp hr).2
  rw [UsageRecord.addsTo, Bool.and_eq_true, recordable, Bool.and_eq_true] at hadds
  rcases hadds with ⟨-, hfinite, -⟩
  cases hamount : r.amount with
  | finite q => rfl
  | infinite negative => simp [hamount, isFinite] at hfinite
  | nan => simp [hamount, isFinite] at hfinite

/-- The addition of the code sums up alike what it does not round. -/
theorem sumsAlike_add {p : String} {k : UsageKind} {rs : List UsageRecord}
    (hexact : SumsExact (amountsOf p k rs)) : SumsAlike add (entriesOf p k rs) := by
  -- the sum of a part of any order of the log is the rational sum of that part
  have hsum : ∀ s (log' : UsageLog), log'.Perm (entriesOf p k rs) →
      ((since s log').map Prod.snd).foldl add (.finite 0) =
        .finite ((since s log').map fun e => e.2.toRat).sum := by
    intro s log' hperm
    have hfinite : (since s log').map Prod.snd =
        ((since s log').map fun e => e.2.toRat).map FloatValue.finite := by
      rw [List.map_map]
      apply List.map_congr_left
      intro e he
      exact (finite_entriesOf (hperm.mem_iff.mp (mem_since.mp he).1)).symm
    have hpart : ((since s log').map fun e => e.2.toRat).Subperm (amountsOf p k rs) :=
      (List.filter_sublist.map _).subperm.trans (hperm.map _).subperm
    rw [hfinite, hexact.foldl_add hpart]
  intro s log' hperm _
  rw [hsum s log' hperm, hsum s _ (List.Perm.refl _)]
  have hpart : (since s log').Perm (since s (entriesOf p k rs)) := hperm.filter _
  rw [(hpart.map fun e => e.2.toRat).sum_eq]

/-! ## The first event of a window -/

/-- Two logs in which the oldest events come first begin at the same time. -/
theorem first_time_eq {s : Int} {log log' : UsageLog} (hperm : log'.Perm log)
    (h : LeastFirst s log) (h' : LeastFirst s log') {t : Int} (ht : s ≤ t) :
    (since t log).head?.map Prod.fst = (since t log').head?.map Prod.fst := by
  have hsince : (since t log').Perm (since t log) := hperm.filter _
  cases hlog : (since t log).head? with
  | none =>
      rw [List.head?_eq_none_iff] at hlog
      rw [hlog, List.perm_nil] at hsince
      rw [hsince]
      rfl
  | some e =>
      cases hlog' : (since t log').head? with
      | none =>
          rw [List.head?_eq_none_iff] at hlog'
          rw [hlog', List.nil_perm] at hsince
          simp [hsince] at hlog
      | some e' =>
          -- each of the two is an oldest event
          have hle := h t ht e hlog e' (hsince.mem_iff.mp (List.mem_of_mem_head? hlog'))
          have hge := h' t ht e' hlog' e (hsince.mem_iff.mpr (List.mem_of_mem_head? hlog))
          exact congrArg some (Int.le_antisymm hle hge)

section Report

variable {plus : FloatValue → FloatValue → FloatValue} {rs : List UsageRecord} {p : String}
  {k : UsageKind} {ws : List UsageWindow} {clock : Int}

/-- The reset of a window that is not empty, by its first event. -/
theorem resetInSecs_of_head {log : UsageLog} {now : Int} {w : UsageWindow} (hw : w.InRange)
    {e : Int × FloatValue} (hhead : (since (now - w.windowSecs) log).head? = some e) :
    (UsageMeter.windowStatBy plus log now w).resetInSecs = e.1 + w.windowSecs - now := by
  have hlater := (mem_since.mp (List.mem_of_mem_head? hhead)).2
  simp only [UsageMeter.windowStatBy, hw.asI64, hhead]
  omega

/-- What the windows report when nothing is overtaken. -/
theorem arrivalFree_of_noneOvertaken (hnear : Near retainSecs (entriesOf p k rs))
    (hws : ∀ w ∈ ws, w.InRange) (hplus : SumsAlike plus (entriesOf p k rs))
    (h : NoneOvertaken rs p k ws clock) : ArrivalFree plus rs p k ws clock where
  same := by
    intro now hnow rs' hperm horder
    rw [UsageMeter.windowsBy, UsageMeter.windowsBy, events_of_near hnear,
      events_of_near (near_of_perm hperm hnear)]
    apply List.map_congr_left
    intro w hw
    have hentries := entriesOf_perm hperm p k
    have hascending := ascending_entriesOf horder p k
    have hsecs := (hws w hw).asI64
    apply UsageMeter.windowStatBy_eq
    · exact (hplus _ _ hentries hascending).symm
    · rw [hsecs]
      exact first_time_eq hentries (leastFirst_iff.mpr (h w hw))
        (leastFirst_iff.mpr (.of_ascending hascending _)) (by omega)
  resets := by
    intro now hnow w hw e he hleast
    rw [events_of_near hnear]
    cases hhead : (since (now - w.windowSecs) (entriesOf p k rs)).head? with
    | none =>
        rw [List.head?_eq_none_iff] at hhead
        simp [hhead] at he
    | some e₀ =>
        have hfirst := leastFirst_iff.mpr (h w hw) _ (by omega) e₀ hhead e he
        have := hleast e₀ (List.mem_of_mem_head? hhead)
        rw [resetInSecs_of_head (hws w hw) hhead]
        omega

/-- A window whose reset is right begins with an oldest event. -/
theorem noneOvertaken_of_arrivalFree (hnear : Near retainSecs (entriesOf p k rs))
    (hws : ∀ w ∈ ws, w.InRange) (h : ArrivalFree plus rs p k ws clock) :
    NoneOvertaken rs p k ws clock := by
  intro w hw
  rw [← leastFirst_iff]
  intro t ht e₀ hhead e' he'
  -- the time at which the window begins at `t`
  have hnow : t + w.windowSecs - w.windowSecs = t := by omega
  rcases exists_oldest (List.ne_nil_of_mem he') with ⟨e, he, hleast⟩
  have hreset := h.resets (t + w.windowSecs) (by omega) w hw e (by rwa [hnow])
    (by rwa [hnow])
  rw [events_of_near hnear, resetInSecs_of_head (hws w hw) (by rw [hnow]; exact hhead)] at hreset
  have := hleast e' he'
  omega

/-- In increasing order of time nothing is overtaken. -/
theorem noneOvertaken_of_increasing
    (h : (entriesOf p k rs).Pairwise fun e e' => e.1 < e'.1) (ws : List UsageWindow)
    (clock : Int) : NoneOvertaken rs p k ws clock :=
  fun w _ => .of_ascending (h.imp Int.le_of_lt) (clock - w.windowSecs)

end Report

/-- **When the order of arrival does not show**: with exact sums exactly as long as no
event of a window arrives in front of the first one of an earlier time, and so with the
addition of the code as long as it does not round; nor does it show, rounded or not, when
the events arrive in increasing order of time. -/
theorem arrivalFree_iff {rs : List UsageRecord} {p : String} {k : UsageKind}
    (hnear : Near retainSecs (entriesOf p k rs)) {ws : List UsageWindow}
    (hws : ∀ w ∈ ws, w.InRange) (clock : Int) :
    (ArrivalFree addExact rs p k ws clock ↔ NoneOvertaken rs p k ws clock) ∧
    (ArrivalFree add rs p k ws clock → NoneOvertaken rs p k ws clock) ∧
    (SumsExact (amountsOf p k rs) → NoneOvertaken rs p k ws clock →
      ArrivalFree add rs p k ws clock) ∧
    ((entriesOf p k rs).Pairwise (fun e e' => e.1 < e'.1) → ArrivalFree add rs p k ws clock) := by
  have hexact : ArrivalFree addExact rs p k ws clock ↔ NoneOvertaken rs p k ws clock := by
    constructor
    · exact noneOvertaken_of_arrivalFree hnear hws
    · exact arrivalFree_of_noneOvertaken hnear hws (sumsAlike_addExact _)
  refine ⟨hexact, noneOvertaken_of_arrivalFree hnear hws, ?_, ?_⟩
  · intro hsums
    exact arrivalFree_of_noneOvertaken hnear hws (sumsAlike_add hsums)
  · intro hincreasing
    exact arrivalFree_of_noneOvertaken hnear hws (sumsAlike_of_increasing add hincreasing)
      (noneOvertaken_of_increasing hincreasing ws clock)

/-- Two requests; the one that read the clock first is recorded last. -/
def overtaking : List UsageRecord :=
  [⟨"go", .count, .finite 1, 1010⟩, ⟨"go", .count, .finite 1, 1000⟩]

def fiveHours : UsageWindow := ⟨"5h", 18000, .finite 12⟩

/-- In the order of their times they may be recorded. -/
theorem arrivalFree_iff_inTurn :
    (ArrivalFree addExact overtaking.reverse "go" .count [fiveHours] 1010 ↔
      NoneOvertaken overtaking.reverse "go" .count [fiveHours] 1010) ∧
    (ArrivalFree add overtaking.reverse "go" .count [fiveHours] 1010 →
      NoneOvertaken overtaking.reverse "go" .count [fiveHours] 1010) ∧
    (SumsExact (amountsOf "go" .count overtaking.reverse) →
      NoneOvertaken overtaking.reverse "go" .count [fiveHours] 1010 →
      ArrivalFree add overtaking.reverse "go" .count [fiveHours] 1010) ∧
    ((entriesOf "go" .count overtaking.reverse).Pairwise (fun e e' => e.1 < e'.1) →
      ArrivalFree add overtaking.reverse "go" .count [fiveHours] 1010) :=
  arrivalFree_iff (by unfold Near; decide) (by decide) 1010

/-- In the other order the window resets at the end of the request that came in first, ten
seconds late, and not as in the order of time. -/
theorem not_arrivalFree_overtaking :
    Near retainSecs (entriesOf "go" .count overtaking) ∧ (∀ r ∈ overtaking, r.time ≤ 1010) ∧
      (UsageMeter.recordRun overtaking).windows "go" .count [fiveHours] 1010 ≠
        (UsageMeter.recordRun overtaking.reverse).windows "go" .count [fiveHours] 1010 ∧
      ¬ ArrivalFree add overtaking "go" .count [fiveHours] 1010 := by
  refine ⟨by unfold Near; decide, by decide, ?_, ?_⟩
  · intro h
    have hreset := congrArg (List.map WindowStat.resetInSecs) h
    revert hreset
    decide
  · intro h
    have hreset := h.resets 1010 (Int.le_refl _) fiveHours List.mem_cons_self (1000, .finite 1)
      (by decide) (by decide)
    revert hreset
    decide

/-- Counts and token amounts are added up exactly while they stay within `2 ^ 53`
together. -/
theorem arrivalFree_whole_iff {rs : List UsageRecord} {p : String} {k : UsageKind}
    (hnear : Near retainSecs (entriesOf p k rs)) {ns : List Nat}
    (hwhole : amountsOf p k rs = ns.map fun n : Nat => (n : Rat)) (hle : ns.sum ≤ 2 ^ 53)
    {ws : List UsageWindow} (hws : ∀ w ∈ ws, w.InRange) (clock : Int) :
    ArrivalFree add rs p k ws clock ↔ NoneOvertaken rs p k ws clock := by
  have hexact : SumsExact (amountsOf p k rs) := by
    rw [hwhole]
    exact sumsExact_natCast hle
  constructor
  · exact noneOvertaken_of_arrivalFree hnear hws
  · exact arrivalFree_of_noneOvertaken hnear hws (sumsAlike_add hexact)

/-- **In every order of arrival** the windows report the same exactly when none of them
holds events of two times. -/
theorem arrivalFree_everyOrder_iff {rs : List UsageRecord} {p : String} {k : UsageKind}
    (hnear : Near retainSecs (entriesOf p k rs)) {ws : List UsageWindow}
    (hws : ∀ w ∈ ws, w.InRange) (clock : Int) :
    (∀ rs' : List UsageRecord, rs'.Perm rs → ArrivalFree addExact rs' p k ws clock) ↔
      ∀ w ∈ ws, ∀ e ∈ since (clock - w.windowSecs) (entriesOf p k rs),
        ∀ e' ∈ since (clock - w.windowSecs) (entriesOf p k rs), e.1 = e'.1 := by
  constructor
  · intro h w hw
    -- any event of the window may be the first to arrive
    have hle : ∀ e ∈ since (clock - w.windowSecs) (entriesOf p k rs),
        ∀ e' ∈ since (clock - w.windowSecs) (entriesOf p k rs), e.1 ≤ e'.1 := by
      intro e he e' he'
      rcases mem_since.mp he with ⟨hmem, hlater⟩
      rcases List.mem_map.mp hmem with ⟨r, hr, rfl⟩
      rcases List.mem_filter.mp hr with ⟨hr, hadds⟩
      rcases List.append_of_mem hr with ⟨before, behind, rfl⟩
      have hperm : (r :: (before ++ behind)).Perm (before ++ r :: behind) :=
        List.perm_middle.symm
      have hfirst := leastFirst_iff.mpr
        (noneOvertaken_of_arrivalFree (near_of_perm hperm hnear) hws (h _ hperm) w hw)
      have hentries : entriesOf p k (r :: (before ++ behind)) =
          (r.time, r.amount) :: entriesOf p k (before ++ behind) := by
        simp [entriesOf, hadds]
      rw [hentries] at hfirst
      apply hfirst.head_le hlater
      rw [← hentries, mem_since, (entriesOf_perm hperm p k).mem_iff]
      exact mem_since.mp he'
    intro e he e' he'
    exact Int.le_antisymm (hle e he e' he') (hle e' he' e he)
  · intro h rs' hperm
    apply arrivalFree_of_noneOvertaken (near_of_perm hperm hnear) hws (sumsAlike_addExact _)
    intro w hw
    exact leastFirst_iff.mp (.of_one_time (entriesOf_perm hperm p k) (h w hw))

end AiApiBridge
