import AiApiBridge.UsageMeter
import AiApiBridge.Lib.ExactSum
import Mathlib.Algebra.Order.BigOperators.Group.List

/-!
# The usage log over time

Runs of `record` and what the windows make of them, with amounts added up exactly. A
record drops what is older than the retention horizon, so a window reports what was
recorded in it unless it reaches behind the horizon (`reportsSums_iff`).
-/

set_option autoImplicit false

namespace AiApiBridge

open Usage TimedLog FloatValue

/-! ## Windows by any addition -/

namespace UsageMeter

section By

variable (plus : FloatValue → FloatValue → FloatValue)

/-- `windowStat` with another addition in the place of the rounding one. -/
def windowStatBy (events : UsageLog) (now : Int) (w : UsageWindow) : WindowStat :=
  let inside := since (now - asI64 w.windowSecs) events
  let spent := (inside.map Prod.snd).foldl plus (.finite 0)
  { label := w.label
    limit := w.limit
    spent
    remaining := FloatValue.max (plus w.limit (neg spent)) (.finite 0)
    resetInSecs := match inside.head? with
      | some (ts, _) => max (ts + asI64 w.windowSecs - now) 0
      | none => asI64 w.windowSecs }

def windowsBy (m : UsageMeter) (provider : String) (kind : UsageKind) (ws : List UsageWindow)
    (now : Int) : List WindowStat :=
  ws.map (windowStatBy plus (m.events provider kind) now)

def exhaustedBy (m : UsageMeter) (provider : String) (specs : List UsageSpec) (now : Int) : Bool :=
  specs.any fun spec => (m.windowsBy plus provider spec.kind spec.windows now).any fun w =>
    FloatValue.le w.remaining (.finite 0)

def exhaustedSetBy (m : UsageMeter) (providers : List (String × Provider)) (now : Int) :
    List String :=
  (providers.filter fun (name, p) => m.exhaustedBy plus name p.usage now).map Prod.fst

end By

/-- With the addition of the code these are the windows of the code. -/
theorem windowsBy_add : windowsBy FloatValue.add = windows := rfl

theorem exhaustedBy_add : exhaustedBy FloatValue.add = exhausted := rfl

theorem exhaustedSetBy_add : exhaustedSetBy FloatValue.add = exhaustedSet := rfl

/-- A window depends on what it sums up and on the time of its first event. -/
theorem windowStatBy_eq {plus : FloatValue → FloatValue → FloatValue} {log log' : UsageLog}
    {now : Int} {w : UsageWindow}
    (hspent : ((since (now - asI64 w.windowSecs) log).map Prod.snd).foldl plus (.finite 0) =
      ((since (now - asI64 w.windowSecs) log').map Prod.snd).foldl plus (.finite 0))
    (hfirst : (since (now - asI64 w.windowSecs) log).head?.map Prod.fst =
      (since (now - asI64 w.windowSecs) log').head?.map Prod.fst) :
    windowStatBy plus log now w = windowStatBy plus log' now w := by
  simp only [windowStatBy, hspent, WindowStat.mk.injEq, true_and]
  cases hlog : (since (now - asI64 w.windowSecs) log).head? with
  | none =>
      rw [hlog] at hfirst
      rw [Option.map_eq_none_iff.1 hfirst.symm]
  | some e =>
      rw [hlog] at hfirst
      obtain ⟨e', he', hts⟩ := Option.map_eq_some_iff.1 hfirst.symm
      rw [he']
      simp only [hts]

end UsageMeter

/-! ## Runs of `record` -/

/-- The arguments of a call of `record`. -/
structure UsageRecord where
  provider : String
  kind : UsageKind
  amount : FloatValue
  time : Int
  deriving DecidableEq, Repr

/-- One call. -/
def UsageMeter.recordCall (m : UsageMeter) (r : UsageRecord) : UsageMeter :=
  m.record r.provider r.kind r.amount r.time

/-- The meter after a run of calls. -/
def UsageMeter.recordRun (rs : List UsageRecord) : UsageMeter :=
  rs.foldl UsageMeter.recordCall .new

/-- Whether a call adds to the log of a provider and kind. -/
def UsageRecord.addsTo (r : UsageRecord) (p : String) (k : UsageKind) : Bool :=
  decide (r.provider = p ∧ r.kind = k) && recordable r.amount

/-- What a run adds to the log of a provider and kind. -/
def entriesOf (p : String) (k : UsageKind) (rs : List UsageRecord) : UsageLog :=
  (rs.filter fun r => r.addsTo p k).map fun r => (r.time, r.amount)

theorem events_recordCall (m : UsageMeter) (r : UsageRecord) (p : String) (k : UsageKind) :
    (m.recordCall r).events p k =
      if r.addsTo p k then push retainSecs r.time r.amount (m.events p k) else m.events p k := by
  rw [UsageMeter.recordCall, UsageMeter.record, UsageRecord.addsTo]
  cases hr : recordable r.amount with
  | false => simp
  | true =>
      by_cases hk : p = r.provider ∧ k = r.kind
      · simp [hk]
      · have hk' : ¬ (r.provider = p ∧ r.kind = k) := fun h => hk ⟨h.1.symm, h.2.symm⟩
        simp [hk, hk']

theorem recordRun_concat (rs : List UsageRecord) (r : UsageRecord) :
    UsageMeter.recordRun (rs ++ [r]) = (UsageMeter.recordRun rs).recordCall r :=
  List.foldl_concat ..

theorem entriesOf_concat (p : String) (k : UsageKind) (rs : List UsageRecord) (r : UsageRecord) :
    entriesOf p k (rs ++ [r]) =
      entriesOf p k rs ++ if r.addsTo p k then [(r.time, r.amount)] else [] := by
  by_cases hadds : r.addsTo p k = true <;> simp [entriesOf, hadds]

/-- **The log after a run** has been pushed entry by entry. -/
theorem events_recordRun (p : String) (k : UsageKind) (rs : List UsageRecord) :
    (UsageMeter.recordRun rs).events p k = pushAll retainSecs (entriesOf p k rs) := by
  induction rs using List.reverseRecOn with
  | nil => rfl
  | append_singleton rs r ih =>
      rw [recordRun_concat, events_recordCall, ih, entriesOf_concat]
      by_cases hadds : r.addsTo p k = true
      · rw [if_pos hadds, if_pos hadds, pushAll_concat]
      · rw [if_neg hadds, if_neg hadds, List.append_nil]

/-! ## Sums -/

/-- The exact sum of what was recorded for a provider and kind later than `s`. -/
def amountSince (p : String) (k : UsageKind) (s : Int) (rs : List UsageRecord) : Rat :=
  ((rs.filter fun r => r.provider = p ∧ r.kind = k ∧ s < r.time).map fun r => r.amount.toRat).sum

/-- A run in the order of time with finite positive amounts. -/
structure PositiveRun (rs : List UsageRecord) : Prop where
  ascending : rs.Pairwise fun r r' => r.time ≤ r'.time
  positive : ∀ r ∈ rs, ∃ q : Rat, 0 < q ∧ r.amount = .finite q

/-- A part of positive terms has the same sum only if it is everything. -/
theorem sum_filter_eq_iff {α : Type} {f : α → Rat} {p : α → Bool} {l : List α}
    (hpos : ∀ a ∈ l, 0 < f a) :
    ((l.filter p).map f).sum = (l.map f).sum ↔ ∀ a ∈ l, p a = true := by
  constructor
  · induction l with
    | nil => simp
    | cons a l ih =>
        intro h
        have hposl : ∀ b ∈ l, 0 < f b := fun b hb => hpos b (List.mem_cons_of_mem a hb)
        have hle : ((l.filter p).map f).sum ≤ (l.map f).sum := by
          apply (List.filter_sublist.map f).sum_le_sum
          intro x hx
          obtain ⟨b, hb, rfl⟩ := List.mem_map.1 hx
          exact le_of_lt (hposl b hb)
        cases hp : p a with
        | true =>
            rw [List.filter_cons_of_pos hp, List.map_cons, List.map_cons, List.sum_cons,
              List.sum_cons, add_left_cancel_iff] at h
            exact List.forall_mem_cons.2 ⟨hp, ih hposl h⟩
        | false =>
            -- a positive term is missing
            rw [List.filter_cons_of_neg (by simp [hp]), List.map_cons, List.sum_cons] at h
            have := hpos a List.mem_cons_self
            exact absurd hle (by linarith)
  · intro h
    rw [List.filter_eq_self.2 h]

namespace PositiveRun

variable {rs : List UsageRecord} (h : PositiveRun rs)

include h

theorem recordable {r : UsageRecord} (hr : r ∈ rs) : recordable r.amount = true := by
  obtain ⟨q, hq, heq⟩ := h.positive r hr
  simp [heq, Usage.recordable, isFinite, le, hq]

theorem entriesOf_eq (p : String) (k : UsageKind) :
    entriesOf p k rs =
      (rs.filter fun r => r.provider = p ∧ r.kind = k).map fun r => (r.time, r.amount) := by
  rw [entriesOf]
  congr 1
  apply List.filter_congr
  intro r hr
  rw [UsageRecord.addsTo, h.recordable hr, Bool.and_true]

/-- The exact sum over entries is the sum over their records. -/
theorem foldl_entries (p : String) (k : UsageKind) (keep : Int × FloatValue → Bool) :
    (((entriesOf p k rs).filter keep).map Prod.snd).foldl addExact (.finite 0) =
      .finite ((((entriesOf p k rs).filter keep).map fun e => e.2.toRat).sum) := by
  have hfinite : ((entriesOf p k rs).filter keep).map Prod.snd =
      (((entriesOf p k rs).filter keep).map fun e => e.2.toRat).map FloatValue.finite := by
    rw [List.map_map]
    apply List.map_congr_left
    intro e he
    obtain ⟨r, hr, rfl⟩ := List.mem_map.1 (List.mem_filter.1 he).1
    obtain ⟨q, -, heq⟩ := h.positive r (List.mem_filter.1 hr).1
    simp [heq, toRat]
  rw [hfinite, foldl_addExact_finite, zero_add]

/-- What was recorded later than `s`, by its entries. -/
theorem amountSince_eq (p : String) (k : UsageKind) (s : Int) :
    amountSince p k s rs =
      (((entriesOf p k rs).filter fun e => s < e.1).map fun e => e.2.toRat).sum := by
  rw [h.entriesOf_eq, List.filter_map, List.filter_filter, List.map_map, amountSince]
  congr 2
  apply List.filter_congr
  intro r _
  rw [Function.comp_apply, ← Bool.decide_and]
  exact decide_eq_decide.2 ⟨fun ⟨hp, hk, hs⟩ => ⟨hs, hp, hk⟩, fun ⟨hs, hp, hk⟩ => ⟨hp, hk, hs⟩⟩

theorem ascending_entriesOf (p : String) (k : UsageKind) :
    (entriesOf p k rs).Pairwise fun e e' => e.1 ≤ e'.1 :=
  List.pairwise_map.2 (h.ascending.sublist List.filter_sublist)

/-- What a window reports as spent: the records in it that are still retained. -/
theorem spent_eq (p : String) (k : UsageKind) (now : Int) (w : UsageWindow) :
    (UsageMeter.windowStatBy addExact ((UsageMeter.recordRun rs).events p k) now w).spent =
      .finite ((((((entriesOf p k rs).filter fun e => now - asI64 w.windowSecs < e.1).filter
        fun e => (entriesOf p k rs).all fun e' => e'.1 - retainSecs ≤ e.1)).map
          fun e => e.2.toRat).sum) := by
  rw [events_recordRun, pushAll_eq_retained retainSecs (h.ascending_entriesOf p k)]
  simp only [UsageMeter.windowStatBy, since, retained, List.filter_filter]
  rw [h.foldl_entries]
  congr 4
  funext e
  exact Bool.and_comm _ _

end PositiveRun

/-- No record in a window is older than a later one of its kind by more than the
horizon. -/
def NothingEvicted (rs : List UsageRecord) (p : String) (k : UsageKind) (now : Int)
    (w : UsageWindow) : Prop :=
  ∀ r ∈ rs, ∀ r' ∈ rs, r.provider = p → r.kind = k → r'.provider = p → r'.kind = k →
    now - w.windowSecs < r.time → r'.time - retainSecs ≤ r.time

/-- **A window reports what was recorded in it** exactly when nothing in it has been
evicted. -/
theorem spent_eq_iff {rs : List UsageRecord} (h : PositiveRun rs) (p : String) (k : UsageKind)
    (now : Int) {w : UsageWindow} (hw : w.windowSecs < 2 ^ 62) :
    (UsageMeter.windowStatBy addExact ((UsageMeter.recordRun rs).events p k) now w).spent =
        .finite (amountSince p k (now - w.windowSecs) rs) ↔
      NothingEvicted rs p k now w := by
  have hsecs : asI64 w.windowSecs = w.windowSecs := asI64_of_lt (by omega)
  -- the amounts are positive, so a sum tells when one of them is missing
  have hpos : ∀ e ∈ (entriesOf p k rs).filter fun e => now - (w.windowSecs : Int) < e.1,
      0 < e.2.toRat := by
    intro e he
    obtain ⟨r, hr, rfl⟩ := List.mem_map.1 (List.mem_filter.1 he).1
    obtain ⟨q, hq, heq⟩ := h.positive r (List.mem_filter.1 hr).1
    simpa [heq, toRat] using hq
  rw [h.spent_eq, h.amountSince_eq, hsecs, FloatValue.finite.injEq, sum_filter_eq_iff hpos]
  -- an entry of the log is a record of this provider and kind
  have hentry : ∀ {e : Int × FloatValue}, e ∈ entriesOf p k rs ↔
      ∃ r ∈ rs, r.provider = p ∧ r.kind = k ∧ (r.time, r.amount) = e := by
    intro e
    rw [h.entriesOf_eq, List.mem_map]
    simp only [List.mem_filter, decide_eq_true_eq, and_assoc]
  simp only [List.mem_filter, decide_eq_true_eq, List.all_eq_true, and_imp]
  constructor
  · intro hall r hr r' hr' hp hk hp' hk' hin
    exact hall _ (hentry.2 ⟨r, hr, hp, hk, rfl⟩) hin _ (hentry.2 ⟨r', hr', hp', hk', rfl⟩)
  · intro hevicted e he hin e' he'
    obtain ⟨r, hr, hp, hk, rfl⟩ := hentry.1 he
    obtain ⟨r', hr', hp', hk', rfl⟩ := hentry.1 he'
    exact hevicted r hr r' hr' hp hk hp' hk' hin

/-! ## What the windows of a provider report -/

/-- Specs whose windows the configuration accepts, with finite limits. -/
def Configurable (specs : List UsageSpec) : Prop :=
  ∀ spec ∈ specs, ∀ w ∈ spec.windows, w.windowSecs < 2 ^ 62 ∧ ∃ l : Rat, w.limit = .finite l

/-- The windows report the sums of what was recorded in them, and the provider counts
as exhausted when one of these reaches its limit. -/
def ReportsSums (rs : List UsageRecord) (p : String) (specs : List UsageSpec) (now : Int) : Prop :=
  (∀ spec ∈ specs,
    ((UsageMeter.recordRun rs).windowsBy addExact p spec.kind spec.windows now).map
        WindowStat.spent =
      spec.windows.map fun w => .finite (amountSince p spec.kind (now - w.windowSecs) rs)) ∧
  ((UsageMeter.recordRun rs).exhaustedBy addExact p specs now = true ↔
    ∃ spec ∈ specs, ∃ w ∈ spec.windows, ∃ l : Rat, w.limit = .finite l ∧
      l ≤ amountSince p spec.kind (now - w.windowSecs) rs)

/-- **When the windows report what was recorded**: when no window reaches back to a
record that a later one has evicted. -/
theorem reportsSums_iff {rs : List UsageRecord} (h : PositiveRun rs) (p : String)
    {specs : List UsageSpec} (hspecs : Configurable specs) (now : Int) :
    ReportsSums rs p specs now ↔
      ∀ spec ∈ specs, ∀ w ∈ spec.windows, NothingEvicted rs p spec.kind now w := by
  -- window by window the report is right when nothing was evicted
  have hsums : (∀ spec ∈ specs,
      ((UsageMeter.recordRun rs).windowsBy addExact p spec.kind spec.windows now).map
          WindowStat.spent =
        spec.windows.map fun w => .finite (amountSince p spec.kind (now - w.windowSecs) rs)) ↔
      ∀ spec ∈ specs, ∀ w ∈ spec.windows, NothingEvicted rs p spec.kind now w := by
    apply forall₂_congr
    intro spec hspec
    rw [UsageMeter.windowsBy, List.map_map, List.map_inj_left]
    exact forall₂_congr fun w hw => spent_eq_iff h p spec.kind now (hspecs spec hspec w hw).1
  refine ⟨fun hreports => hsums.1 hreports.1, fun hevicted => ⟨hsums.2 hevicted, ?_⟩⟩
  simp only [UsageMeter.exhaustedBy, UsageMeter.windowsBy, List.any_map, List.any_eq_true,
    Function.comp_apply]
  refine exists_congr fun spec => and_congr_right fun hspec => exists_congr fun w =>
    and_congr_right fun hw => ?_
  obtain ⟨hsecs, l, hl⟩ := hspecs spec hspec w hw
  have hspent := (spent_eq_iff h p spec.kind now hsecs).2 (hevicted spec hspec w hw)
  -- and then a window is used up when the sum reaches its limit
  have hremaining : (UsageMeter.windowStatBy addExact
      ((UsageMeter.recordRun rs).events p spec.kind) now w).remaining =
      FloatValue.max (addExact w.limit (neg (UsageMeter.windowStatBy addExact
        ((UsageMeter.recordRun rs).events p spec.kind) now w).spent)) (.finite 0) := rfl
  rw [hremaining, hspent, hl, le_max_subExact_zero, decide_eq_true_eq]
  simp

/-- Two requests, forty days apart. -/
def twoRequests : List UsageRecord :=
  [⟨"go", .count, .finite 1, 0⟩, ⟨"go", .count, .finite 1, 40 * 86400⟩]

/-- Two requests are allowed in a window of the given days. -/
def twoAllowed (days : Nat) : List UsageSpec := [.count [⟨"window", days * 86400, .finite 2⟩]]

theorem positiveRun_twoRequests : PositiveRun twoRequests where
  ascending := by decide
  positive := by
    intro r hr
    simp only [twoRequests, List.mem_cons, List.not_mem_nil, or_false] at hr
    rcases hr with rfl | rfl
    · exact ⟨1, by norm_num, rfl⟩
    · exact ⟨1, by norm_num, rfl⟩

theorem configurable_twoAllowed {days : Nat} (h : days ≤ 365) : Configurable (twoAllowed days) := by
  intro spec hspec w hw
  obtain rfl := List.mem_singleton.1 hspec
  obtain rfl := List.mem_singleton.1 hw
  exact ⟨by simp only; omega, 2, rfl⟩

/-- A window of thirty days reports the one request in it. -/
theorem reportsSums_iff_thirtyDays :
    ReportsSums twoRequests "go" (twoAllowed 30) (40 * 86400) ↔
      ∀ spec ∈ twoAllowed 30, ∀ w ∈ spec.windows,
        NothingEvicted twoRequests "go" spec.kind (40 * 86400) w :=
  reportsSums_iff positiveRun_twoRequests "go" (configurable_twoAllowed (by decide)) _

/-- A window of ninety days does not report the first one, and the provider is not
exhausted. -/
theorem not_reportsSums_ninetyDays :
    PositiveRun twoRequests ∧ Configurable (twoAllowed 90) ∧
      (∀ r ∈ twoRequests, r.time ≤ 40 * 86400) ∧
      ¬ ReportsSums twoRequests "go" (twoAllowed 90) (40 * 86400) := by
  refine ⟨positiveRun_twoRequests, configurable_twoAllowed (by decide), by decide, ?_⟩
  rintro ⟨hspent, -⟩
  have hone := hspent _ (List.mem_singleton.2 rfl)
  exact absurd hone (by decide +kernel)

end AiApiBridge
