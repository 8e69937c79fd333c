import AiApiBridge.UsageMeter
import Mathlib.Algebra.BigOperators.Ring.List
import Mathlib.Algebra.Order.BigOperators.Group.List

/-!
# Recorded requests

Runs of requests recorded in the usage meter. A request charges a kind once for
every spec of that kind its provider lists, so with counts or tokens a window shows
the true total exactly when the provider lists the kind once (`addsOnce_iff`).
-/

set_option autoImplicit false

namespace AiApiBridge

open Usage TimedLog

/-- A request whose usage is recorded at `time`. -/
structure ServedRequest where
  time : Int
  provider : String
  model : String
  cost : Option FloatValue
  promptTokens : Option Nat
  completionTokens : Option Nat
  deriving DecidableEq, Repr

namespace ServedRequest

/-- What the request adds to a kind that counts: itself, or its tokens. -/
def units (r : ServedRequest) : UsageKind → Nat
  | .token => r.promptTokens.getD 0 + r.completionTokens.getD 0
  | _ => 1

/-- Record the request, with the kinds of the configuration. -/
def recorded (cfg : Config) (m : UsageMeter) (r : ServedRequest) : UsageMeter :=
  recordAmounts m r.provider (usageKinds cfg r.provider r.model) r.cost r.promptTokens
    r.completionTokens r.time

/-- The amounts the request charges to a kind. -/
def charged (cfg : Config) (k : UsageKind) (r : ServedRequest) : List FloatValue :=
  charges r.cost r.promptTokens r.completionTokens (usageKinds cfg r.provider r.model) k

end ServedRequest

/-- The meter after a run of recorded requests. -/
def recordAll (cfg : Config) (rs : List ServedRequest) : UsageMeter :=
  rs.foldl (ServedRequest.recorded cfg) .new

/-- The requests of a provider recorded later than `s`. -/
def servedSince (p : String) (s : Int) (rs : List ServedRequest) : List ServedRequest :=
  rs.filter fun r => r.provider = p ∧ s < r.time

/-- What the requests of a provider recorded later than `s` add to a kind. -/
def totalSince (p : String) (k : UsageKind) (s : Int) (rs : List ServedRequest) : Nat :=
  ((servedSince p s rs).map fun r => r.units k).sum

/-- How many specs of a kind a provider lists. -/
def repeats (provider : Provider) (k : UsageKind) : Nat :=
  provider.usage.countP fun spec => spec.kind = k

/-! ## The log after a run -/

/-- What a window within the horizon sees of the log: the charges of the provider's
requests, one after the other. -/
theorem since_recordAll (cfg : Config) (p : String) (k : UsageKind) {s : Int}
    (rs : List ServedRequest) (hs : ∀ r ∈ rs, r.time - retainSecs ≤ s) :
    since s ((recordAll cfg rs).events p k) =
      (servedSince p s rs).flatMap fun r => (r.charged cfg k).map fun amount => (r.time, amount) := by
  induction rs using List.reverseRecOn with
  | nil => rfl
  | append_singleton rs r ih =>
      have hold := ih fun r' hr' => hs r' (List.mem_append_left _ hr')
      have hnow := hs r (List.mem_append_right _ (List.mem_singleton.2 rfl))
      have hsnoc : recordAll cfg (rs ++ [r]) = r.recorded cfg (recordAll cfg rs) :=
        List.foldl_concat ..
      rw [hsnoc, ServedRequest.recorded, since_recordAmounts hnow, hold, since_entries, servedSince,
        servedSince, List.filter_append, List.flatMap_append]
      congr 1
      by_cases hp : p = r.provider
      · by_cases ht : s < r.time <;> simp [hp, ht, ServedRequest.charged]
      · simp [hp, Ne.symm hp]

/-! ## Counts and tokens -/

section Counting

variable {cfg : Config} {k : UsageKind} (hk : k ≠ .billing)

include hk

/-- A kind that counts takes one amount from an entry of its kind, unless it is
zero. -/
theorem chargeOf_counting (r : ServedRequest) (hunits : r.units k ≤ 2 ^ 53)
    (entry : UsageKind × Option ModelPrice) :
    chargeOf r.cost r.promptTokens r.completionTokens k entry =
      if entry.1 = k ∧ r.units k ≠ 0 then some (.finite (r.units k)) else none := by
  rcases entry with ⟨kind, price⟩
  rw [chargeOf]
  by_cases hkind : kind = k
  · subst hkind
    cases kind with
    | billing => exact absurd rfl hk
    | count => simp [amountFor, recordable, ServedRequest.units, FloatValue.isFinite, FloatValue.le]
    | token =>
        have hmod : (r.promptTokens.getD 0 + r.completionTokens.getD 0) % 2 ^ 64 =
            r.units .token := Nat.mod_eq_of_lt (Nat.lt_of_le_of_lt hunits (by decide))
        simp only [amountFor, hmod, FloatValue.ofNat_of_le hunits]
        by_cases hzero : r.units .token = 0
        · simp [hzero, recordable, FloatValue.le]
        · simp [hzero, recordable, FloatValue.le, FloatValue.isFinite]
  · simp [hkind]

/-- What a request charges to a kind that counts: its units, once for every spec of
the kind. -/
theorem charged_counting {provider : Provider} (r : ServedRequest)
    (hp : cfg.providers.lookup r.provider = some provider) (hunits : r.units k ≤ 2 ^ 53) :
    r.charged cfg k =
      List.replicate (if r.units k = 0 then 0 else repeats provider k)
        (FloatValue.finite (r.units k)) := by
  have hkinds : usageKinds cfg r.provider r.model = provider.usage.map fun spec =>
      (spec.kind, spec.modelPrices.bind fun m => m.lookup r.model) := by
    simp only [usageKinds, hp]
  rw [ServedRequest.charged, charges, hkinds, List.filterMap_map, repeats]
  induction provider.usage with
  | nil => by_cases hzero : r.units k = 0 <;> simp [hzero]
  | cons spec specs ih =>
      rw [List.filterMap_cons, ih, Function.comp_apply, chargeOf_counting hk r hunits]
      by_cases hzero : r.units k = 0
      · simp [hzero]
      · by_cases hspec : spec.kind = k <;> simp [hzero, hspec, List.replicate_succ]

/-- **The sum of a window**, as long as it is exact: the total, once for every spec
of the kind. -/
theorem sum_since_recordAll {provider : Provider} {p : String}
    (hp : cfg.providers.lookup p = some provider) {s : Int} (rs : List ServedRequest)
    (hs : ∀ r ∈ rs, r.time - retainSecs ≤ s) (hlisted : repeats provider k ≠ 0)
    (hexact : repeats provider k * totalSince p k s rs ≤ 2 ^ 53) :
    ((since s ((recordAll cfg rs).events p k)).map Prod.snd).foldl FloatValue.add (.finite 0) =
      .finite (repeats provider k * totalSince p k s rs : Nat) := by
  -- the amounts as natural numbers
  let amounts := fun r : ServedRequest =>
    List.replicate (if r.units k = 0 then 0 else repeats provider k) (r.units k)
  have hunits : ∀ r ∈ servedSince p s rs, r.units k ≤ totalSince p k s rs := by
    intro r hr
    exact List.le_sum_of_mem (List.mem_map_of_mem hr)
  have htotal : totalSince p k s rs ≤ 2 ^ 53 :=
    Nat.le_trans (Nat.le_mul_of_pos_left _ (Nat.pos_of_ne_zero hlisted)) hexact
  have hlog : (since s ((recordAll cfg rs).events p k)).map Prod.snd =
      ((servedSince p s rs).flatMap amounts).map fun n : Nat => FloatValue.finite (n : Rat) := by
    rw [since_recordAll cfg p k rs hs, List.map_flatMap, List.map_flatMap]
    apply List.flatMap_congr
    intro r hr
    have hprovider : r.provider = p := (of_decide_eq_true (List.mem_filter.1 hr).2).1
    rw [charged_counting hk r (by rw [hprovider, hp]) (Nat.le_trans (hunits r hr) htotal)]
    simp only [amounts, List.map_replicate]
  have hsum : ((servedSince p s rs).flatMap amounts).sum =
      repeats provider k * totalSince p k s rs := by
    rw [List.flatMap, List.sum_flatten, List.map_map, totalSince, ← List.sum_map_mul_left]
    congr 1
    apply List.map_congr_left
    intro r _
    by_cases hzero : r.units k = 0 <;> simp [amounts, hzero]
  rw [hlog, FloatValue.foldl_add_natCast _ (by rw [hsum]; exact hexact), hsum]

end Counting

/-! ## Windows -/

/-- One window of one spec that counts, as long as its sum is exact. -/
theorem spent_eq_total_iff {cfg : Config} {p : String} {provider : Provider}
    (hp : cfg.providers.lookup p = some provider) {rs : List ServedRequest} {now : Int}
    (hnow : ∀ r ∈ rs, r.time ≤ now) {spec : UsageSpec} (hspec : spec ∈ provider.usage)
    (hk : spec.kind ≠ .billing) {i : Nat} {w : UsageWindow} (hw : spec.windows[i]? = some w)
    (hsecs : (w.windowSecs : Int) ≤ retainSecs)
    (hexact : repeats provider spec.kind * totalSince p spec.kind (now - w.windowSecs) rs ≤
      2 ^ 53) :
    ((recordAll cfg rs).windows p spec.kind spec.windows now)[i]?.map WindowStat.spent =
        some (.finite (totalSince p spec.kind (now - w.windowSecs) rs)) ↔
      repeats provider spec.kind = 1 ∨ totalSince p spec.kind (now - w.windowSecs) rs = 0 := by
  have hlisted : repeats provider spec.kind ≠ 0 := by
    rw [repeats, ← Nat.pos_iff_ne_zero, List.countP_pos_iff]
    exact ⟨spec, hspec, by simp⟩
  have hi64 : asI64 w.windowSecs = w.windowSecs := by
    have hhorizon : retainSecs < 2 ^ 63 := by decide
    exact asI64_of_lt (by omega)
  -- the window shows every charge once for each spec of the kind
  have hspent : ((recordAll cfg rs).windows p spec.kind spec.windows now)[i]?.map
      WindowStat.spent = some (.finite (repeats provider spec.kind *
        totalSince p spec.kind (now - w.windowSecs) rs : Nat)) := by
    rw [UsageMeter.windows, List.getElem?_map, hw, Option.map_some, Option.map_some,
      UsageMeter.windowStat, hi64]
    apply congrArg some
    apply sum_since_recordAll hk hp rs _ hlisted hexact
    intro r hr
    have := hnow r hr
    omega
  rw [hspent]
  simp only [Option.some.injEq, FloatValue.finite.injEq, Nat.cast_inj]
  constructor
  · intro h
    rcases Nat.eq_zero_or_pos (totalSince p spec.kind (now - w.windowSecs) rs) with h0 | h0
    · exact Or.inr h0
    · exact Or.inl (Nat.eq_of_mul_eq_mul_right h0 (by rw [h, Nat.one_mul]))
  · rintro (h | h) <;> simp [h]

/-- Every window within the horizon of every spec that counts shows as spent what the
provider's requests in it add up to. -/
def AddsOnce (cfg : Config) (p : String) (provider : Provider) (rs : List ServedRequest)
    (now : Int) : Prop :=
  ∀ spec ∈ provider.usage, spec.kind ≠ .billing → ∀ (i : Nat) (w : UsageWindow),
    spec.windows[i]? = some w → (w.windowSecs : Int) ≤ retainSecs →
    ((recordAll cfg rs).windows p spec.kind spec.windows now)[i]?.map WindowStat.spent =
      some (.finite (totalSince p spec.kind (now - w.windowSecs) rs))

/-- The sums that the provider's windows make stay within the integers that the
amounts represent exactly. -/
def Exact (p : String) (provider : Provider) (rs : List ServedRequest) (now : Int) : Prop :=
  ∀ spec ∈ provider.usage, spec.kind ≠ .billing → ∀ w ∈ spec.windows,
    (w.windowSecs : Int) ≤ retainSecs →
    repeats provider spec.kind * totalSince p spec.kind (now - w.windowSecs) rs ≤ 2 ^ 53

/-- A kind is listed once, or its windows are empty. -/
def ListedOnce (p : String) (provider : Provider) (rs : List ServedRequest) (now : Int) : Prop :=
  ∀ spec ∈ provider.usage, spec.kind ≠ .billing → ∀ w ∈ spec.windows,
    (w.windowSecs : Int) ≤ retainSecs →
    repeats provider spec.kind = 1 ∨ totalSince p spec.kind (now - w.windowSecs) rs = 0

/-- **When every request counts once.** After every run of recorded requests under a
clock that does not go back, as long as the sums are exact, the windows show the
true totals exactly when every kind with a total is listed once. -/
theorem addsOnce_iff (cfg : Config) (p : String) (provider : Provider)
    (hp : cfg.providers.lookup p = some provider) (rs : List ServedRequest) (now : Int)
    (hclock : (rs.map ServedRequest.time ++ [now]).Pairwise (· ≤ ·))
    (hexact : Exact p provider rs now) :
    AddsOnce cfg p provider rs now ↔ ListedOnce p provider rs now := by
  have hnow : ∀ r ∈ rs, r.time ≤ now := by
    intro r hr
    exact (List.pairwise_append.1 hclock).2.2 r.time (List.mem_map_of_mem hr) now
      (List.mem_singleton.2 rfl)
  constructor
  · intro h spec hspec hk w hw hsecs
    obtain ⟨i, hi⟩ := List.getElem?_of_mem hw
    exact (spent_eq_total_iff hp hnow hspec hk hi hsecs (hexact spec hspec hk w hw hsecs)).1
      (h spec hspec hk i w hi hsecs)
  · intro h spec hspec hk i w hw hsecs
    have hmem : w ∈ spec.windows := List.mem_of_getElem? hw
    exact (spent_eq_total_iff hp hnow hspec hk hw hsecs (hexact spec hspec hk w hmem hsecs)).2
      (h spec hspec hk w hmem hsecs)

/-! ## Two windows for one kind -/

/-- A provider with two request limits, each a spec of its own. -/
def twiceCapped : Provider :=
  ⟨.openaiChat, "https://go", none, none, "max_tokens", [], none, none, .path, none, none, none,
    [], [], [.count [⟨"5h", 18000, .finite 50⟩], .count [⟨"1d", 86400, .finite 100⟩]], []⟩

def usageConfig : Config :=
  ⟨"127.0.0.1:8787", "bridge.db", none, none, true, [("go", twiceCapped)], [], none⟩

/-- A request without a price or tokens. -/
def plainRequest (time : Int) (provider : String) : ServedRequest :=
  ⟨time, provider, "gpt-5.5", none, none, none⟩

/-- With one request recorded, the two windows are right if and only if its kind is
listed once. -/
theorem addsOnce_iff_oneRequest :
    AddsOnce usageConfig "go" twiceCapped [plainRequest 1000 "go"] 1000 ↔
      ListedOnce "go" twiceCapped [plainRequest 1000 "go"] 1000 := by
  apply addsOnce_iff usageConfig "go" twiceCapped rfl
  · decide
  · intro spec hspec _ w hw _
    rcases List.mem_cons.1 hspec with rfl | hspec
    · rw [List.mem_singleton.1 hw]
      decide +kernel
    · rw [List.mem_singleton.1 hspec] at hw ⊢
      rw [List.mem_singleton.1 hw]
      decide +kernel

/-- One request counts twice. -/
theorem not_addsOnce_twiceCapped :
    ¬ AddsOnce usageConfig "go" twiceCapped [plainRequest 1000 "go"] 1000 := by
  intro h
  have hspent := h (.count [⟨"5h", 18000, .finite 50⟩]) (by decide) (by decide) 0
    ⟨"5h", 18000, .finite 50⟩ rfl (by decide)
  revert hspent
  decide +kernel

end AiApiBridge
