import AiApiBridge.Lib.Binary64
import Mathlib.Algebra.Order.AbsoluteValue.Basic
import Mathlib.Algebra.Order.Field.Power
import Mathlib.Tactic.Positivity

/-!
# Rounding errors

Rounding moves a value by at most half of what its last significant bit stands for
(`abs_roundTo_sub_le`), so a natural number by at most `1 / 2 ^ 53` of itself
(`abs_ofNat_sub_le`). Numbers further apart than their errors have different values
(`ofNat_ne_of_far`), and so a count that has wrapped around at `2 ^ 64` has never the
value it should have (`ofNat_mod_eq_iff`).
-/

set_option autoImplicit false

namespace AiApiBridge.FloatValue

theorem pow2_eq_zpow (e : Int) : pow2 e = (2 : Rat) ^ e := by
  cases e with
  | ofNat n => exact (zpow_natCast 2 n).symm
  | negSucc n => rw [pow2, zpow_negSucc, one_div]

theorem pow2_pos (e : Int) : 0 < pow2 e := by
  rw [pow2_eq_zpow]
  positivity

theorem magnitude_eq_abs (q : Rat) : magnitude q = |q| := by
  rw [magnitude]
  split
  · rw [abs_of_neg ‹_›]
  · rw [abs_of_nonneg (not_lt.1 ‹_›)]

/-- The nearest integer is at most a half away. -/
theorem abs_roundHalfEven_sub_le (q : Rat) : |(roundHalfEven q : Rat) - q| ≤ 1 / 2 := by
  have hlo : (q.floor : Rat) ≤ q := Rat.floor_le q
  have hhi : q < (q.floor : Rat) + 1 := by exact_mod_cast Rat.lt_floor_add_one q
  rw [roundHalfEven, abs_le]
  split_ifs <;> push_cast <;> constructor <;> linarith

/-- The nearest multiple of a quantum is at most half a quantum away. -/
theorem abs_multiple_sub_le {quantum : Rat} (h : 0 < quantum) (q : Rat) :
    |(roundHalfEven (q / quantum) : Rat) * quantum - q| ≤ quantum / 2 := by
  have hscaled := mul_le_mul_of_nonneg_right (abs_roundHalfEven_sub_le (q / quantum)) h.le
  have hq : q / quantum * quantum = q := div_mul_cancel₀ q h.ne'
  calc |(roundHalfEven (q / quantum) : Rat) * quantum - q|
      = |((roundHalfEven (q / quantum) : Rat) - q / quantum) * quantum| := by rw [sub_mul, hq]
    _ = |(roundHalfEven (q / quantum) : Rat) - q / quantum| * quantum := by
        rw [abs_mul, abs_of_pos h]
    _ ≤ quantum / 2 := by linarith

/-- **The error of rounding**: half of the quantum. -/
theorem abs_roundTo_sub_le {significant : Nat} {least limit : Int} {q r : Rat}
    (h : roundTo significant least limit q = .finite r) :
    |r - q| ≤ pow2 (Max.max (binaryExponent q) least - (significant - 1)) / 2 := by
  have hquantum := pow2_pos (Max.max (binaryExponent q) least - (significant - 1))
  by_cases hq : q = 0
  · rw [roundTo, if_pos hq] at h
    cases h
    rw [hq, sub_zero, abs_zero]
    exact (half_pos (by rwa [hq] at hquantum)).le
  · rw [roundTo, if_neg hq] at h
    dsimp only at h
    split at h
    · cases h
    · cases h
      exact abs_multiple_sub_le hquantum q

/-- The exponent of a natural number is that of its leading bit. -/
theorem max_exponent_natCast {n : Nat} (hn : n ≠ 0) :
    Max.max (binaryExponent (n : Rat)) (-1022) = Nat.log2 n := by
  have hexp := @binaryExponent_intCast n (by exact_mod_cast hn)
  rw [Int.cast_natCast, Int.natAbs_natCast] at hexp
  rw [hexp]
  omega

/-- **A natural number is rounded by at most `1 / 2 ^ 53` of itself.** -/
theorem abs_ofNat_sub_le {n : Nat} {r : Rat} (h : ofNat n = .finite r) :
    |r - n| ≤ n / 2 ^ 53 := by
  by_cases hn : n = 0
  · subst hn
    cases h
    norm_num
  have herr := abs_roundTo_sub_le h
  -- the leading bit of the number is `2 ^ 52` quanta
  have hquantum : pow2 ((Nat.log2 n : Int) - ((53 : Nat) - 1)) * 2 ^ 52 = 2 ^ Nat.log2 n := by
    rw [pow2_eq_zpow, ← zpow_natCast (2 : Rat) 52, ← zpow_add₀ two_ne_zero,
      ← zpow_natCast (2 : Rat) (Nat.log2 n)]
    congr 1
    push_cast
    ring
  have hlead : (2 : Rat) ^ Nat.log2 n ≤ n := by exact_mod_cast Nat.log2_self_le hn
  rw [max_exponent_natCast hn] at herr
  rw [le_div_iff₀ (by positivity)]
  calc |r - n| * 2 ^ 53
      ≤ pow2 ((Nat.log2 n : Int) - ((53 : Nat) - 1)) / 2 * 2 ^ 53 :=
        mul_le_mul_of_nonneg_right herr (by positivity)
    _ = 2 ^ Nat.log2 n := by rw [← hquantum]; ring
    _ ≤ n := hlead

/-- A natural number below `2 ^ 64` is rounded to a finite value. -/
theorem ofNat_finite {n : Nat} (h : n < 2 ^ 64) : ∃ r, ofNat n = .finite r := by
  by_cases hn : n = 0
  · subst hn
    exact ⟨0, rfl⟩
  have hn' : (n : Rat) ≠ 0 := by exact_mod_cast hn
  have herr := abs_multiple_sub_le (pow2_pos ((Nat.log2 n : Int) - ((53 : Nat) - 1))) n
  have hquantum : pow2 ((Nat.log2 n : Int) - ((53 : Nat) - 1)) ≤ 2 ^ 64 := by
    have hlog : Nat.log2 n < 64 := (Nat.log2_lt hn).2 h
    rw [pow2_eq_zpow, ← zpow_natCast (2 : Rat) 64]
    exact zpow_le_zpow_right₀ one_le_two (by omega)
  have hcast : (n : Rat) < 2 ^ 64 := by exact_mod_cast h
  have hlimit : (2 : Rat) ^ 65 < pow2 1024 := by
    rw [pow2_eq_zpow, ← zpow_natCast (2 : Rat) 65]
    exact zpow_lt_zpow_right₀ one_lt_two (by decide)
  rw [ofNat, toBinary64, roundTo, if_neg hn']
  simp only [max_exponent_natCast hn]
  generalize pow2 ((Nat.log2 n : Int) - ((53 : Nat) - 1)) = quantum at herr hquantum ⊢
  rw [if_neg]
  · exact ⟨_, rfl⟩
  · -- rounding takes it nowhere near the limit
    rw [magnitude_eq_abs, not_le]
    have hnonneg : (0 : Rat) ≤ n := Nat.cast_nonneg n
    obtain ⟨hlo, hhi⟩ := abs_le.1 herr
    apply lt_trans _ hlimit
    rw [abs_lt]
    constructor <;> linarith

/-- **Numbers further apart than their rounding errors** have different values. -/
theorem ofNat_ne_of_far {m n : Nat} (hm : m < 2 ^ 64) (h : m + n < 2 ^ 53 * (n - m)) :
    ofNat m ≠ ofNat n := by
  intro heq
  obtain ⟨r, hr⟩ := ofNat_finite hm
  -- one value cannot be near both
  obtain ⟨-, hmerr⟩ := abs_le.1 (abs_ofNat_sub_le hr)
  obtain ⟨hnerr, -⟩ := abs_le.1 (abs_ofNat_sub_le (heq ▸ hr))
  have hle : m ≤ n := by omega
  have hfar : (m : Rat) + n < 2 ^ 53 * (n - m) := by
    rw [← Nat.cast_sub hle]
    exact_mod_cast h
  linarith

/-- **A wrapped count shows.** Its value is that of the count itself only below
`2 ^ 64`. -/
theorem ofNat_mod_eq_iff (n : Nat) : ofNat (n % 2 ^ 64) = ofNat n ↔ n < 2 ^ 64 := by
  constructor
  · intro heq
    by_contra hge
    have hmod := Nat.mod_lt n (show 0 < 2 ^ 64 by decide)
    have hdiv := Nat.div_add_mod n (2 ^ 64)
    have hwraps : 1 ≤ n / 2 ^ 64 := by omega
    exact ofNat_ne_of_far hmod (by omega) heq
  · intro h
    rw [Nat.mod_eq_of_lt h]

end AiApiBridge.FloatValue
