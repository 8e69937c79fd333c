import AiApiBridge.Lib.FloatValue
import Mathlib.Algebra.BigOperators.Group.List.Basic
import Mathlib.Data.List.Induction
import Mathlib.Data.Rat.Floor
import Mathlib.Tactic.Linarith
import Mathlib.Tactic.NormNum
import Mathlib.Tactic.FieldSimp

/-!
# Binary64 arithmetic

The arithmetic and the order of binary64 values. Natural numbers up to `2 ^ 53` are
binary64 values, so sums and differences that stay below it are exact
(`toBinary64_natCast`), and counting in steps of one stops at `2 ^ 53`
(`foldl_add_ones`).
-/

set_option autoImplicit false

namespace AiApiBridge.FloatValue

/-! ## Operations -/

def neg : FloatValue → FloatValue
  | finite q => finite (-q)
  | infinite negative => infinite (!negative)
  | nan => nan

def add : FloatValue → FloatValue → FloatValue
  | finite q, finite r => toBinary64 (q + r)
  | infinite a, infinite b => if a = b then infinite a else nan
  | infinite a, finite _ => infinite a
  | finite _, infinite b => infinite b
  | nan, _ => nan
  | _, nan => nan

def sub (a b : FloatValue) : FloatValue := add a (neg b)

def mul : FloatValue → FloatValue → FloatValue
  | finite q, finite r => toBinary64 (q * r)
  | infinite a, infinite b => infinite (a != b)
  | infinite a, finite r => if r = 0 then nan else infinite (a != decide (r < 0))
  | finite q, infinite b => if q = 0 then nan else infinite (decide (q < 0) != b)
  | nan, _ => nan
  | _, nan => nan

/-- The quotient; a zero divisor counts as positive. -/
def div : FloatValue → FloatValue → FloatValue
  | finite q, finite r =>
      if r = 0 then if q = 0 then nan else infinite (decide (q < 0)) else toBinary64 (q / r)
  | infinite a, finite r => infinite (a != decide (r < 0))
  | finite _, infinite _ => finite 0
  | infinite _, infinite _ => nan
  | nan, _ => nan
  | _, nan => nan

/-- Whether `a <= b`; false when either is no number. -/
def le : FloatValue → FloatValue → Bool
  | nan, _ => false
  | _, nan => false
  | infinite true, _ => true
  | _, infinite false => true
  | infinite false, _ => false
  | _, infinite true => false
  | finite q, finite r => q ≤ r

/-- Whether `a < b`. -/
def lt (a b : FloatValue) : Bool := le a b && decide (a ≠ b)

/-- The greater one, or the other one when one is no number. -/
def max : FloatValue → FloatValue → FloatValue
  | nan, b => b
  | a, nan => a
  | a, b => if le a b then b else a

def isFinite : FloatValue → Bool
  | finite _ => true
  | _ => false

/-- `n as f64`. -/
def ofNat (n : Nat) : FloatValue := toBinary64 n

/-! ## Small integers are exact -/

theorem pow2_ofNat (n : Nat) : pow2 n = 2 ^ n := rfl

theorem pow2_neg (n : Nat) : pow2 (-n : Int) = 1 / 2 ^ n := by
  cases n with
  | zero => simp [pow2]
  | succ n => rfl

theorem magnitude_intCast (z : Int) : magnitude z = z.natAbs := by
  rw [magnitude]
  split <;> rename_i h
  · have hneg : z < 0 := by exact_mod_cast h
    have habs : (z.natAbs : Int) = -z := by omega
    rw [← Int.cast_neg, ← habs, Int.cast_natCast]
  · have hnonneg : 0 ≤ z := by exact_mod_cast not_lt.1 h
    have habs : (z.natAbs : Int) = z := by omega
    rw [← Int.cast_natCast, habs]

theorem natCast_lt_pow2 {n j k : Nat} (h : n ≤ 2 ^ j) (hjk : j < k) : (n : Rat) < pow2 k := by
  have hlt : n < 2 ^ k := Nat.lt_of_le_of_lt h (Nat.pow_lt_pow_right (by decide) hjk)
  rw [pow2_ofNat]
  exact_mod_cast hlt

theorem roundHalfEven_intCast (z : Int) : roundHalfEven z = z := by
  simp [roundHalfEven, Rat.floor_intCast]

/-- A value that is a multiple of its quantum is not rounded. -/
theorem roundTo_of_multiple {significant : Nat} {least limit : Int} {q : Rat} (hq : q ≠ 0)
    (hquantum : pow2 (Max.max (binaryExponent q) least - (significant - 1)) ≠ 0) {z : Int}
    (hz : q = z * pow2 (Max.max (binaryExponent q) least - (significant - 1)))
    (hlimit : magnitude q < pow2 limit) : roundTo significant least limit q = .finite q := by
  have hdiv : q / pow2 (Max.max (binaryExponent q) least - (significant - 1)) = (z : Rat) := by
    rw [div_eq_iff hquantum]
    exact hz
  have hr : (roundHalfEven (q / pow2 (Max.max (binaryExponent q) least - (significant - 1))) : Rat) *
      pow2 (Max.max (binaryExponent q) least - (significant - 1)) = q := by
    rw [hdiv, roundHalfEven_intCast]
    exact hz.symm
  rw [roundTo, if_neg hq]
  simp only [hr]
  exact if_neg (not_le.2 hlimit)

theorem binaryExponent_intCast {z : Int} (hz : z ≠ 0) :
    binaryExponent z = Nat.log2 z.natAbs := by
  have hle : pow2 (Nat.log2 z.natAbs : Int) ≤ magnitude z := by
    rw [pow2_ofNat, magnitude_intCast]
    exact_mod_cast Nat.log2_self_le (Int.natAbs_ne_zero.2 hz)
  have hexp : ((Nat.log2 ((z : Rat).num.natAbs) : Int) - (Nat.log2 (z : Rat).den : Int)) =
      Nat.log2 z.natAbs := by
    simp [show Nat.log2 1 = 0 by decide]
  simp only [binaryExponent, hexp]
  exact if_pos hle

/-- **An integer of magnitude up to `2 ^ 53` is a binary64 value.** -/
theorem toBinary64_intCast {z : Int} (h : z.natAbs ≤ 2 ^ 53) : toBinary64 z = .finite z := by
  by_cases hz : z = 0
  · subst hz
    rfl
  have habs : z.natAbs ≠ 0 := Int.natAbs_ne_zero.2 hz
  have hlog : Nat.log2 z.natAbs ≤ 53 := by
    have := (Nat.log2_lt habs (k := 54)).2 (Nat.lt_of_le_of_lt h (by decide))
    omega
  have hmax : Max.max (binaryExponent z) (-1022) - ((53 : Nat) - 1 : Int) =
      Nat.log2 z.natAbs - 52 := by
    rw [binaryExponent_intCast hz]
    omega
  have hlimit : magnitude z < pow2 1024 := by
    rw [magnitude_intCast]
    exact natCast_lt_pow2 h (by decide)
  have hz' : (z : Rat) ≠ 0 := by exact_mod_cast hz
  rcases Nat.lt_or_ge (Nat.log2 z.natAbs) 53 with hlt | hge
  · -- the quantum is a fraction of one
    obtain ⟨k, hk⟩ : ∃ k : Nat, (Nat.log2 z.natAbs - 52 : Int) = -k :=
      ⟨52 - Nat.log2 z.natAbs, by omega⟩
    refine roundTo_of_multiple hz' ?_ (z := z * 2 ^ k) ?_ hlimit
    · rw [hmax, hk, pow2_neg]
      positivity
    · rw [hmax, hk, pow2_neg]
      push_cast
      field_simp
  · -- only the magnitude `2 ^ 53` is left, and its quantum is two
    have heq : z.natAbs = 2 ^ 53 := by
      have := Nat.log2_self_le habs
      have hpow : 2 ^ 53 ≤ 2 ^ Nat.log2 z.natAbs := Nat.pow_le_pow_right (by decide) hge
      omega
    have hone : (Nat.log2 z.natAbs - 52 : Int) = (1 : Nat) := by omega
    have hhalf : z = z / 2 * 2 := by omega
    refine roundTo_of_multiple hz' ?_ (z := z / 2) ?_ hlimit
    · rw [hmax, hone, pow2_ofNat]
      positivity
    · rw [hmax, hone, pow2_ofNat, pow_one]
      exact_mod_cast hhalf

theorem toBinary64_natCast {n : Nat} (h : n ≤ 2 ^ 53) : toBinary64 n = .finite n := by
  have := toBinary64_intCast (z := n) (by simpa using h)
  simpa using this

theorem ofNat_of_le {n : Nat} (h : n ≤ 2 ^ 53) : ofNat n = .finite n := toBinary64_natCast h

theorem add_natCast {m n : Nat} (h : m + n ≤ 2 ^ 53) :
    add (.finite m) (.finite n) = .finite (m + n : Nat) := by
  rw [add, ← Nat.cast_add, toBinary64_natCast h]

/-- What is left of a natural number is nothing exactly when as much is taken. -/
theorem le_max_sub_zero {l n : Nat} (hl : l ≤ 2 ^ 53) (hn : n ≤ 2 ^ 53) :
    le (max (sub (.finite l) (.finite n)) (.finite 0)) (.finite 0) = decide (l ≤ n) := by
  have hsub : sub (.finite l) (.finite n) = .finite ((l : Int) - n : Int) := by
    rw [sub, neg, add, ← toBinary64_intCast (by omega)]
    push_cast
    rw [sub_eq_add_neg]
  have hzero : ((l : Int) - n : Int) ≤ (0 : Rat) ↔ l ≤ n := by
    rw [show (0 : Rat) = (0 : Int) by norm_num, Int.cast_le]
    omega
  rw [hsub]
  rcases Nat.lt_or_ge n l with h | h
  · have hpos := mt hzero.1 (Nat.not_le.2 h)
    have hnot : ¬ l ≤ n := Nat.not_le.2 h
    simp only [max, le, hpos, hnot, decide_false, Bool.false_eq_true, if_false]
  · have hneg := hzero.2 h
    simp only [max, le, hneg, h, decide_true, if_true]
    decide

/-- The odd number above `2 ^ 53` is rounded down. -/
theorem toBinary64_succ_limit : toBinary64 (2 ^ 53 + 1) = .finite (2 ^ 53) := by
  decide +kernel

/-- **Counting in steps of one stops at `2 ^ 53`.** -/
theorem add_one_natCast (n : Nat) :
    add (.finite (min n (2 ^ 53) : Nat)) (.finite 1) = .finite (min (n + 1) (2 ^ 53) : Nat) := by
  rcases Nat.lt_or_ge n (2 ^ 53) with h | h
  · have hone : (1 : Rat) = (1 : Nat) := by norm_num
    rw [Nat.min_eq_left (Nat.le_of_lt h), Nat.min_eq_left (by omega), hone, add_natCast (by omega)]
  · rw [Nat.min_eq_right h, Nat.min_eq_right (by omega), add]
    push_cast
    exact toBinary64_succ_limit

theorem foldl_add_ones (n : Nat) :
    (List.replicate n (FloatValue.finite 1)).foldl add (.finite 0) =
      .finite (min n (2 ^ 53) : Nat) := by
  induction n with
  | zero => rfl
  | succ n ih => rw [List.replicate_succ', List.foldl_append, ih, List.foldl_cons, List.foldl_nil,
      add_one_natCast]

/-- A sum of natural numbers that stays within `2 ^ 53` is exact. -/
theorem foldl_add_natCast (ns : List Nat) (h : ns.sum ≤ 2 ^ 53) :
    (ns.map fun n : Nat => FloatValue.finite (n : Rat)).foldl add (.finite 0) = .finite (ns.sum : Nat) := by
  induction ns using List.reverseRecOn with
  | nil => rfl
  | append_singleton ns n ih =>
      rw [List.sum_append, List.sum_singleton] at h ⊢
      rw [List.map_append, List.foldl_append, ih (by omega), List.map_singleton, List.foldl_cons,
        List.foldl_nil, add_natCast h]

end AiApiBridge.FloatValue
