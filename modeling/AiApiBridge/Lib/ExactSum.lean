import AiApiBridge.Lib.Binary64
import Mathlib.Algebra.BigOperators.Ring.Finset
import Mathlib.Algebra.Order.BigOperators.Group.List

/-!
# Exact sums of floating-point values

`addExact` is addition without rounding: it is the rational sum of finite values and
keeps the IEEE rules for infinities and NaN. Unlike a rounded sum, an exact one does
not depend on the order of its terms (`foldl_addExact_perm`).
-/

set_option autoImplicit false

namespace AiApiBridge.FloatValue

/-- The sum, as if every rational were a value. -/
def addExact : FloatValue → FloatValue → FloatValue
  | finite q, finite r => finite (q + r)
  | a, b => add a b

/-- The rational a finite value stands for. -/
def toRat : FloatValue → Rat
  | finite q => q
  | _ => 0

/-- Two terms may change places. -/
theorem addExact_right_comm (a b c : FloatValue) :
    addExact (addExact a b) c = addExact (addExact a c) b := by
  cases a with
  | finite p =>
      cases b with
      | finite q =>
          cases c with
          | finite r => simp [addExact, add_right_comm]
          | infinite s => rfl
          | nan => rfl
      | infinite s =>
          cases c with
          | finite r => rfl
          | infinite t => by_cases h : s = t <;> simp [addExact, add, h, eq_comm]
          | nan => rfl
      | nan => cases c <;> rfl
  | infinite p =>
      cases b with
      | finite q =>
          cases c with
          | finite r => rfl
          | infinite t => by_cases h : p = t <;> simp [addExact, add, h]
          | nan => rfl
      | infinite s =>
          cases c with
          | finite r => by_cases h : p = s <;> simp [addExact, add, h]
          | infinite t => cases p <;> cases s <;> cases t <;> rfl
          | nan => by_cases h : p = s <;> simp [addExact, add, h]
      | nan =>
          cases c with
          | finite r => rfl
          | infinite t => by_cases h : p = t <;> simp [addExact, add, h]
          | nan => rfl
  | nan => cases b <;> cases c <;> rfl

/-- **An exact sum does not depend on the order of its terms.** -/
theorem foldl_addExact_perm {as bs : List FloatValue} (h : as.Perm bs) (a : FloatValue) :
    as.foldl addExact a = bs.foldl addExact a :=
  h.foldl_eq' (fun x _ y _ z => addExact_right_comm z x y) a

/-- An exact sum of finite values is the rational sum. -/
theorem foldl_addExact_finite (qs : List Rat) (q : Rat) :
    (qs.map finite).foldl addExact (finite q) = finite (q + qs.sum) := by
  induction qs generalizing q with
  | nil => simp
  | cons r qs ih => simp [addExact, ih, add_assoc]

/-- Every sum of some of the terms is a binary64 value. -/
def SumsExact (qs : List Rat) : Prop :=
  ∀ part : List Rat, part.Subperm qs → toBinary64 part.sum = finite part.sum

/-- Nothing is rounded where every sum of some of the terms is a value. -/
theorem SumsExact.foldl_add {qs part : List Rat} (h : SumsExact qs) (hpart : part.Subperm qs) :
    (part.map finite).foldl add (finite 0) = finite part.sum := by
  induction part using List.reverseRecOn with
  | nil => rfl
  | append_singleton part q ih =>
      have hinit : part.Subperm qs := (List.sublist_append_left part [q]).subperm.trans hpart
      rw [List.map_append, List.foldl_append, ih hinit, List.map_singleton, List.foldl_cons,
        List.foldl_nil, add, List.sum_append, List.sum_singleton]
      have hsum := h _ hpart
      rwa [List.sum_append, List.sum_singleton] at hsum

/-- Whole numbers that stay within `2 ^ 53` together. -/
theorem sumsExact_natCast {ns : List Nat} (h : ns.sum ≤ 2 ^ 53) :
    SumsExact (ns.map fun n : Nat => (n : Rat)) := by
  rintro part ⟨terms, hperm, hsub⟩
  rcases List.sublist_map_iff.mp hsub with ⟨ms, hms, rfl⟩
  have hle : ms.sum ≤ 2 ^ 53 := (hms.sum_le_sum fun n _ => Nat.zero_le n).trans h
  have hsum : part.sum = (ms.sum : Nat) := by
    rw [← hperm.sum_eq, Nat.cast_list_sum]
  rw [hsum, toBinary64_natCast hle]

/-- Nothing is left of a finite value exactly when as much is taken. -/
theorem le_max_subExact_zero (l s : Rat) :
    le (max (addExact (finite l) (neg (finite s))) (finite 0)) (finite 0) = decide (l ≤ s) := by
  by_cases h : l ≤ s
  · have hle : l + -s ≤ 0 := by linarith
    simp [addExact, neg, max, le, h, hle]
  · have hle : ¬ l + -s ≤ 0 := by
      intro hls
      exact h (by linarith)
    simp [addExact, neg, max, le, h, hle]

end AiApiBridge.FloatValue
