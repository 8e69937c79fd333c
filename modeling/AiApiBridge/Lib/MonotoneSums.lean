import AiApiBridge.Lib.Representable

/-!
# Rounded sums are monotone

Rounding keeps the order (`le_toBinary64`), and so do the addition of values that are not negative
and their sums from the left: a sum of fewer terms is no greater, rounded or not
(`foldl_add_le_of_sublist`). What is left of a limit is no greater the more is taken from it
(`remainder_antitone`).
-/

set_option autoImplicit false

namespace AiApiBridge.FloatValue

/-! ## Rounding -/

/-- The nearest integer keeps the order: two numbers whose nearest ones are in the wrong order
are at least as far apart as these. -/
theorem roundHalfEven_mono {q r : Rat} (h : q ≤ r) : roundHalfEven q ≤ roundHalfEven r := by
  by_contra hlt
  have hstep : (roundHalfEven r : Rat) + 1 ≤ roundHalfEven q := by
    exact_mod_cast Int.add_one_le_of_lt (not_le.1 hlt)
  obtain ⟨-, hq⟩ := abs_le.1 (abs_roundHalfEven_sub_le q)
  obtain ⟨hr, -⟩ := abs_le.1 (abs_roundHalfEven_sub_le r)
  have heq : q = r := by linarith
  rw [heq] at hlt
  exact hlt le_rfl

/-- The nearest multiple of the quantum of a rational. -/
def nearest (significant : Nat) (least : Int) (q : Rat) : Rat :=
  let quantum := pow2 (Max.max (binaryExponent q) least - (significant - 1))
  roundHalfEven (q / quantum) * quantum

theorem roundTo_eq_nearest (significant : Nat) (least limit : Int) {q : Rat} (hq : q ≠ 0) :
    roundTo significant least limit q =
      if pow2 limit ≤ magnitude (nearest significant least q) then .infinite (decide (q < 0))
      else .finite (nearest significant least q) := by
  rw [roundTo, if_neg hq]
  rfl

theorem roundHalfEven_nonneg {q : Rat} (h : 0 ≤ q) : 0 ≤ roundHalfEven q := by
  have hmono := roundHalfEven_mono h
  rwa [show (0 : Rat) = ((0 : Int) : Rat) by norm_num, roundHalfEven_intCast] at hmono

theorem roundHalfEven_nonpos {q : Rat} (h : q ≤ 0) : roundHalfEven q ≤ 0 := by
  have hmono := roundHalfEven_mono h
  rwa [show (0 : Rat) = ((0 : Int) : Rat) by norm_num, roundHalfEven_intCast] at hmono

section Nearest

variable {significant : Nat} {least : Int} {q r : Rat}

theorem nearest_nonneg (h : 0 ≤ q) : 0 ≤ nearest significant least q := by
  have hquantum := pow2_pos (Max.max (binaryExponent q) least - (significant - 1))
  have hround := roundHalfEven_nonneg (div_nonneg h hquantum.le)
  exact mul_nonneg (by exact_mod_cast hround) hquantum.le

theorem nearest_nonpos (h : q ≤ 0) : nearest significant least q ≤ 0 := by
  have hquantum := pow2_pos (Max.max (binaryExponent q) least - (significant - 1))
  have hround := roundHalfEven_nonpos (div_nonpos_of_nonpos_of_nonneg h hquantum.le)
  exact mul_nonpos_of_nonpos_of_nonneg (by exact_mod_cast hround) hquantum.le

theorem binaryExponent_mono (hq : 0 < q) (h : q ≤ r) : binaryExponent q ≤ binaryExponent r := by
  have hr : 0 < r := hq.trans_le h
  have hlo := (binaryExponent_spec hq.ne').1
  have hhi := (binaryExponent_spec hr.ne').2
  rw [abs_of_pos hq] at hlo
  rw [abs_of_pos hr] at hhi
  have hlt := (zpow_lt_zpow_iff_right₀ one_lt_two).1 (hlo.trans_lt (h.trans_lt hhi))
  omega

/-- A value is at most rounded up to the next power of two. -/
theorem nearest_le_zpow (hq : 0 < q) :
    nearest significant least q ≤ 2 ^ (Max.max (binaryExponent q) least + 1) := by
  have htwo : (2 : Rat) ≠ 0 := two_ne_zero
  obtain ⟨e, he⟩ : ∃ e, e = Max.max (binaryExponent q) least - (significant - 1 : Int) := ⟨_, rfl⟩
  have hpower : (0 : Rat) < 2 ^ e := zpow_pos two_pos e
  have hscaled : |q / 2 ^ e| < (2 ^ significant : Nat) := by
    have hupper : |q| < 2 ^ (significant + e) := by
      refine (binaryExponent_spec hq.ne').2.trans_le ?_
      exact zpow_le_zpow_right₀ one_le_two (by omega)
    rw [abs_div, abs_of_pos hpower, div_lt_iff₀ hpower]
    rw [zpow_add₀ htwo, zpow_natCast] at hupper
    exact_mod_cast hupper
  have hround : (roundHalfEven (q / 2 ^ e) : Rat) ≤ 2 ^ significant := by
    have hle := (le_abs_self _).trans (abs_roundHalfEven_le hscaled)
    exact_mod_cast hle
  have hexp : Max.max (binaryExponent q) least + 1 = significant + e := by omega
  rw [nearest, ← he, pow2_eq_zpow, hexp, zpow_add₀ htwo, zpow_natCast]
  exact mul_le_mul_of_nonneg_right hround hpower.le

/-- A power of two below a value is a multiple of its quantum, so rounding does not pass it. -/
theorem zpow_le_nearest (hsignificant : 0 < significant) (hq : 0 < q)
    (hleast : least ≤ binaryExponent q) :
    2 ^ binaryExponent q ≤ nearest significant least q := by
  have htwo : (2 : Rat) ≠ 0 := two_ne_zero
  obtain ⟨e, he⟩ : ∃ e, e = binaryExponent q - (significant - 1 : Int) := ⟨_, rfl⟩
  have hpower : (0 : Rat) < 2 ^ e := zpow_pos two_pos e
  have hexp : binaryExponent q = ((significant - 1 : Nat) : Int) + e := by omega
  have hlo := (binaryExponent_spec hq.ne').1
  rw [abs_of_pos hq] at hlo
  have hscaled : (((2 ^ (significant - 1) : Nat) : Int) : Rat) ≤ q / 2 ^ e := by
    rw [le_div_iff₀ hpower]
    rw [hexp, zpow_add₀ htwo, zpow_natCast] at hlo
    exact_mod_cast hlo
  have hround := roundHalfEven_mono hscaled
  rw [roundHalfEven_intCast] at hround
  rw [nearest, max_eq_left hleast, ← he, pow2_eq_zpow, hexp, zpow_add₀ htwo, zpow_natCast]
  refine mul_le_mul_of_nonneg_right ?_ hpower.le
  exact_mod_cast hround

theorem nearest_mono (hsignificant : 0 < significant) (hq : 0 < q) (h : q ≤ r) :
    nearest significant least q ≤ nearest significant least r := by
  have hexp := binaryExponent_mono hq h
  rcases eq_or_lt_of_le (max_le_max_right least hexp) with heq | hlt
  · -- one quantum for both
    have hquantum := pow2_pos (Max.max (binaryExponent r) least - (significant - 1))
    have hround := roundHalfEven_mono (div_le_div_of_nonneg_right h hquantum.le)
    rw [nearest, nearest, heq]
    exact mul_le_mul_of_nonneg_right (by exact_mod_cast hround) hquantum.le
  · -- a power of two lies between them
    have hleast : least ≤ binaryExponent r := by
      by_contra hbelow
      rw [max_eq_right (not_le.1 hbelow).le] at hlt
      exact absurd (le_max_right _ _) (not_le.2 hlt)
    rw [max_eq_left hleast] at hlt
    calc nearest significant least q ≤ 2 ^ (Max.max (binaryExponent q) least + 1) :=
          nearest_le_zpow hq
      _ ≤ 2 ^ binaryExponent r := zpow_le_zpow_right₀ one_le_two (by omega)
      _ ≤ nearest significant least r :=
          zpow_le_nearest hsignificant (hq.trans_le h) hleast

end Nearest

/-! ## The order of values -/

theorem le_refl_of_ne_nan {a : FloatValue} (h : a ≠ .nan) : le a a = true := by
  cases a with
  | finite q => exact decide_eq_true le_rfl
  | infinite negative => cases negative <;> rfl
  | nan => exact absurd rfl h

theorem le_trans {a b c : FloatValue} (hab : le a b = true) (hbc : le b c = true) :
    le a c = true := by
  cases a with
  | nan => cases hab
  | infinite negative =>
      cases negative with
      | true => cases c <;> first | rfl | cases b <;> cases hbc
      | false =>
          -- nothing is above but itself
          cases b with
          | nan => cases hab
          | finite q => cases hab
          | infinite negative =>
              cases negative with
              | true => cases hab
              | false => exact hbc
  | finite q =>
      cases b with
      | nan => cases hab
      | infinite negative =>
          cases negative with
          | true => cases hab
          | false => cases c with
            | nan => cases hbc
            | finite r => cases hbc
            | infinite negative => cases negative <;> first | rfl | cases hbc
      | finite r =>
          cases c with
          | nan => cases hbc
          | infinite negative => cases negative <;> first | rfl | cases hbc
          | finite t =>
              exact decide_eq_true ((of_decide_eq_true hab).trans (of_decide_eq_true hbc))

/-- Rounding a number that is not negative gives a value that is not. -/
theorem zero_le_toBinary64 {q : Rat} (h : 0 ≤ q) : le (.finite 0) (toBinary64 q) = true := by
  rcases h.eq_or_lt with rfl | hpos
  · rfl
  rw [toBinary64, roundTo_eq_nearest _ _ _ hpos.ne']
  split
  · rw [decide_eq_false (not_lt.2 h)]
    rfl
  · exact decide_eq_true (nearest_nonneg h)

theorem toBinary64_le_zero {q : Rat} (h : q ≤ 0) : le (toBinary64 q) (.finite 0) = true := by
  rcases h.eq_or_lt with rfl | hneg
  · rfl
  rw [toBinary64, roundTo_eq_nearest _ _ _ hneg.ne]
  split
  · rw [decide_eq_true hneg]
    rfl
  · exact decide_eq_true (nearest_nonpos h)

/-- **Rounding keeps the order.** -/
theorem le_toBinary64 {q r : Rat} (hq : 0 ≤ q) (h : q ≤ r) :
    le (toBinary64 q) (toBinary64 r) = true := by
  rcases hq.eq_or_lt with rfl | hpos
  · exact zero_le_toBinary64 h
  have hnearest := @nearest_mono 53 (-1022) _ _ (by decide) hpos h
  have hq' := @nearest_nonneg 53 (-1022) _ hq
  rw [toBinary64, toBinary64, roundTo_eq_nearest _ _ _ hpos.ne',
    roundTo_eq_nearest _ _ _ (hpos.trans_le h).ne', magnitude_eq_abs, magnitude_eq_abs,
    abs_of_nonneg hq', abs_of_nonneg (hq'.trans hnearest)]
  rw [decide_eq_false (not_lt.2 hq), decide_eq_false (not_lt.2 (hq.trans h))]
  by_cases hlimit : pow2 1024 ≤ nearest 53 (-1022) q
  · rw [if_pos hlimit, if_pos (hlimit.trans hnearest)]
    rfl
  · rw [if_neg hlimit]
    split
    · rfl
    · exact decide_eq_true hnearest

/-! ## Sums -/

/-- A value of the format: rounding leaves it alone. -/
def IsValue : FloatValue → Prop
  | finite q => toBinary64 q = finite q
  | _ => True

theorem isValue_toBinary64 (q : Rat) : IsValue (toBinary64 q) := by
  cases h : toBinary64 q with
  | finite r => exact roundTo_roundTo (by decide) (by decide) h
  | infinite negative => trivial
  | nan => trivial

theorem isValue_add (a b : FloatValue) : IsValue (add a b) := by
  cases a with
  | nan => trivial
  | infinite s =>
      cases b with
      | nan => trivial
      | finite r => trivial
      | infinite t =>
          rw [add]
          split <;> trivial
  | finite q =>
      cases b with
      | nan => trivial
      | infinite t => trivial
      | finite r => exact isValue_toBinary64 (q + r)

/-- What is not negative is a number or infinite. -/
theorem eq_of_zero_le {a : FloatValue} (h : le (.finite 0) a = true) :
    (∃ q : Rat, 0 ≤ q ∧ a = .finite q) ∨ a = .infinite false := by
  cases a with
  | nan => cases h
  | finite q => exact .inl ⟨q, of_decide_eq_true h, rfl⟩
  | infinite negative =>
      cases negative with
      | true => cases h
      | false => exact .inr rfl

theorem le_infinite {a : FloatValue} (h : le (.finite 0) a = true) :
    le a (.infinite false) = true := by
  rcases eq_of_zero_le h with ⟨q, -, rfl⟩ | rfl <;> rfl

theorem zero_le_add {a b : FloatValue} (ha : le (.finite 0) a = true)
    (hb : le (.finite 0) b = true) : le (.finite 0) (add a b) = true := by
  rcases eq_of_zero_le ha with ⟨q, hq, rfl⟩ | rfl
  · rcases eq_of_zero_le hb with ⟨r, hr, rfl⟩ | rfl
    · exact zero_le_toBinary64 (add_nonneg hq hr)
    · rfl
  · rcases eq_of_zero_le hb with ⟨r, hr, rfl⟩ | rfl <;> rfl

/-- **Addition is monotone** on what is not negative. -/
theorem add_mono {a a' b b' : FloatValue} (ha : le (.finite 0) a = true)
    (hb : le (.finite 0) b = true) (haa : le a a' = true) (hbb : le b b' = true) :
    le (add a b) (add a' b') = true := by
  have hsum := zero_le_add ha hb
  rcases eq_of_zero_le (le_trans ha haa) with ⟨q', -, rfl⟩ | rfl
  · rcases eq_of_zero_le (le_trans hb hbb) with ⟨r', -, rfl⟩ | rfl
    · rcases eq_of_zero_le ha with ⟨q, hq, rfl⟩ | rfl
      · rcases eq_of_zero_le hb with ⟨r, hr, rfl⟩ | rfl
        · have hle := add_le_add (of_decide_eq_true haa) (of_decide_eq_true hbb)
          exact le_toBinary64 (add_nonneg hq hr) hle
        · cases hbb
      · cases haa
    · exact le_infinite hsum
  · rcases eq_of_zero_le (le_trans hb hbb) with ⟨r', -, rfl⟩ | rfl
    · exact le_infinite hsum
    · exact le_infinite hsum

/-- A term that is not negative takes nothing away. -/
theorem le_add_right {a b : FloatValue} (hvalue : IsValue a) (ha : le (.finite 0) a = true)
    (hb : le (.finite 0) b = true) : le a (add a b) = true := by
  rcases eq_of_zero_le ha with ⟨q, hq, rfl⟩ | rfl
  · have hmono := add_mono ha (le_refl_of_ne_nan (by simp)) (le_refl_of_ne_nan (by simp)) hb
    rwa [add, add_zero, show toBinary64 q = .finite q from hvalue] at hmono
  · rcases eq_of_zero_le hb with ⟨r, -, rfl⟩ | rfl <;> rfl

/-- **Fewer terms, no greater sum**: terms that are not negative, added up from the left with
rounding. -/
theorem foldl_add_le_of_sublist {as bs : List FloatValue} (h : as.Sublist bs) {a b : FloatValue}
    (hterms : ∀ x ∈ bs, le (.finite 0) x = true) (ha : le (.finite 0) a = true)
    (hab : le a b = true) (hvalue : IsValue b) :
    le (as.foldl add a) (bs.foldl add b) = true := by
  induction h generalizing a b with
  | slnil => exact hab
  | cons x _ ih =>
      obtain ⟨hx, hrest⟩ := List.forall_mem_cons.1 hterms
      have hb := le_trans ha hab
      exact ih hrest ha (le_trans hab (le_add_right hvalue hb hx)) (isValue_add b x)
  | cons_cons x _ ih =>
      obtain ⟨hx, hrest⟩ := List.forall_mem_cons.1 hterms
      have hxx : le x x = true := by
        rcases eq_of_zero_le hx with ⟨q, -, rfl⟩ | rfl
        · exact decide_eq_true le_rfl
        · rfl
      exact ih hrest (zero_le_add ha hx) (add_mono ha hx hab hxx) (isValue_add b x)

/-- A sum of terms that are not negative is not. -/
theorem zero_le_foldl_add {as : List FloatValue} {a : FloatValue}
    (hterms : ∀ x ∈ as, le (.finite 0) x = true) (ha : le (.finite 0) a = true) :
    le (.finite 0) (as.foldl add a) = true := by
  induction as generalizing a with
  | nil => exact ha
  | cons x as ih =>
      obtain ⟨hx, hrest⟩ := List.forall_mem_cons.1 hterms
      exact ih hrest (zero_le_add ha hx)

/-! ## What is left of a limit -/

theorem max_zero_of_le {a : FloatValue} (h : le a (.finite 0) = true) :
    max a (.finite 0) = .finite 0 := by
  cases a with
  | nan => rfl
  | infinite negative => cases negative <;> first | rfl | cases h
  | finite q => exact if_pos h

theorem max_zero_of_not_le {a : FloatValue} (hnan : a ≠ .nan) (h : le a (.finite 0) = false) :
    max a (.finite 0) = a := by
  cases a with
  | nan => exact absurd rfl hnan
  | infinite negative => cases negative <;> first | rfl | cases h
  | finite q => exact if_neg (by rw [h]; exact Bool.false_ne_true)

/-- What is above zero is not below it. -/
theorem zero_le_of_not_le {a : FloatValue} (hnan : a ≠ .nan) (h : le a (.finite 0) = false) :
    le (.finite 0) a = true := by
  cases a with
  | nan => exact absurd rfl hnan
  | infinite negative => cases negative <;> first | rfl | cases h
  | finite q => exact decide_eq_true (not_le.1 (of_decide_eq_false h)).le

theorem zero_le_max_zero (a : FloatValue) : le (.finite 0) (max a (.finite 0)) = true := by
  by_cases hnan : a = .nan
  · rw [hnan]
    exact le_refl_of_ne_nan (by simp)
  cases h : le a (.finite 0) with
  | true =>
      rw [max_zero_of_le h]
      exact le_refl_of_ne_nan (by simp)
  | false =>
      rw [max_zero_of_not_le hnan h]
      exact zero_le_of_not_le hnan h

theorem max_zero_mono {a b : FloatValue} (h : le a b = true) :
    le (max a (.finite 0)) (max b (.finite 0)) = true := by
  cases ha : le a (.finite 0) with
  | true =>
      rw [max_zero_of_le ha]
      exact zero_le_max_zero b
  | false =>
      have hanan : a ≠ .nan := by
        rintro rfl
        cases h
      have hbnan : b ≠ .nan := by
        rintro rfl
        cases a <;> cases h
      have hb : le b (.finite 0) = false := by
        cases hb : le b (.finite 0) with
        | false => rfl
        | true => rw [le_trans h hb] at ha; cases ha
      rwa [max_zero_of_not_le hanan ha, max_zero_of_not_le hbnan hb]

/-- **The more is taken, the less is left.** -/
theorem remainder_antitone {limit a b : FloatValue} (ha : le (.finite 0) a = true)
    (hab : le a b = true) :
    le (max (sub limit b) (.finite 0)) (max (sub limit a) (.finite 0)) = true := by
  rcases eq_of_zero_le (le_trans ha hab) with ⟨r, hr, rfl⟩ | rfl
  · rcases eq_of_zero_le ha with ⟨q, hq, rfl⟩ | rfl
    · have hqr : q ≤ r := of_decide_eq_true hab
      cases limit with
      | nan => exact le_refl_of_ne_nan (by simp [sub, add, max])
      | infinite negative =>
          cases negative <;> exact le_refl_of_ne_nan (by simp [sub, add, neg, max, le])
      | finite l =>
          rw [sub, neg, add, sub, neg, add]
          rcases le_total 0 (l + -r) with hleft | hspent
          · exact max_zero_mono (le_toBinary64 hleft (by linarith))
          · rw [max_zero_of_le (toBinary64_le_zero hspent)]
            exact zero_le_max_zero _
    · cases hab
  · -- an infinite amount leaves nothing
    have hnone : max (sub limit (.infinite false)) (.finite 0) = .finite 0 := by
      cases limit with
      | nan => rfl
      | finite q => rfl
      | infinite negative => cases negative <;> rfl
    rw [hnone]
    exact zero_le_max_zero (sub limit a)

/-- Something is left of a limit above zero of which nothing is taken. -/
theorem remainder_zero {limit : FloatValue} (hvalue : IsValue limit)
    (hlimit : lt (.finite 0) limit = true) :
    le (max (sub limit (.finite 0)) (.finite 0)) (.finite 0) = false := by
  cases limit with
  | nan => cases hlimit
  | infinite negative => cases negative <;> first | rfl | cases hlimit
  | finite q =>
      have hpos : 0 < q := by
        rw [lt, Bool.and_eq_true] at hlimit
        refine lt_of_le_of_ne (of_decide_eq_true hlimit.1) ?_
        rintro rfl
        exact absurd rfl (of_decide_eq_true hlimit.2)
      have hnot : le (.finite q) (.finite 0) = false := decide_eq_false (not_le.2 hpos)
      rw [sub, neg, add, neg_zero, add_zero, show toBinary64 q = .finite q from hvalue,
        max_zero_of_not_le (by simp) hnot]
      exact hnot

end AiApiBridge.FloatValue
