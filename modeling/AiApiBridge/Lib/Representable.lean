import AiApiBridge.Lib.RoundingError

/-!
# Representable values

A value is representable in a binary format when it is an integer of few bits times a power
of two that is not too small. Representable values are not rounded (`roundTo_of_representable`),
and what rounding makes is representable, so that rounding twice is rounding once
(`roundTo_roundTo`).
-/

set_option autoImplicit false

namespace AiApiBridge.FloatValue

/-! ## The exponent of a rational -/

/-- A positive natural number lies between two powers of two. -/
theorem zpow_log2_le {n : Nat} (hn : n ≠ 0) :
    (2 : Rat) ^ (Nat.log2 n : Int) ≤ n ∧ (n : Rat) < 2 ^ ((Nat.log2 n : Int) + 1) := by
  have hle : 2 ^ Nat.log2 n ≤ n := Nat.log2_self_le hn
  have hlt : n < 2 ^ (Nat.log2 n + 1) := Nat.lt_log2_self
  constructor
  · rw [zpow_natCast]
    exact_mod_cast hle
  · have hcast : ((Nat.log2 n : Int) + 1) = ((Nat.log2 n + 1 : Nat) : Int) := by norm_cast
    rw [hcast, zpow_natCast]
    exact_mod_cast hlt

/-- **A rational lies between two powers of two**, the lower of which its exponent tells. -/
theorem binaryExponent_spec {q : Rat} (hq : q ≠ 0) :
    (2 : Rat) ^ binaryExponent q ≤ |q| ∧ |q| < 2 ^ (binaryExponent q + 1) := by
  have htwo : (2 : Rat) ≠ 0 := two_ne_zero
  have hnum : q.num.natAbs ≠ 0 := Int.natAbs_ne_zero.2 (Rat.num_ne_zero.2 hq)
  have hden : (0 : Rat) < q.den := by exact_mod_cast q.den_pos
  obtain ⟨hnlo, hnhi⟩ := zpow_log2_le hnum
  obtain ⟨hdlo, hdhi⟩ := zpow_log2_le q.den_ne_zero
  have habs : |q| = (q.num.natAbs : Rat) / q.den := by
    conv_lhs => rw [← Rat.num_div_den q]
    rw [abs_div, abs_of_pos hden, Nat.cast_natAbs, Int.cast_abs]
  -- the quotient of the powers is right up to a factor of two
  have hhi : |q| < 2 ^ ((Nat.log2 q.num.natAbs : Int) - Nat.log2 q.den + 1) := by
    have hsplit : ((Nat.log2 q.num.natAbs : Int) - Nat.log2 q.den + 1) =
        (Nat.log2 q.num.natAbs + 1) - Nat.log2 q.den := by ring
    rw [habs, div_lt_iff₀ hden, hsplit, zpow_sub₀ htwo]
    calc (q.num.natAbs : Rat) < 2 ^ ((Nat.log2 q.num.natAbs : Int) + 1) := hnhi
      _ = 2 ^ ((Nat.log2 q.num.natAbs : Int) + 1) / 2 ^ (Nat.log2 q.den : Int) *
            2 ^ (Nat.log2 q.den : Int) := by rw [div_mul_cancel₀ _ (zpow_ne_zero _ htwo)]
      _ ≤ _ := by gcongr
  have hlo : 2 ^ ((Nat.log2 q.num.natAbs : Int) - Nat.log2 q.den - 1) ≤ |q| := by
    have hsplit : ((Nat.log2 q.num.natAbs : Int) - Nat.log2 q.den - 1) =
        Nat.log2 q.num.natAbs - (Nat.log2 q.den + 1) := by ring
    rw [habs, le_div_iff₀ hden, hsplit, zpow_sub₀ htwo]
    calc 2 ^ (Nat.log2 q.num.natAbs : Int) / 2 ^ ((Nat.log2 q.den : Int) + 1) * (q.den : Rat)
        ≤ 2 ^ (Nat.log2 q.num.natAbs : Int) / 2 ^ ((Nat.log2 q.den : Int) + 1) *
            2 ^ ((Nat.log2 q.den : Int) + 1) := by gcongr
      _ = 2 ^ (Nat.log2 q.num.natAbs : Int) := by rw [div_mul_cancel₀ _ (zpow_ne_zero _ htwo)]
      _ ≤ _ := hnlo
  simp only [binaryExponent, pow2_eq_zpow, magnitude_eq_abs]
  split
  · exact ⟨‹_›, hhi⟩
  · rename_i hsmall
    refine ⟨hlo, ?_⟩
    rw [sub_add_cancel]
    exact not_le.1 hsmall

/-! ## Values of a format -/

/-- An integer of `significant` bits times a power of two from the least one on. -/
def Representable (significant : Nat) (least : Int) (q : Rat) : Prop :=
  ∃ (m : Int) (e : Int), q = m * 2 ^ e ∧ |m| < 2 ^ significant ∧ least - (significant - 1) ≤ e

/-- **A representable value is not rounded.** -/
theorem roundTo_of_representable {significant : Nat} {least limit : Int} {q : Rat}
    (h : Representable significant least q) (hlimit : |q| < 2 ^ limit) :
    roundTo significant least limit q = .finite q := by
  have htwo : (2 : Rat) ≠ 0 := two_ne_zero
  obtain ⟨m, e, hvalue, hm, he⟩ := h
  have hpower : (0 : Rat) < 2 ^ e := zpow_pos two_pos e
  by_cases hq : q = 0
  · rw [roundTo, if_pos hq, hq]
  -- the quantum is no greater than the power of two
  have hbelow : |q| < 2 ^ (significant + e) := by
    have hm' : |(m : Rat)| < 2 ^ significant := by exact_mod_cast hm
    rw [hvalue, abs_mul, abs_of_pos hpower, zpow_add₀ htwo, zpow_natCast]
    gcongr
  have hexp : binaryExponent q < significant + e :=
    (zpow_lt_zpow_iff_right₀ one_lt_two).1 ((binaryExponent_spec hq).1.trans_lt hbelow)
  obtain ⟨k, hk⟩ : ∃ k : Nat,
      e = Max.max (binaryExponent q) least - (significant - 1) + k :=
    ⟨(e - (Max.max (binaryExponent q) least - (significant - 1))).toNat, by omega⟩
  have hmultiple : (2 : Rat) ^ e =
      2 ^ (Max.max (binaryExponent q) least - (significant - 1)) * 2 ^ k := by
    rw [hk, zpow_add₀ htwo, zpow_natCast]
  apply roundTo_of_multiple hq (pow2_pos _).ne' (z := m * 2 ^ k)
  · calc q = m * 2 ^ e := hvalue
      _ = ((m * 2 ^ k : Int) : Rat) *
          2 ^ (Max.max (binaryExponent q) least - (significant - 1)) := by
        rw [hmultiple]
        push_cast
        ring
      _ = _ := by rw [pow2_eq_zpow]
  · rwa [magnitude_eq_abs, pow2_eq_zpow]

/-- The nearest integer to one between two integers lies between them, too. -/
theorem abs_roundHalfEven_le {q : Rat} {n : Nat} (h : |q| < n) : |roundHalfEven q| ≤ n := by
  have herror := abs_le.1 (abs_roundHalfEven_sub_le q)
  have hq := abs_lt.1 h
  have hlo : -(n : Rat) - 1 < roundHalfEven q := by linarith
  have hhi : (roundHalfEven q : Rat) < n + 1 := by linarith
  have hlo' : -(n : Int) - 1 < roundHalfEven q := by exact_mod_cast hlo
  have hhi' : roundHalfEven q < (n : Int) + 1 := by exact_mod_cast hhi
  rw [abs_le]
  omega

/-- **What rounding makes is representable.** -/
theorem representable_of_roundTo {significant : Nat} {least limit : Int} {q r : Rat}
    (hsignificant : 0 < significant) (h : roundTo significant least limit q = .finite r) :
    Representable significant least r ∧ (0 < limit → |r| < 2 ^ limit) := by
  have htwo : (2 : Rat) ≠ 0 := two_ne_zero
  by_cases hq : q = 0
  · rw [roundTo, if_pos hq] at h
    cases h
    refine ⟨⟨0, least, by simp, by simp, by omega⟩, fun _ => ?_⟩
    rw [abs_zero]
    positivity
  rw [roundTo, if_neg hq] at h
  dsimp only at h
  split at h
  · cases h
  rename_i hlimit
  cases h
  rw [magnitude_eq_abs, pow2_eq_zpow, not_le] at hlimit
  refine ⟨?_, fun _ => hlimit⟩
  obtain ⟨e, he⟩ : ∃ e, e = Max.max (binaryExponent q) least - (significant - 1 : Int) :=
    ⟨_, rfl⟩
  have hpower : (0 : Rat) < 2 ^ e := zpow_pos two_pos e
  rw [← he, pow2_eq_zpow]
  have hscaled : |q / 2 ^ e| < (2 ^ significant : Nat) := by
    have hupper : |q| < 2 ^ (significant + e) := by
      refine (binaryExponent_spec hq).2.trans_le ?_
      exact zpow_le_zpow_right₀ one_le_two (by omega)
    rw [abs_div, abs_of_pos hpower, div_lt_iff₀ hpower]
    rw [zpow_add₀ htwo, zpow_natCast] at hupper
    exact_mod_cast hupper
  have hm := abs_roundHalfEven_le hscaled
  rcases hm.lt_or_eq with hlt | heq
  · exact ⟨_, e, rfl, by exact_mod_cast hlt, by omega⟩
  -- rounded up to the next power of two
  have hhalf : ((2 ^ significant : Nat) : Int) = 2 ^ (significant - 1) * 2 := by
    rw [← pow_succ, Nat.sub_add_cancel hsignificant]
    norm_cast
  rw [hhalf] at heq
  have hlt : (2 : Int) ^ (significant - 1) < 2 ^ significant :=
    pow_lt_pow_right₀ one_lt_two (by omega)
  rcases abs_eq (by positivity) |>.1 heq with hpos | hneg
  · refine ⟨2 ^ (significant - 1), e + 1, ?_, ?_, by omega⟩
    · rw [hpos, zpow_add₀ htwo]
      push_cast
      ring
    · rwa [abs_of_pos (by positivity)]
  · refine ⟨-2 ^ (significant - 1), e + 1, ?_, ?_, by omega⟩
    · rw [hneg, zpow_add₀ htwo]
      push_cast
      ring
    · rwa [abs_neg, abs_of_pos (by positivity)]

/-- **Rounding twice is rounding once.** -/
theorem roundTo_roundTo {significant : Nat} {least limit : Int} {q r : Rat}
    (hsignificant : 0 < significant) (hlimit : 0 < limit)
    (h : roundTo significant least limit q = .finite r) :
    roundTo significant least limit r = .finite r := by
  obtain ⟨hrepresentable, hbelow⟩ := representable_of_roundTo hsignificant h
  exact roundTo_of_representable hrepresentable (hbelow hlimit)

/-- What a cast narrows to is a binary32 value. -/
theorem toBinary32_of_narrow {v : FloatValue} {r : Rat} (h : narrow v = .finite r) :
    toBinary32 r = .finite r := by
  cases v with
  | finite q => exact roundTo_roundTo (by decide) (by decide) h
  | infinite negative => cases h
  | nan => cases h

end AiApiBridge.FloatValue
