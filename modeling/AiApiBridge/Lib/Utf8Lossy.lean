import Mathlib.Data.List.Sort

/-!
# Lossy UTF-8 decoding

`decodeLossy` decodes a byte string, replacing every maximal ill-formed
subsequence by one U+FFFD, as `String::from_utf8_lossy` does. The byte ranges
are those of the well-formed sequences: the second byte of a three- or
four-byte sequence is narrowed for the leading bytes `E0`, `ED`, `F0` and `F4`.
Well-formed input is decoded to the text it encodes (`decodeLossy_encode`).
-/

set_option autoImplicit false

namespace AiApiBridge.Utf8Lossy

/-- The replacement character. -/
def replacement : Char := Char.ofNat 0xFFFD

/-- A continuation byte. -/
def isTail (b : UInt8) : Bool := 0x80 ≤ b && b ≤ 0xBF

/-- Whether `b` may follow the leading byte `lead` of a three-byte sequence. -/
def isSecondOf3 (lead b : UInt8) : Bool :=
  (lead == 0xE0 && 0xA0 ≤ b && b ≤ 0xBF) || (0xE1 ≤ lead && lead ≤ 0xEC && isTail b) ||
    (lead == 0xED && 0x80 ≤ b && b ≤ 0x9F) || (0xEE ≤ lead && lead ≤ 0xEF && isTail b)

/-- Whether `b` may follow the leading byte `lead` of a four-byte sequence. -/
def isSecondOf4 (lead b : UInt8) : Bool :=
  (lead == 0xF0 && 0x90 ≤ b && b ≤ 0xBF) || (0xF1 ≤ lead && lead ≤ 0xF3 && isTail b) ||
    (lead == 0xF4 && 0x80 ≤ b && b ≤ 0x8F)

/-- The six payload bits of a continuation byte. -/
def tailBits (b : UInt8) : Nat := b.toNat % 64

/-- The scalar of a two-byte sequence. -/
def char2 (a b : UInt8) : Char := Char.ofNat (a.toNat % 32 * 64 + tailBits b)

/-- The scalar of a three-byte sequence. -/
def char3 (a b c : UInt8) : Char :=
  Char.ofNat (a.toNat % 16 * 4096 + tailBits b * 64 + tailBits c)

/-- The scalar of a four-byte sequence. -/
def char4 (a b c d : UInt8) : Char :=
  Char.ofNat (a.toNat % 8 * 262144 + tailBits b * 4096 + tailBits c * 64 + tailBits d)

/-- Decode byte by byte. A sequence that breaks off gives one replacement
character for the bytes it had matched, and decoding resumes at the byte that
broke it. -/
def decodeLossy : List UInt8 → List Char
  | [] => []
  | a :: bs =>
      if a < 0x80 then Char.ofNat a.toNat :: decodeLossy bs
      else if 0xC2 ≤ a && a ≤ 0xDF then
        match bs with
        | [] => [replacement]
        | b :: cs =>
            if isTail b then char2 a b :: decodeLossy cs else replacement :: decodeLossy (b :: cs)
      else if 0xE0 ≤ a && a ≤ 0xEF then
        match bs with
        | [] => [replacement]
        | b :: cs =>
            if isSecondOf3 a b then
              match cs with
              | [] => [replacement]
              | c :: ds =>
                  if isTail c then char3 a b c :: decodeLossy ds
                  else replacement :: decodeLossy (c :: ds)
            else replacement :: decodeLossy (b :: cs)
      else if 0xF0 ≤ a && a ≤ 0xF4 then
        match bs with
        | [] => [replacement]
        | b :: cs =>
            if isSecondOf4 a b then
              match cs with
              | [] => [replacement]
              | c :: ds =>
                  if isTail c then
                    match ds with
                    | [] => [replacement]
                    | d :: es =>
                        if isTail d then char4 a b c d :: decodeLossy es
                        else replacement :: decodeLossy (d :: es)
                  else replacement :: decodeLossy (c :: ds)
            else replacement :: decodeLossy (b :: cs)
      else replacement :: decodeLossy bs

/-- `String::from_utf8_lossy`. -/
def fromUtf8Lossy (bytes : List UInt8) : String := String.ofList (decodeLossy bytes)

/-- A truncated `E4 BD` is one replacement character; the byte `FF` another. -/
example : decodeLossy [0x61, 0xE4, 0xBD, 0x62, 0xFF] = ['a', replacement, 'b', replacement] := by
  decide

example : decodeLossy [0xE4, 0xBD, 0xA0] = ['你'] := by decide

/-! ## Decoding well-formed sequences -/

theorem decodeLossy_one {a : UInt8} (ha : a.toNat < 0x80) (bs : List UInt8) :
    decodeLossy (a :: bs) = Char.ofNat a.toNat :: decodeLossy bs := by
  rw [decodeLossy.eq_def]
  simp [UInt8.lt_iff_toNat_lt, ha]

theorem isTail_iff (b : UInt8) : isTail b = true ↔ 0x80 ≤ b.toNat ∧ b.toNat ≤ 0xBF := by
  simp [isTail, UInt8.le_iff_toNat_le]

theorem isSecondOf3_iff (lead b : UInt8) : isSecondOf3 lead b = true ↔
    0xE0 ≤ lead.toNat ∧ lead.toNat ≤ 0xEF ∧ 0x80 ≤ b.toNat ∧ b.toNat ≤ 0xBF ∧
      (lead.toNat = 0xE0 → 0xA0 ≤ b.toNat) ∧ (lead.toNat = 0xED → b.toNat ≤ 0x9F) := by
  simp [isSecondOf3, isTail, UInt8.le_iff_toNat_le, ← UInt8.toNat_inj]
  omega

theorem isSecondOf4_iff (lead b : UInt8) : isSecondOf4 lead b = true ↔
    0xF0 ≤ lead.toNat ∧ lead.toNat ≤ 0xF4 ∧ 0x80 ≤ b.toNat ∧ b.toNat ≤ 0xBF ∧
      (lead.toNat = 0xF0 → 0x90 ≤ b.toNat) ∧ (lead.toNat = 0xF4 → b.toNat ≤ 0x8F) := by
  simp [isSecondOf4, isTail, UInt8.le_iff_toNat_le, ← UInt8.toNat_inj]
  omega

theorem not_leadsOne {a : UInt8} (h : 0x80 ≤ a.toNat) : ¬ a < 0x80 := by
  rw [UInt8.lt_iff_toNat_lt]
  simpa using h

/-- Whether a byte leads a sequence of two. -/
theorem leadsTwo_iff (a : UInt8) :
    (0xC2 ≤ a && a ≤ 0xDF) = true ↔ 0xC2 ≤ a.toNat ∧ a.toNat ≤ 0xDF := by
  simp [UInt8.le_iff_toNat_le]

theorem leadsThree_iff (a : UInt8) :
    (0xE0 ≤ a && a ≤ 0xEF) = true ↔ 0xE0 ≤ a.toNat ∧ a.toNat ≤ 0xEF := by
  simp [UInt8.le_iff_toNat_le]

theorem leadsFour_iff (a : UInt8) :
    (0xF0 ≤ a && a ≤ 0xF4) = true ↔ 0xF0 ≤ a.toNat ∧ a.toNat ≤ 0xF4 := by
  simp [UInt8.le_iff_toNat_le]

theorem decodeLossy_two {a b : UInt8} (ha : 0xC2 ≤ a.toNat ∧ a.toNat ≤ 0xDF)
    (hb : isTail b = true) (bs : List UInt8) :
    decodeLossy (a :: b :: bs) = char2 a b :: decodeLossy bs := by
  rw [decodeLossy.eq_def]
  simp only []
  rw [if_neg (not_leadsOne (by omega)), if_pos ((leadsTwo_iff a).2 ha), if_pos hb]

theorem decodeLossy_three {a b c : UInt8} (hb : isSecondOf3 a b = true) (hc : isTail c = true)
    (bs : List UInt8) : decodeLossy (a :: b :: c :: bs) = char3 a b c :: decodeLossy bs := by
  obtain ⟨hlo, hhi, -⟩ := (isSecondOf3_iff a b).1 hb
  have htwo : ¬ (0xC2 ≤ a && a ≤ 0xDF) = true := by
    rw [leadsTwo_iff]
    omega
  rw [decodeLossy.eq_def]
  simp only []
  rw [if_neg (not_leadsOne (by omega)), if_neg htwo, if_pos ((leadsThree_iff a).2 ⟨hlo, hhi⟩),
    if_pos hb, if_pos hc]

theorem decodeLossy_four {a b c d : UInt8} (hb : isSecondOf4 a b = true) (hc : isTail c = true)
    (hd : isTail d = true) (bs : List UInt8) :
    decodeLossy (a :: b :: c :: d :: bs) = char4 a b c d :: decodeLossy bs := by
  obtain ⟨hlo, hhi, -⟩ := (isSecondOf4_iff a b).1 hb
  have htwo : ¬ (0xC2 ≤ a && a ≤ 0xDF) = true := by
    rw [leadsTwo_iff]
    omega
  have hthree : ¬ (0xE0 ≤ a && a ≤ 0xEF) = true := by
    rw [leadsThree_iff]
    omega
  rw [decodeLossy.eq_def]
  simp only []
  rw [if_neg (not_leadsOne (by omega)), if_neg htwo, if_neg hthree,
    if_pos ((leadsFour_iff a).2 ⟨hlo, hhi⟩), if_pos hb, if_pos hc, if_pos hd]

/-! ## Encoding -/

/-- The UTF-8 bytes of a text. -/
def encode (cs : List Char) : List UInt8 := cs.flatMap String.utf8EncodeChar

/-- A byte of the encoding. -/
theorem toNat_ofNat {n : Nat} (h : n < 256) : (UInt8.ofNat n).toNat = n := by
  rw [UInt8.toNat_ofNat', Nat.mod_eq_of_lt h]

theorem decodeLossy_encodeChar (c : Char) (bs : List UInt8) :
    decodeLossy (String.utf8EncodeChar c ++ bs) = c :: decodeLossy bs := by
  have hv : c.toNat < 0xD800 ∨ 0xDFFF < c.toNat ∧ c.toNat < 0x110000 := c.valid
  have hback : Char.ofNat c.toNat = c := Char.ofNat_toNat c
  -- every byte behind the first is a tail byte, with six bits of the code point
  have htail : ∀ n, isTail (UInt8.ofNat (n % 0x40 + 0x80)) = true := by
    intro n
    rw [isTail_iff, toNat_ofNat (by omega)]
    omega
  have htailBits : ∀ n, tailBits (UInt8.ofNat (n % 0x40 + 0x80)) = n % 64 := by
    intro n
    rw [tailBits, toNat_ofNat (by omega)]
    omega
  simp only [String.utf8EncodeChar, ← Char.toNat_val] at *
  -- the encoding goes by the size of the code point: one to four bytes
  generalize hn : c.val.toNat = n at *
  split
  · rw [List.singleton_append, decodeLossy_one (by rw [toNat_ofNat] <;> omega),
      toNat_ofNat (by omega), hback]
  · split
    · rw [List.cons_append, List.cons_append, List.nil_append, decodeLossy_two _ (htail n)]
      · rw [char2, htailBits, toNat_ofNat (by omega),
          show (n / 64 % 32 + 192) % 32 * 64 + n % 64 = n by omega, hback]
      · rw [toNat_ofNat (by omega)]
        omega
    · split
      · rw [List.cons_append, List.cons_append, List.cons_append, List.nil_append,
          decodeLossy_three _ (htail n)]
        · rw [char3, htailBits, htailBits, toNat_ofNat (by omega),
            show (n / 4096 % 16 + 224) % 16 * 4096 + n / 64 % 64 * 64 + n % 64 = n by omega, hback]
        · rw [isSecondOf3_iff, toNat_ofNat (by omega), toNat_ofNat (by omega)]
          omega
      · rw [List.cons_append, List.cons_append, List.cons_append, List.cons_append,
          List.nil_append, decodeLossy_four _ (htail (n / 64)) (htail n)]
        · rw [char4, htailBits, htailBits, htailBits, toNat_ofNat (by omega),
            show (n / 262144 % 8 + 240) % 8 * 262144 + n / 4096 % 64 * 4096 + n / 64 % 64 * 64 +
              n % 64 = n by omega, hback]
        · rw [isSecondOf4_iff, toNat_ofNat (by omega), toNat_ofNat (by omega)]
          omega

/-- **Decoding undoes encoding.** -/
theorem decodeLossy_encode (cs : List Char) : decodeLossy (encode cs) = cs := by
  induction cs with
  | nil => rfl
  | cons c cs ih =>
      have hsplit : encode (c :: cs) = String.utf8EncodeChar c ++ encode cs := List.flatMap_cons
      rw [hsplit, decodeLossy_encodeChar, ih]

/-- An ASCII byte in the encoding is that character. -/
theorem mem_encode_of_lt {cs : List Char} {b : UInt8} (h : b ∈ encode cs) (hb : b.toNat < 0x80) :
    Char.ofNat b.toNat ∈ cs := by
  obtain ⟨c, hc, hmem⟩ := List.mem_flatMap.1 h
  have hv : c.toNat < 0xD800 ∨ 0xDFFF < c.toNat ∧ c.toNat < 0x110000 := c.valid
  have hback : Char.ofNat c.toNat = c := Char.ofNat_toNat c
  have hlarge : ∀ n, 0x80 ≤ n → n < 256 → b ≠ UInt8.ofNat n := by
    rintro n hn hn' rfl
    rw [toNat_ofNat hn'] at hb
    omega
  simp only [String.utf8EncodeChar, ← Char.toNat_val] at hmem hv hback
  generalize hn : c.val.toNat = n at *
  split at hmem
  · rw [List.mem_singleton.1 hmem, toNat_ofNat (by omega), hback]
    exact hc
  · -- every byte of a longer sequence has its high bit set
    exfalso
    split at hmem
    · simp only [List.mem_cons, List.not_mem_nil, or_false] at hmem
      rcases hmem with h | h <;> exact hlarge _ (by omega) (by omega) h
    · split at hmem
      · simp only [List.mem_cons, List.not_mem_nil, or_false] at hmem
        rcases hmem with h | h | h <;> exact hlarge _ (by omega) (by omega) h
      · simp only [List.mem_cons, List.not_mem_nil, or_false] at hmem
        rcases hmem with h | h | h | h <;> exact hlarge _ (by omega) (by omega) h

end AiApiBridge.Utf8Lossy
