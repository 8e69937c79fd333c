import Mathlib.Data.Rat.Defs

/-!
# Floating-point values

A floating-point value is a rational, an infinity or a NaN; the sign of zero is
not kept. `FloatValue.roundTo` rounds a rational to the nearest value of a binary
format, ties to even, and `narrow` is a narrowing cast. `parseDecimal` reads the
decimal notation of a floating-point literal.
-/

set_option autoImplicit false

namespace AiApiBridge

/-- A floating-point value. -/
inductive FloatValue where
  | finite (q : Rat)
  | infinite (negative : Bool)
  | nan
  deriving DecidableEq, Repr

namespace FloatValue

/-- `2 ^ e` for an integer exponent. -/
def pow2 : Int → Rat
  | .ofNat n => 2 ^ n
  | .negSucc n => 1 / 2 ^ (n + 1)

/-- The magnitude of a rational. -/
def magnitude (q : Rat) : Rat := if q < 0 then -q else q

/-- The exponent `e` with `2 ^ e ≤ |q| < 2 ^ (e + 1)`, for `q ≠ 0`. -/
def binaryExponent (q : Rat) : Int :=
  let e : Int := (Nat.log2 q.num.natAbs : Int) - (Nat.log2 q.den : Int)
  if pow2 e ≤ magnitude q then e else e - 1

/-- The nearest integer, ties to even. -/
def roundHalfEven (q : Rat) : Int :=
  let f := q.floor
  let r := q - f
  if r < 1 / 2 then f
  else if 1 / 2 < r then f + 1
  else if f % 2 = 0 then f else f + 1

/-- The nearest value with the given number of significant bits, exponents from
`least` on and no finite value from `2 ^ limit` on; ties to even. -/
def roundTo (significant : Nat) (least limit : Int) (q : Rat) : FloatValue :=
  if q = 0 then .finite 0
  else
    let quantum := pow2 (max (binaryExponent q) least - (significant - 1))
    let r := roundHalfEven (q / quantum) * quantum
    if pow2 limit ≤ magnitude r then .infinite (decide (q < 0)) else .finite r

/-- The nearest binary32 value. -/
def toBinary32 (q : Rat) : FloatValue := roundTo 24 (-126) 128 q

/-- The nearest binary64 value. -/
def toBinary64 (q : Rat) : FloatValue := roundTo 53 (-1022) 1024 q

/-- A binary64 value cast to binary32. -/
def narrow : FloatValue → FloatValue
  | finite q => toBinary32 q
  | v => v

/-! ## Decimal notation -/

/-- The value of a digit string, read from the left. -/
def digitsValue (digits : List Char) : Nat :=
  digits.foldl (fun n c => 10 * n + (c.toNat - '0'.toNat)) 0

/-- An optional sign: whether it is a minus, and what follows. -/
def takeSign : List Char → Bool × List Char
  | '-' :: cs => (true, cs)
  | '+' :: cs => (false, cs)
  | cs => (false, cs)

/-- `mantissa * 10 ^ exponent`. -/
def scale10 (mantissa : Rat) (exponent : Int) : Rat :=
  match exponent with
  | .ofNat n => mantissa * 10 ^ n
  | .negSucc n => mantissa / 10 ^ (n + 1)

/-- The exponent part: nothing, or `e` with an optionally signed digit string. -/
def parseExponent : List Char → Option Int
  | [] => some 0
  | c :: cs =>
      if c = 'e' ∨ c = 'E' then
        let (negative, digits) := takeSign cs
        if digits ≠ [] ∧ digits.all Char.isDigit then
          some (if negative then -(digitsValue digits : Int) else digitsValue digits)
        else none
      else none

/-- Digits with at most one point and at least one digit, then an exponent. -/
def parseNumber (cs : List Char) : Option Rat :=
  let whole := cs.takeWhile Char.isDigit
  let rest := cs.dropWhile Char.isDigit
  let (fraction, rest) := match rest with
    | '.' :: rest => (rest.takeWhile Char.isDigit, rest.dropWhile Char.isDigit)
    | rest => ([], rest)
  if whole = [] ∧ fraction = [] then none
  else (parseExponent rest).map fun e =>
    scale10 (digitsValue (whole ++ fraction)) (e - fraction.length)

/-- `str::parse::<f64>`: the binary64 value nearest to the literal. -/
def parseDecimal (s : String) : Option FloatValue :=
  let (negative, cs) := takeSign s.toList
  let word := cs.map Char.toLower
  if word = "inf".toList ∨ word = "infinity".toList then some (.infinite negative)
  else if word = "nan".toList then some .nan
  else (parseNumber cs).map fun q => toBinary64 (if negative then -q else q)

example : parseDecimal "-12.50e1" = some (.finite (-125)) := by decide +kernel

example : parseDecimal "1e400" = some (.infinite false) := by decide +kernel

end FloatValue

end AiApiBridge
