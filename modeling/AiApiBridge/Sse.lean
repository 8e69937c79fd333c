import AiApiBridge.Lib.Framing
import AiApiBridge.Lib.Utf8Lossy

/-!
# The SSE decoder of upstream byte streams

`SseDecoder.push` appends a chunk of bytes to the buffer and cuts off every
complete event block. A block ends at the first `\n\n` or `\r\n\r\n`, whichever
`findSeparator` meets first, and is decoded as UTF-8 only when it is complete.

The search looks at most four bytes ahead, so it is a framer in the sense of
`Lib.Framing` (`findSeparator_framer`) and the items a stream yields do not
depend on how the network cut it (`feed_eq_of_flatten_eq`).
-/

set_option autoImplicit false

namespace AiApiBridge

/-- The decoder state: the bytes not yet part of a complete event. -/
structure SseDecoder where
  buf : List UInt8
  deriving DecidableEq, Repr

inductive SseItem where
  | data (text : String)
  | done
  deriving DecidableEq, Repr

namespace Sse

/-- The line feed. -/
def lf : UInt8 := 10

/-- The carriage return. -/
def cr : UInt8 := 13

/-- Whether a `\r\n\r\n` starts here. -/
def startsCrlfCrlf : List UInt8 → Bool
  | a :: b :: c :: d :: _ => a == cr && b == lf && c == cr && d == lf
  | _ => false

/-- The search loop, `i` bytes into the buffer. -/
def findSeparatorFrom (i : Nat) : List UInt8 → Option (Nat × Nat)
  | a :: b :: rest =>
      if a == lf && b == lf then some (i, 2)
      else if startsCrlfCrlf (a :: b :: rest) then some (i, 4)
      else findSeparatorFrom (i + 1) (b :: rest)
  | _ => none

/-- The first event separator: its offset and its length. -/
def findSeparator (buf : List UInt8) : Option (Nat × Nat) := findSeparatorFrom 0 buf

/-- The characters `str::trim` removes (Unicode `White_Space`). -/
def isWhitespace (c : Char) : Bool :=
  (0x9 ≤ c.toNat && c.toNat ≤ 0xD) || c.toNat == 0x20 || c.toNat == 0x85 || c.toNat == 0xA0 ||
    c.toNat == 0x1680 || (0x2000 ≤ c.toNat && c.toNat ≤ 0x200A) || c.toNat == 0x2028 ||
    c.toNat == 0x2029 || c.toNat == 0x202F || c.toNat == 0x205F || c.toNat == 0x3000

/-- `str::trim`. -/
def trim (cs : List Char) : List Char :=
  ((cs.dropWhile isWhitespace).reverse.dropWhile isWhitespace).reverse

/-- The lines of a block: `split('\n')`. -/
def splitLines : List Char → List (List Char)
  | [] => [[]]
  | c :: cs =>
      if c = '\n' then [] :: splitLines cs
      else match splitLines cs with
        | [] => [[c]]
        | l :: ls => (c :: l) :: ls

/-- Drop one trailing `\r`. -/
def stripCr (line : List Char) : List Char :=
  if line.getLast? = some '\r' then line.dropLast else line

/-- The rest of a line after `pre`. -/
def stripPrefix (pre line : List Char) : Option (List Char) :=
  if pre.isPrefixOf line then some (line.drop pre.length) else none

/-- Add one line to the data gathered so far. Lines other than `data:` lines are
ignored. -/
def addLine (data rawLine : List Char) : List Char :=
  match stripPrefix ['d', 'a', 't', 'a', ':'] (stripCr rawLine) with
  | none => data
  | some rest =>
      let rest := (stripPrefix [' '] rest).getD rest
      (if data = [] then data else data ++ ['\n']) ++ rest

/-- The item an event block stands for, if any. -/
def parseEventBlock (block : List Char) : Option SseItem :=
  let data := (splitLines block).foldl addLine []
  if data = [] then none
  else if trim data = ['[', 'D', 'O', 'N', 'E', ']'] then some .done
  else some (.data (String.ofList data))

/-- Decode and parse one complete block. -/
def decodeBlock (bytes : List UInt8) : Option SseItem :=
  parseEventBlock (Utf8Lossy.decodeLossy bytes)

end Sse

namespace SseDecoder

open Sse

/-- A fresh decoder. -/
def new : SseDecoder := ⟨[]⟩

/-- Feed a chunk of bytes: whatever complete events are now available. -/
def push (d : SseDecoder) (chunk : List UInt8) : SseDecoder × List SseItem :=
  let r := Framing.drain findSeparator decodeBlock (d.buf ++ chunk)
  (⟨r.2⟩, r.1)

/-- Push a sequence of chunks, collecting the items. -/
def feed (d : SseDecoder) (chunks : List (List UInt8)) : SseDecoder × List SseItem :=
  match chunks with
  | [] => (d, [])
  | c :: cs =>
      let r := d.push c
      let r' := feed r.1 cs
      (r'.1, r.2 ++ r'.2)

end SseDecoder

namespace Sse

/-! ## The separator search is a framer -/

theorem findSeparatorFrom_bounds : ∀ (buf : List UInt8) (i : Nat) {pos len : Nat},
    findSeparatorFrom i buf = some (pos, len) →
      0 < len ∧ i ≤ pos ∧ pos + len ≤ i + buf.length
  | a :: b :: rest, i, pos, len, h => by
      rw [findSeparatorFrom] at h
      split at h
      · simp only [Option.some.injEq, Prod.mk.injEq] at h
        rcases h with ⟨rfl, rfl⟩
        simp
      · split at h
        · rename_i hs
          simp only [Option.some.injEq, Prod.mk.injEq] at h
          rcases h with ⟨rfl, rfl⟩
          match rest, hs with
          | c :: d :: _, _ => simp
        · have ih := findSeparatorFrom_bounds (b :: rest) (i + 1) h
          simp only [List.length_cons] at ih ⊢
          omega
  | [], i, pos, len, h => by simp [findSeparatorFrom] at h
  | [a], i, pos, len, h => by simp [findSeparatorFrom] at h

/-- A `\r\n\r\n` that only later input completes starts at or after the last
three bytes, and no `\n\n` lies behind such a start: its second byte would have
to be the `\r` in the middle. -/
theorem startsCrlfCrlf_append {buf more : List UInt8}
    (h : startsCrlfCrlf (buf ++ more) = true) :
    startsCrlfCrlf buf = true ∨ ∀ i, findSeparatorFrom i buf = none := by
  match buf with
  | a :: b :: c :: d :: rest => exact Or.inl h
  | [] => exact Or.inr fun i => rfl
  | [a] => exact Or.inr fun i => rfl
  | [a, b] =>
      -- fewer than four bytes: a separator that is completed later is not there yet
      apply Or.inr
      intro i
      cases more with
      | nil => simp [startsCrlfCrlf] at h
      | cons c more =>
          cases more with
          | nil => simp [startsCrlfCrlf] at h
          | cons d more =>
              simp only [List.cons_append, List.nil_append, startsCrlfCrlf, Bool.and_eq_true,
                beq_iff_eq] at h
              rcases h with ⟨⟨⟨rfl, rfl⟩, -⟩, -⟩
              simp [findSeparatorFrom, startsCrlfCrlf, cr, lf]
  | [a, b, c] =>
      apply Or.inr
      intro i
      cases more with
      | nil => simp [startsCrlfCrlf] at h
      | cons d more =>
          simp only [List.cons_append, List.nil_append, startsCrlfCrlf, Bool.and_eq_true,
            beq_iff_eq] at h
          rcases h with ⟨⟨⟨rfl, rfl⟩, rfl⟩, -⟩
          simp [findSeparatorFrom, startsCrlfCrlf, cr, lf]

/-- A separator found in a buffer is the one found after more input. -/
theorem findSeparatorFrom_stable : ∀ (buf : List UInt8) (i : Nat) {pos len : Nat},
    findSeparatorFrom i buf = some (pos, len) →
      ∀ more, findSeparatorFrom i (buf ++ more) = some (pos, len)
  | a :: b :: rest, i, pos, len, h, more => by
      have hfull := h
      rw [findSeparatorFrom] at h
      simp only [List.cons_append, findSeparatorFrom]
      split at h
      · rename_i hlf
        simpa [hlf] using h
      · rename_i hlf
        split at h
        · rename_i hs
          have hs' : startsCrlfCrlf (a :: b :: (rest ++ more)) = true := by
            match rest, hs with
            | c :: d :: _, hs => exact hs
          simpa [hlf, hs'] using h
        · rename_i hs
          have hs' : startsCrlfCrlf (a :: b :: (rest ++ more)) ≠ true := by
            -- a long separator that only the new bytes complete would begin with no
            -- separator in `buf`
            intro hnew
            rcases @startsCrlfCrlf_append (a :: b :: rest) more hnew with h1 | h1
            · exact hs h1
            · rw [h1 i] at hfull
              cases hfull
          have ih := findSeparatorFrom_stable (b :: rest) (i + 1) h more
          simpa [hlf, hs'] using ih
  | [], i, pos, len, h, more => by simp [findSeparatorFrom] at h
  | [a], i, pos, len, h, more => by simp [findSeparatorFrom] at h

/-- **The separator search satisfies the framer laws.** -/
theorem findSeparator_framer : Framing.Framer findSeparator where
  bounds := fun {buf _ _} h => by
    have := findSeparatorFrom_bounds buf 0 h
    omega
  stable := fun {buf _ _} h more => findSeparatorFrom_stable buf 0 h more

end Sse

namespace SseDecoder

open Sse

theorem feed_eq_framing (chunks : List (List UInt8)) (d : SseDecoder) :
    d.feed chunks =
      (⟨(Framing.feed findSeparator decodeBlock d.buf chunks).2⟩,
        (Framing.feed findSeparator decodeBlock d.buf chunks).1) := by
  induction chunks generalizing d with
  | nil => rfl
  | cons c cs ih => simp [feed, push, Framing.feed, Framing.push, ih]

/-- **Chunk invariance of the decoder.** However a byte sequence is cut, a fresh
decoder yields the same items and keeps the same rest. -/
theorem feed_new_eq_of_flatten_eq (chunks chunks' : List (List UInt8))
    (h : chunks.flatten = chunks'.flatten) :
    SseDecoder.new.feed chunks = SseDecoder.new.feed chunks' := by
  have hempty : Framing.drain findSeparator decodeBlock [] = ([], []) := rfl
  rw [feed_eq_framing, feed_eq_framing, new,
    Framing.feed_eq_of_flatten_eq decodeBlock findSeparator_framer [] hempty h]

/-- Two events cut inside the separator of the first and inside a multibyte
character of the second. -/
theorem feed_new_split_separator :
    SseDecoder.new.feed
        [[100, 97, 116, 97, 58, 97, 10], [], [10, 100, 97, 116, 97, 58, 0xE4, 0xBD],
          [0xA0, 13, 10, 13], [10]] =
      SseDecoder.new.feed
        [[100, 97, 116, 97, 58, 97, 10, 10, 100, 97, 116, 97, 58, 0xE4, 0xBD, 0xA0, 13, 10, 13,
          10]] :=
  feed_new_eq_of_flatten_eq _ _ rfl

end SseDecoder

end AiApiBridge
