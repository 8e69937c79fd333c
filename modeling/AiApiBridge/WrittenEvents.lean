import AiApiBridge.RunStream
import Mathlib.Data.List.DropRight

/-!
# Written events

What an upstream writes: data events with one line each, their line ends LF or CRLF, and
perhaps a `[DONE]` event with anything behind it. However the bytes are cut, the decoder
reads the events back as they were written (`signals_writeStream`).
-/

set_option autoImplicit false

namespace AiApiBridge.Sse

open Utf8Lossy (encode decodeLossy_encode mem_encode_of_lt)

/-! ## Writing -/

/-- How an event is written: whether a space follows the colon, and its line ends. -/
structure EventStyle where
  space : Bool
  crlf : Bool
  deriving DecidableEq, Repr

/-- The end of the line and the empty line behind it. -/
def EventStyle.separator (style : EventStyle) : List UInt8 :=
  if style.crlf then [cr, lf, cr, lf] else [lf, lf]

/-- The line of a data event. -/
def dataLine (style : EventStyle) (data : List Char) : List Char :=
  ['d', 'a', 't', 'a', ':'] ++ (if style.space then [' '] else []) ++ data

/-- A data event. -/
def writeEvent (style : EventStyle) (data : String) : List UInt8 :=
  encode (dataLine style data.toList) ++ style.separator

/-- What an upstream writes behind its chunks: nothing, or `[DONE]` and anything. -/
def writeEnding : Option (EventStyle × List UInt8) → List UInt8
  | none => []
  | some (style, rest) => writeEvent style "[DONE]" ++ rest

/-- A text that fits on the line of a data event and is not taken for its padding. -/
structure OnOneLine (data : String) : Prop where
  noLf : '\n' ∉ data.toList
  noCr : '\r' ∉ data.toList
  noSpace : data.toList.head? ≠ some ' '
  nonempty : data.toList ≠ []

/-! ## Reading one event -/

theorem splitLines_of_notMem {cs : List Char} (h : '\n' ∉ cs) : splitLines cs = [cs] := by
  induction cs with
  | nil => rfl
  | cons c cs ih =>
      rw [List.mem_cons, not_or] at h
      rw [splitLines, if_neg fun hc => h.1 hc.symm, ih h.2]

theorem stripCr_of_notMem {cs : List Char} (h : '\r' ∉ cs) : stripCr cs = cs := by
  rw [stripCr, if_neg]
  intro hlast
  exact h (List.mem_of_getLast? hlast)

theorem stripPrefix_append (pre cs : List Char) : stripPrefix pre (pre ++ cs) = some cs := by
  simp [stripPrefix]

theorem notMem_dataLine {c : Char} {style : EventStyle} {data : List Char}
    (hc : c ∉ ['d', 'a', 't', 'a', ':', ' ']) (h : c ∉ data) : c ∉ dataLine style data := by
  simp only [List.mem_cons, List.not_mem_nil, or_false, not_or] at hc
  rcases hc with ⟨h1, h2, h3, -, h5, h6⟩
  cases hs : style.space <;> simp [dataLine, hs, h, h1, h2, h3, h5, h6]

/-- **The block of an event** stands for its data. -/
theorem decodeBlock_dataLine (style : EventStyle) {data : String} (h : OnOneLine data) :
    decodeBlock (encode (dataLine style data.toList)) =
      if trim data.toList = ['[', 'D', 'O', 'N', 'E', ']'] then some .done
      else some (.data data) := by
  have hrest : (stripPrefix [' '] ((if style.space then [' '] else []) ++ data.toList)).getD
      ((if style.space then [' '] else []) ++ data.toList) = data.toList := by
    cases hs : style.space with
    | true => simp [stripPrefix]
    | false =>
        -- without the space the data must not begin with one
        have hnone : stripPrefix [' '] data.toList = none := by
          have hspace := h.noSpace
          cases hd : data.toList with
          | nil => rfl
          | cons c cs =>
              rw [hd, List.head?_cons, ne_eq, Option.some.injEq] at hspace
              rw [stripPrefix, if_neg]
              simpa using fun heq => hspace heq.symm
        simp [hnone]
  -- the one line of the block is all its data
  have hdata : addLine [] (dataLine style data.toList) = data.toList := by
    rw [addLine, stripCr_of_notMem (notMem_dataLine (by decide) h.noCr), dataLine,
      List.append_assoc, stripPrefix_append]
    simp only [hrest]
    rfl
  rw [decodeBlock, decodeLossy_encode, parseEventBlock,
    splitLines_of_notMem (notMem_dataLine (by decide) h.noLf), List.foldl_cons, List.foldl_nil,
    hdata]
  simp only [h.nonempty, if_false, String.ofList_toList]

/-- Trimming does not take the first character of a text that starts with another one. -/
theorem trim_ne_done {cs : List Char} (h : cs.head? = some '\x7b') :
    trim cs ≠ ['[', 'D', 'O', 'N', 'E', ']'] := by
  intro heq
  cases cs with
  | nil => cases h
  | cons c cs =>
      obtain rfl : c = '\x7b' := by simpa using h
      have hdrop : ('\x7b' :: cs).dropWhile isWhitespace = '\x7b' :: cs := rfl
      have hpre : trim ('\x7b' :: cs) <+: '\x7b' :: cs := by
        rw [trim, hdrop]
        exact List.rdropWhile_prefix isWhitespace ('\x7b' :: cs)
      rw [heq, List.cons_prefix_cons] at hpre
      exact absurd hpre.1 (by decide)

/-! ## Finding the separator -/

/-- **No separator starts on a line** that is not over, unless the line feed behind it is
followed by a carriage return. -/
theorem findSeparatorFrom_line {line : List UInt8} (h : lf ∉ line) {more : List UInt8}
    (hne : more ≠ []) (hmore : ∀ tail, more ≠ lf :: cr :: tail) (i : Nat) :
    findSeparatorFrom i (line ++ more) = findSeparatorFrom (i + line.length) more := by
  induction line generalizing i with
  | nil => rfl
  | cons a line ih =>
      rw [List.mem_cons, not_or] at h
      rcases h with ⟨ha, hline⟩
      have hnlf : (a == lf) = false := beq_false_of_ne fun heq => ha heq.symm
      have hstarts : startsCrlfCrlf (a :: (line ++ more)) = false := by
        cases line with
        | nil =>
            -- the carriage return of a long separator may be the last byte of the line
            rcases more with _ | ⟨b, _ | ⟨c, _ | ⟨d, tail⟩⟩⟩
            · rfl
            · rfl
            · rfl
            · by_cases hb : b = lf
              · have hc : c ≠ cr := by
                  rintro rfl
                  exact hmore _ (by rw [hb])
                simp [startsCrlfCrlf, hc]
              · simp [startsCrlfCrlf, hb]
        | cons b line =>
            have hb : b ≠ lf := by
              rintro rfl
              exact hline List.mem_cons_self
            rcases hrest : line ++ more with _ | ⟨c, _ | ⟨d, tail⟩⟩ <;>
              simp [hrest, startsCrlfCrlf, hb]
      obtain ⟨b, tail, htail⟩ : ∃ b tail, line ++ more = b :: tail :=
        List.exists_cons_of_ne_nil (List.append_ne_nil_of_right_ne_nil line hne)
      have hnext := ih hline (i + 1)
      rw [List.cons_append, htail]
      rw [htail] at hstarts hnext
      rw [findSeparatorFrom, if_neg (by simp [hnlf]), if_neg (by simp [hstarts]), hnext,
        List.length_cons, Nat.add_assoc, Nat.add_comm 1]

theorem findSeparatorFrom_separator (style : EventStyle) {block : List UInt8} (h : lf ∉ block)
    (rest : List UInt8) (i : Nat) :
    findSeparatorFrom i (block ++ style.separator ++ rest) =
      some (i + block.length, style.separator.length) := by
  rw [List.append_assoc, findSeparatorFrom_line h]
  · cases hs : style.crlf <;> simp [EventStyle.separator, hs, findSeparatorFrom, startsCrlfCrlf,
      cr, lf]
  · cases hs : style.crlf <;> simp [EventStyle.separator, hs]
  · cases hs : style.crlf <;> simp [EventStyle.separator, hs, cr, lf]

theorem findSeparator_separator (style : EventStyle) {block : List UInt8} (h : lf ∉ block)
    (rest : List UInt8) :
    findSeparator (block ++ style.separator ++ rest) =
      some (block.length, style.separator.length) := by
  rw [findSeparator, findSeparatorFrom_separator style h, Nat.zero_add]

/-- A line has no line feed in its encoding. -/
theorem lf_notMem_encode {cs : List Char} (h : '\n' ∉ cs) : lf ∉ encode cs := by
  intro hmem
  exact h (mem_encode_of_lt hmem (by decide))

/-- **The first event of a buffer** is cut off and decoded. -/
theorem drain_writeEvent (style : EventStyle) {data : String} (h : OnOneLine data)
    (rest : List UInt8) :
    (Framing.drain findSeparator decodeBlock (writeEvent style data ++ rest)).1 =
      (decodeBlock (encode (dataLine style data.toList))).toList ++
        (Framing.drain findSeparator decodeBlock rest).1 := by
  have hline : '\n' ∉ dataLine style data.toList := notMem_dataLine (by decide) h.noLf
  have hfind := findSeparator_separator style (lf_notMem_encode hline) rest
  rw [writeEvent, Framing.drain_of_some decodeBlock findSeparator_framer hfind, List.append_assoc,
    List.take_left, ← List.append_assoc, ← List.length_append, List.drop_left]

/-! ## Reading a stream -/

/-- The text of a printed object: it starts with a brace and stays on one line. -/
structure PrintedObject (text : String) : Prop where
  brace : text.toList.head? = some '\x7b'
  noLf : '\n' ∉ text.toList
  noCr : '\r' ∉ text.toList

theorem PrintedObject.onOneLine {text : String} (h : PrintedObject text) : OnOneLine text where
  noLf := h.noLf
  noCr := h.noCr
  noSpace := by simp [h.brace]
  nonempty := by
    intro hnil
    have hbrace := h.brace
    rw [hnil] at hbrace
    cases hbrace

/-- The bytes of a stream of objects, each with its text. -/
def writeStream (texts : List (EventStyle × String)) (ending : Option (EventStyle × List UInt8)) :
    List UInt8 :=
  texts.flatMap (fun e => writeEvent e.1 e.2) ++ writeEnding ending

/-- The items of what an upstream writes behind its chunks. -/
def endingItems : Option (EventStyle × List UInt8) → List SseItem
  | none => []
  | some (_, rest) => .done :: (Framing.drain findSeparator decodeBlock rest).1

theorem drain_writeEnding (ending : Option (EventStyle × List UInt8)) :
    (Framing.drain findSeparator decodeBlock (writeEnding ending)).1 = endingItems ending := by
  cases ending with
  | none => rfl
  | some e =>
      rcases e with ⟨style, rest⟩
      have hline : OnOneLine "[DONE]" := ⟨by decide, by decide, by decide, by decide⟩
      rw [writeEnding, drain_writeEvent style hline rest, decodeBlock_dataLine style hline,
        if_pos (by decide)]
      rfl

theorem drain_writeStream {texts : List (EventStyle × String)}
    (h : ∀ e ∈ texts, PrintedObject e.2) (ending : Option (EventStyle × List UInt8)) :
    (Framing.drain findSeparator decodeBlock (writeStream texts ending)).1 =
      texts.map (fun e => .data e.2) ++ endingItems ending := by
  induction texts with
  | nil => exact drain_writeEnding ending
  | cons e texts ih =>
      have hprinted := h e List.mem_cons_self
      have hrest := ih fun e' he' => h e' (List.mem_cons_of_mem e he')
      have hsplit : writeStream (e :: texts) ending =
          writeEvent e.1 e.2 ++ writeStream texts ending := by
        simp [writeStream]
      rw [hsplit, drain_writeEvent e.1 hprinted.onOneLine, hrest,
        decodeBlock_dataLine e.1 hprinted.onOneLine, if_neg (trim_ne_done hprinted.brace)]
      rfl

/-- The signals of an upstream without transport errors. -/
theorem signals_ok (pieces : List (List UInt8)) :
    signals (pieces.map .ok) =
      (Framing.drain findSeparator decodeBlock pieces.flatten).1.map .item := by
  have hrun : ∀ (d : SseDecoder), (Transducer.run decodeChunk d (pieces.map .ok)).2 =
      (d.feed pieces).2.map .item := by
    induction pieces with
    | nil => intro d; rfl
    | cons bytes pieces ih =>
        intro d
        rw [List.map_cons, Transducer.run_cons, SseDecoder.feed, List.map_append, ← ih]
        rfl
  have hempty : Framing.drain findSeparator decodeBlock [] = ([], []) := rfl
  rw [signals, hrun, SseDecoder.feed_eq_framing, SseDecoder.new,
    Framing.feed_eq_drain decodeBlock findSeparator_framer pieces [] hempty, List.nil_append]

/-- **A written stream is read back**, however its bytes are cut. -/
theorem signals_writeStream {texts : List (EventStyle × String)}
    (h : ∀ e ∈ texts, PrintedObject e.2) (ending : Option (EventStyle × List UInt8))
    {pieces : List (List UInt8)} (hpieces : pieces.flatten = writeStream texts ending) :
    signals (pieces.map .ok) =
      texts.map (fun e => .item (.data e.2)) ++ (endingItems ending).map .item := by
  rw [signals_ok, hpieces, drain_writeStream h, List.map_append, List.map_map]
  rfl

end AiApiBridge.Sse
