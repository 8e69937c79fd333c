import AiApiBridge.WrittenEvents

/-!
# Events of several lines

A payload is written as one event, a data line for each line of it, with event, id and
comment lines in between, and LF or CRLF for all line ends of the event. However the bytes
are cut, the decoder gives the payloads back, without the line feeds they begin with
(`feed_writtenEvents`).
-/

set_option autoImplicit false

namespace AiApiBridge.Sse

open Utf8Lossy (encode decodeLossy_encode mem_encode_of_lt)

/-! ## Writing -/

/-- A line of an event: one of the payload, or one that decoders skip. -/
inductive EventLine where
  | data (line : List Char)
  | skipped (line : List Char)

namespace EventLine

def text : EventLine → List Char
  | data line => ['d', 'a', 't', 'a', ':', ' '] ++ line
  | skipped line => line

/-- The line of the payload. -/
def data? : EventLine → Option (List Char)
  | data line => some line
  | skipped _ => none

end EventLine

/-- An event, a comment, an id: a line that is not blank and carries no data. -/
structure Skipped (line : List Char) : Prop where
  nonempty : line ≠ []
  noLf : '\n' ∉ line
  noLeadingCr : line.head? ≠ some '\r'
  noData : ¬ ['d', 'a', 't', 'a', ':'] <+: line

/-- A payload with the lines it is written on. -/
structure WrittenEvent where
  payload : String
  lines : List EventLine
  crlf : Bool
  noCr : '\r' ∉ payload.toList
  carries : lines.filterMap EventLine.data? = splitLines payload.toList
  skipped : ∀ line, EventLine.skipped line ∈ lines → Skipped line

/-- The end of a line. -/
def lineEnd (crlf : Bool) : List Char := if crlf then ['\r', '\n'] else ['\n']

/-- The lines of an event, without the end of the last one. -/
def blockOf (crlf : Bool) (lines : List EventLine) : List Char :=
  (lineEnd crlf).intercalate (lines.map EventLine.text)

/-- The event on the wire: its lines, and a blank one. -/
def WrittenEvent.bytes (e : WrittenEvent) : List UInt8 :=
  encode (blockOf e.crlf e.lines ++ lineEnd e.crlf ++ lineEnd e.crlf)

/-- The item a payload is read as. -/
def itemOf (payload : List Char) : Option SseItem :=
  if trim payload = ['[', 'D', 'O', 'N', 'E', ']'] then some .done
  else if payload.all fun c => c = '\n' then none
  else some (.data (String.ofList (payload.dropWhile fun c => c = '\n')))

/-! ## The lines of a block -/

theorem splitLines_append {line : List Char} (h : '\n' ∉ line) (rest : List Char) :
    splitLines (line ++ '\n' :: rest) = line :: splitLines rest := by
  induction line with
  | nil => simp [splitLines]
  | cons c line ih =>
      rw [List.mem_cons, not_or] at h
      rw [List.cons_append, splitLines, if_neg fun hc => h.1 hc.symm, ih h.2]

theorem splitLines_ne_nil (cs : List Char) : splitLines cs ≠ [] := by
  cases cs with
  | nil => simp [splitLines]
  | cons c cs =>
      rw [splitLines]
      split
      · simp
      · split <;> simp

/-- No line of a text has a line feed, and no other character than the text. -/
theorem mem_splitLines {cs line : List Char} (h : line ∈ splitLines cs) :
    '\n' ∉ line ∧ ∀ c ∈ line, c ∈ cs := by
  induction cs generalizing line with
  | nil =>
      -- an empty text is one empty line
      obtain rfl := List.mem_singleton.1 h
      simp
  | cons c cs ih =>
      rw [splitLines] at h
      split at h
      · rcases List.mem_cons.1 h with rfl | h
        · simp
        · exact ⟨(ih h).1, fun d hd => List.mem_cons_of_mem _ ((ih h).2 d hd)⟩
      · rename_i hc
        split at h
        · rename_i hnil
          exact absurd hnil (splitLines_ne_nil cs)
        · rename_i l ls hls
          rcases List.mem_cons.1 h with rfl | h
          · -- the first line, longer by this character
            have hl := ih (hls ▸ List.mem_cons_self)
            refine ⟨?_, ?_⟩
            · rw [List.mem_cons, not_or]
              exact ⟨fun heq => hc heq.symm, hl.1⟩
            · intro d hd
              rcases List.mem_cons.1 hd with rfl | hd
              · exact List.mem_cons_self
              · exact List.mem_cons_of_mem _ (hl.2 d hd)
          · have hl := ih (hls ▸ List.mem_cons_of_mem _ h)
            exact ⟨hl.1, fun d hd => List.mem_cons_of_mem _ (hl.2 d hd)⟩

/-- What a data line adds to the data gathered before. -/
def gather (data line : List Char) : List Char :=
  (if data = [] then data else data ++ ['\n']) ++ line

theorem foldl_gather {data : List Char} (h : data ≠ []) (lines : List (List Char)) :
    lines.foldl gather data = data ++ lines.flatMap ('\n' :: ·) := by
  induction lines generalizing data with
  | nil => simp
  | cons line lines ih =>
      rw [List.foldl_cons, gather, if_neg h, ih (by simp [h])]
      simp

theorem splitLines_join {cs line : List Char} {lines : List (List Char)}
    (h : splitLines cs = line :: lines) : line ++ lines.flatMap ('\n' :: ·) = cs := by
  induction cs generalizing line lines with
  | nil =>
      cases h
      rfl
  | cons c cs ih =>
      obtain ⟨line', lines', hcs⟩ := List.exists_cons_of_ne_nil (splitLines_ne_nil cs)
      have hjoin := ih hcs
      rw [splitLines, hcs] at h
      split at h
      · rename_i hc
        cases h
        simp [hjoin, hc]
      · cases h
        simp [hjoin]

/-- **The lines of a payload, gathered**: leading blank lines leave no trace. -/
theorem foldl_gather_splitLines (cs : List Char) :
    (splitLines cs).foldl gather [] = cs.dropWhile fun c => c = '\n' := by
  induction cs with
  | nil => rfl
  | cons c cs ih =>
      rw [splitLines]
      split
      · rename_i hc
        rw [List.foldl_cons, List.dropWhile_cons_of_pos (by simpa using hc), ← ih]
        rfl
      · rename_i hc
        obtain ⟨line, lines, hcs⟩ := List.exists_cons_of_ne_nil (splitLines_ne_nil cs)
        rw [hcs, List.dropWhile_cons_of_neg (by simpa using hc), List.foldl_cons,
          ← splitLines_join hcs]
        exact foldl_gather (List.cons_ne_nil c line) lines

/-! ## Reading a block -/

/-- A line that an event can be written on. -/
def EventLine.Fits : EventLine → Prop
  | .data line => '\n' ∉ line ∧ '\r' ∉ line
  | .skipped line => Skipped line

theorem WrittenEvent.fits (e : WrittenEvent) : ∀ line ∈ e.lines, line.Fits := by
  intro line hline
  cases line with
  | data l =>
      have hl : l ∈ splitLines e.payload.toList := by
        rw [← e.carries]
        exact List.mem_filterMap.2 ⟨_, hline, rfl⟩
      exact ⟨(mem_splitLines hl).1, fun hcr => e.noCr ((mem_splitLines hl).2 _ hcr)⟩
  | skipped l => exact e.skipped l hline

theorem WrittenEvent.lines_ne_nil (e : WrittenEvent) : e.lines ≠ [] := by
  intro hnil
  have hcarries := e.carries
  rw [hnil] at hcarries
  exact splitLines_ne_nil _ hcarries.symm

namespace EventLine

variable {line : EventLine}

theorem Fits.noLf (h : line.Fits) : '\n' ∉ line.text := by
  cases line with
  | data l => simpa [text] using h.1
  | skipped l => exact Skipped.noLf h

theorem Fits.head (h : line.Fits) : ∃ c cs, line.text = c :: cs ∧ c ≠ '\n' ∧ c ≠ '\r' := by
  cases line with
  | data l => exact ⟨_, _, rfl, by decide, by decide⟩
  | skipped l =>
      obtain ⟨c, cs, rfl⟩ := List.exists_cons_of_ne_nil (Skipped.nonempty h)
      refine ⟨c, cs, rfl, ?_, ?_⟩
      · rintro rfl
        exact Skipped.noLf h List.mem_cons_self
      · rintro rfl
        exact Skipped.noLeadingCr h rfl

theorem stripPrefix_eq_none {pre cs : List Char} (h : ¬ pre <+: cs) :
    stripPrefix pre cs = none := by
  rw [stripPrefix, if_neg]
  rwa [List.isPrefixOf_iff_prefix]

theorem stripCr_prefix (cs : List Char) : stripCr cs <+: cs := by
  rw [stripCr]
  split
  · exact List.dropLast_prefix cs
  · exact List.prefix_rfl

theorem stripCr_append (cs : List Char) : stripCr (cs ++ ['\r']) = cs := by
  simp [stripCr]

/-- **What a line adds**, with or without the carriage return of its end. -/
theorem Fits.addLine (h : line.Fits) (data : List Char) {raw : List Char}
    (hraw : raw = line.text ∨ raw = line.text ++ ['\r']) :
    addLine data raw = line.data?.toList.foldl gather data := by
  cases line with
  | data l =>
      -- a payload has no carriage return, so at most that of the line end is taken
      have hstrip : stripCr raw = ['d', 'a', 't', 'a', ':', ' '] ++ l := by
        rcases hraw with rfl | rfl
        · exact stripCr_of_notMem (by simpa [text] using h.2)
        · exact stripCr_append _
      have hline : ['d', 'a', 't', 'a', ':', ' '] ++ l = ['d', 'a', 't', 'a', ':'] ++ (' ' :: l) :=
        rfl
      have hspace : stripPrefix [' '] (' ' :: l) = some l := stripPrefix_append [' '] l
      rw [Sse.addLine, hstrip, hline, stripPrefix_append]
      simp only [hspace, Option.getD_some]
      rfl
  | skipped l =>
      have hstrip : stripCr raw <+: l := by
        rcases hraw with rfl | rfl
        · exact stripCr_prefix _
        · rw [stripCr_append]
          exact List.prefix_rfl
      -- what is left is the start of a line without the data field
      have hnone : stripPrefix ['d', 'a', 't', 'a', ':'] (stripCr raw) = none :=
        stripPrefix_eq_none fun hpre => Skipped.noData h (hpre.trans hstrip)
      rw [Sse.addLine, hnone]
      rfl

end EventLine

theorem blockOf_cons_cons (crlf : Bool) (line line' : EventLine) (lines : List EventLine) :
    blockOf crlf (line :: line' :: lines) =
      line.text ++ lineEnd crlf ++ blockOf crlf (line' :: lines) := by
  rw [blockOf, List.map_cons, List.map_cons, List.intercalate_cons_cons]
  rfl

/-- **The data of a block** is gathered from the data lines. -/
theorem foldl_addLine_blockOf (crlf : Bool) {lines : List EventLine} (hne : lines ≠ [])
    (h : ∀ line ∈ lines, line.Fits) (data : List Char) :
    (splitLines (blockOf crlf lines)).foldl addLine data =
      (lines.filterMap EventLine.data?).foldl gather data := by
  induction lines generalizing data with
  | nil => exact absurd rfl hne
  | cons line lines ih =>
      have hline := h line List.mem_cons_self
      have hadd : ∀ more, (List.filterMap EventLine.data? (line :: more)).foldl gather data =
          (more.filterMap EventLine.data?).foldl gather (line.data?.toList.foldl gather data) := by
        intro more
        cases line <;> rfl
      rw [hadd]
      cases lines with
      | nil =>
          -- the last line has no end of its own
          rw [blockOf, List.map_cons, List.map_nil, List.intercalate_singleton,
            splitLines_of_notMem hline.noLf, List.foldl_cons, hline.addLine data (.inl rfl)]
          rfl
      | cons line' lines =>
          have hrest := ih (List.cons_ne_nil _ _) (fun l hl => h l (List.mem_cons_of_mem _ hl))
          -- a line is read with the carriage return of its end, if it has one
          have hsplit : ∃ raw, (raw = line.text ∨ raw = line.text ++ ['\r']) ∧
              splitLines (blockOf crlf (line :: line' :: lines)) =
                raw :: splitLines (blockOf crlf (line' :: lines)) := by
            cases crlf with
            | false =>
                refine ⟨_, .inl rfl, ?_⟩
                rw [blockOf_cons_cons, ← splitLines_append hline.noLf]
                simp [lineEnd]
            | true =>
                refine ⟨_, .inr rfl, ?_⟩
                have hcr : '\n' ∉ line.text ++ ['\r'] := by simpa using hline.noLf
                rw [blockOf_cons_cons, ← splitLines_append hcr]
                simp [lineEnd]
          rcases hsplit with ⟨raw, hraw, hsplit⟩
          rw [hsplit, List.foldl_cons, hline.addLine data hraw, hrest]

theorem dropWhile_isWhitespace (cs : List Char) :
    (cs.dropWhile fun c => c = '\n').dropWhile isWhitespace = cs.dropWhile isWhitespace := by
  induction cs with
  | nil => rfl
  | cons c cs ih =>
      by_cases hc : c = '\n'
      · subst hc
        exact ih
      · rw [List.dropWhile_cons_of_neg (by simpa using hc)]

theorem trim_dropWhile (cs : List Char) : trim (cs.dropWhile fun c => c = '\n') = trim cs := by
  rw [trim, dropWhile_isWhitespace, trim]

/-- **The block of an event** stands for its payload. -/
theorem decodeBlock_blockOf (e : WrittenEvent) :
    decodeBlock (encode (blockOf e.crlf e.lines)) = itemOf e.payload.toList := by
  rw [decodeBlock, decodeLossy_encode, parseEventBlock,
    foldl_addLine_blockOf e.crlf e.lines_ne_nil e.fits, e.carries, foldl_gather_splitLines,
    trim_dropWhile, itemOf]
  by_cases hnil : e.payload.toList.all fun c => c = '\n'
  · -- of a payload of line feeds nothing is gathered
    have hdrop : (e.payload.toList.dropWhile fun c => c = '\n') = [] := by
      rw [List.dropWhile_eq_nil_iff]
      simpa using hnil
    have htrim : trim e.payload.toList = [] := by
      rw [← trim_dropWhile, hdrop]
      rfl
    rw [if_pos hdrop, htrim, if_neg (by decide), if_pos hnil]
  · have hdrop : (e.payload.toList.dropWhile fun c => c = '\n') ≠ [] := by
      rw [ne_eq, List.dropWhile_eq_nil_iff]
      simpa using hnil
    rw [if_neg hdrop, if_neg hnil]

/-! ## Finding the end of a block -/

theorem encode_append (cs cs' : List Char) : encode (cs ++ cs') = encode cs ++ encode cs' :=
  List.flatMap_append

/-- The first byte of a line is no line end. -/
theorem encode_head {c : Char} (cs : List Char) (hlf : c ≠ '\n') (hcr : c ≠ '\r') :
    ∃ b bs, encode (c :: cs) = b :: bs ∧ b ≠ lf ∧ b ≠ cr := by
  have hsplit : encode (c :: cs) = encode [c] ++ encode cs := encode_append [c] cs
  obtain ⟨b, bs, hb⟩ : ∃ b bs, encode [c] = b :: bs := by
    apply List.exists_cons_of_ne_nil
    intro hnil
    have hdecode := decodeLossy_encode [c]
    rw [hnil] at hdecode
    cases hdecode
  have hascii : b.toNat < 0x80 → Char.ofNat b.toNat = c := fun h =>
    List.mem_singleton.1 (mem_encode_of_lt (hb ▸ List.mem_cons_self) h)
  refine ⟨b, bs ++ encode cs, by rw [hsplit, hb]; rfl, ?_, ?_⟩
  · rintro rfl
    exact hlf (hascii (by decide)).symm
  · rintro rfl
    exact hcr (hascii (by decide)).symm

theorem encode_lineEnd_lineEnd (crlf : Bool) :
    encode (lineEnd crlf ++ lineEnd crlf) = EventStyle.separator ⟨true, crlf⟩ := by
  cases crlf <;> decide

/-- The search passes the end of a line that another line follows. -/
theorem findSeparatorFrom_lineEnd (crlf : Bool) {b : UInt8} (hlf : b ≠ lf) (hcr : b ≠ cr)
    (more : List UInt8) (i : Nat) :
    findSeparatorFrom i (encode (lineEnd crlf) ++ b :: more) =
      findSeparatorFrom (i + (encode (lineEnd crlf)).length) (b :: more) := by
  have hnotLf : (b == lf) = false := beq_false_of_ne hlf
  have hnotCr : (b == cr) = false := beq_false_of_ne hcr
  cases crlf with
  | false =>
      have hend : encode (lineEnd false) = [lf] := by decide
      have hstarts : startsCrlfCrlf (lf :: b :: more) = false := by
        rcases more with _ | ⟨c, _ | ⟨d, more⟩⟩ <;> rfl
      rw [hend, List.cons_append, List.nil_append, findSeparatorFrom, if_neg (by simp [hnotLf]),
        if_neg (by simp [hstarts])]
      rfl
  | true =>
      -- neither byte of the line end starts a separator
      have hend : encode (lineEnd true) = [cr, lf] := by decide
      have hstarts : startsCrlfCrlf (cr :: lf :: b :: more) = false := by
        rcases more with _ | ⟨c, more⟩ <;> simp [startsCrlfCrlf, hnotCr]
      have hstarts' : startsCrlfCrlf (lf :: b :: more) = false := by
        rcases more with _ | ⟨c, _ | ⟨d, more⟩⟩ <;> rfl
      rw [hend, List.cons_append, List.cons_append, List.nil_append, findSeparatorFrom,
        if_neg (by decide), if_neg (by simp [hstarts]), findSeparatorFrom,
        if_neg (by simp [hnotLf]), if_neg (by simp [hstarts'])]
      rfl

/-- **The separator of a block** is the one behind it. -/
theorem findSeparatorFrom_blockOf (crlf : Bool) {lines : List EventLine} (hne : lines ≠ [])
    (h : ∀ line ∈ lines, line.Fits) (rest : List UInt8) (i : Nat) :
    findSeparatorFrom i (encode (blockOf crlf lines) ++ EventStyle.separator ⟨true, crlf⟩ ++ rest) =
      some (i + (encode (blockOf crlf lines)).length,
        (EventStyle.separator ⟨true, crlf⟩).length) := by
  induction lines generalizing i with
  | nil => exact absurd rfl hne
  | cons line lines ih =>
      have hline := h line List.mem_cons_self
      cases lines with
      | nil =>
          rw [blockOf, List.map_cons, List.map_nil, List.intercalate_singleton]
          exact findSeparatorFrom_separator _ (lf_notMem_encode hline.noLf) rest i
      | cons line' lines =>
          have hnext := ih (List.cons_ne_nil _ _) (fun l hl => h l (List.mem_cons_of_mem _ hl))
          -- the line behind starts with no line end, so the search goes on there
          obtain ⟨c, cs, htext, hlf, hcr⟩ := (h line' (by simp)).head
          obtain ⟨more, hmore⟩ : ∃ more, blockOf crlf (line' :: lines) = c :: more := by
            cases lines with
            | nil => exact ⟨cs, by rw [blockOf, List.map_cons, List.map_nil,
                List.intercalate_singleton, htext]⟩
            | cons line'' lines => exact ⟨_, by rw [blockOf_cons_cons, htext]; rfl⟩
          obtain ⟨b, bs, hbytes, hblf, hbcr⟩ := encode_head more hlf hcr
          rw [← hmore] at hbytes
          have hnotEnd : ∀ tail, encode (lineEnd crlf) ++ b :: (bs ++
              EventStyle.separator ⟨true, crlf⟩ ++ rest) ≠ lf :: cr :: tail := by
            intro tail heq
            cases crlf with
            | false => exact hbcr (List.cons.inj (List.cons.inj heq).2).1
            | true => exact absurd (List.cons.inj heq).1 (by decide)
          have hsplit : encode (blockOf crlf (line :: line' :: lines)) ++
              EventStyle.separator ⟨true, crlf⟩ ++ rest = encode line.text ++ (encode (lineEnd crlf) ++
                b :: (bs ++ EventStyle.separator ⟨true, crlf⟩ ++ rest)) := by
            rw [blockOf_cons_cons, encode_append, encode_append, hbytes]
            simp
          -- the position counts the bytes of the lines passed
          have hlength : (encode (blockOf crlf (line :: line' :: lines))).length =
              (encode line.text).length + (encode (lineEnd crlf)).length +
                (encode (blockOf crlf (line' :: lines))).length := by
            rw [blockOf_cons_cons, encode_append, encode_append, List.length_append,
              List.length_append]
          rw [hbytes, List.cons_append, List.cons_append] at hnext
          rw [hsplit, findSeparatorFrom_line (lf_notMem_encode hline.noLf) (by simp) hnotEnd,
            findSeparatorFrom_lineEnd crlf hblf hbcr, hnext, hlength, hbytes]
          simp only [Nat.add_assoc]

/-! ## Reading a stream -/

/-- **The first event of a buffer** is cut off and read. -/
theorem drain_writtenEvent (e : WrittenEvent) (rest : List UInt8) :
    Framing.drain findSeparator decodeBlock (e.bytes ++ rest) =
      ((itemOf e.payload.toList).toList ++ (Framing.drain findSeparator decodeBlock rest).1,
        (Framing.drain findSeparator decodeBlock rest).2) := by
  have hbytes : e.bytes = encode (blockOf e.crlf e.lines) ++
      EventStyle.separator ⟨true, e.crlf⟩ := by
    rw [WrittenEvent.bytes, List.append_assoc, encode_append, encode_lineEnd_lineEnd]
  have hfind := findSeparatorFrom_blockOf e.crlf e.lines_ne_nil e.fits rest 0
  rw [Nat.zero_add] at hfind
  rw [hbytes, Framing.drain_of_some decodeBlock findSeparator_framer hfind, List.append_assoc,
    List.take_left, ← List.append_assoc, ← List.length_append, List.drop_left, decodeBlock_blockOf]

/-- **Written events are read back**, however their bytes are cut, and nothing is left in
the buffer. -/
theorem feed_writtenEvents (events : List WrittenEvent) {pieces : List (List UInt8)}
    (hpieces : pieces.flatten = events.flatMap WrittenEvent.bytes) :
    SseDecoder.new.feed pieces =
      (⟨[]⟩, events.filterMap fun e => itemOf e.payload.toList) := by
  have hempty : Framing.drain findSeparator decodeBlock [] = ([], []) := rfl
  have hdrain : Framing.drain findSeparator decodeBlock (events.flatMap WrittenEvent.bytes) =
      (events.filterMap fun e => itemOf e.payload.toList, []) := by
    clear hpieces
    induction events with
    | nil => rfl
    | cons e events ih =>
        rw [List.flatMap_cons, drain_writtenEvent, ih, List.filterMap_cons]
        cases itemOf e.payload.toList <;> rfl
  rw [SseDecoder.feed_eq_framing, SseDecoder.new,
    Framing.feed_eq_drain decodeBlock findSeparator_framer pieces [] hempty, List.nil_append,
    hpieces, hdrain]

/-- Two lines with a comment between them, and the end marker with CRLF line ends. -/
def greetingEvents : List WrittenEvent :=
  [{ payload := "a\nb"
     lines := [.data ['a'], .skipped [':'], .data ['b']]
     crlf := false
     noCr := by decide
     carries := by decide
     skipped := by
       intro line hline
       obtain rfl : line = [':'] := by simpa using hline
       exact ⟨by decide, by decide, by decide, by decide⟩ },
   { payload := "[DONE]"
     lines := [.data ['[', 'D', 'O', 'N', 'E', ']']]
     crlf := true
     noCr := by decide
     carries := by decide
     skipped := by simp }]

/-- The same cut inside the first line and inside the last separator. -/
theorem feed_writtenEvents_greeting :
    SseDecoder.new.feed [[100, 97, 116], [97, 58, 32, 97, 10, 58, 10, 100, 97, 116, 97, 58, 32, 98,
        10, 10, 100, 97, 116, 97, 58, 32, 91, 68, 79, 78, 69, 93, 13, 10, 13], [10]] =
      (⟨[]⟩, [.data "a\nb", .done]) :=
  (feed_writtenEvents greetingEvents (by decide)).trans (by decide)

end AiApiBridge.Sse
