import AiApiBridge.Wire.ChatStream

/-!
# Reading stream chunks

What a stream chunk says, read off its JSON, and `onChunk` in terms of it. A
chunk may carry a piece of reasoning, a piece of content, tool fragments, a
finish reason and a usage object; `onChunk_eq` is the one place where the parser
is unfolded.
-/

set_option autoImplicit false

namespace AiApiBridge.Chat

/-- The delta of a chunk's first choice. -/
def chunkDelta (c : Value) : Option Value := (firstChoice c).bind fun ch => ch.get "delta"

/-- The piece of reasoning in a chunk, when it is not empty. -/
def chunkReasoning (c : Value) : Option String := (chunkDelta c).bind reasoningText

/-- The piece of content in a chunk, when it is not empty. -/
def chunkContent (c : Value) : Option String :=
  (chunkDelta c).bind fun d => nonEmptyStr (d.get "content")

/-- The tool fragments of a chunk. -/
def chunkFragments (c : Value) : List Value :=
  ((chunkDelta c).bind fun d => (d.get "tool_calls").bind Value.asArray).getD []

/-- Whether a chunk carries a finish reason. -/
def finishes (c : Value) : Bool :=
  ((firstChoice c).bind fun ch => (ch.get "finish_reason").bind Value.asStr).isSome

/-- The usage object of a chunk. -/
def chunkUsage (c : Value) : Option Value := nonNull (c.get "usage")

/-- A chunk without an in-band error. -/
def NoError (c : Value) : Prop := nonNull (c.get "error") = none

instance (c : Value) : Decidable (NoError c) := inferInstanceAs (Decidable (_ = _))

/-- The argument text of a fragment, when it is not empty. -/
def fragmentArgs (f : Value) : Option String :=
  nonEmptyStr ((f.get "function").bind fun g => g.get "arguments")

/-- A chunk with this delta in its first choice. -/
def deltaChunk (delta : Map) : Value :=
  .object [("choices", .array [.object [("delta", .object delta)]])]

theorem nonEmptyStr_ne_empty {v : Option Value} {s : String} (h : nonEmptyStr v = some s) :
    s ≠ "" := by
  simpa using (Option.filter_eq_some_iff.1 h).2

theorem chunkReasoning_ne_empty {c : Value} {s : String} (h : chunkReasoning c = some s) :
    s ≠ "" := by
  obtain ⟨d, -, hd⟩ := Option.bind_eq_some_iff.1 h
  exact nonEmptyStr_ne_empty hd

theorem chunkContent_ne_empty {c : Value} {s : String} (h : chunkContent c = some s) :
    s ≠ "" := by
  obtain ⟨d, -, hd⟩ := Option.bind_eq_some_iff.1 h
  exact nonEmptyStr_ne_empty hd

end AiApiBridge.Chat

namespace AiApiBridge.ChatStreamParser

open Chat

/-! ## The parser on one chunk -/

/-- The tool events of a chunk and the indices started after it. -/
def fragmentRun (started : List Nat) (c : Value) : List Nat × List CanonicalEvent :=
  Transducer.run onFragment started (chunkFragments c)

/-- The events of a finish reason. -/
def finishEvents (started : List Nat) (c : Value) : List CanonicalEvent :=
  if finishes c then (started.insertionSort (· ≤ ·)).map CanonicalEvent.toolCallDone else []

/-- The event that opens the response, on the first chunk. -/
def openingEvents (p : ChatStreamParser) (c : Value) : List CanonicalEvent :=
  if p.created then [] else [.created p.responseId (strOr c "model" "")]

theorem mem_openingEvents {p : ChatStreamParser} {c : Value} {ev : CanonicalEvent}
    (h : ev ∈ openingEvents p c) :
    p.created = false ∧ ∃ model, ev = .created p.responseId model := by
  cases hp : p.created with
  | true =>
      rw [openingEvents, if_pos hp] at h
      cases h
  | false =>
      rw [openingEvents, hp, if_neg Bool.false_ne_true] at h
      exact ⟨rfl, _, List.mem_singleton.1 h⟩

theorem mem_finishEvents {started : List Nat} {c : Value} {ev : CanonicalEvent}
    (h : ev ∈ finishEvents started c) : ∃ i, ev = .toolCallDone i := by
  by_cases hc : finishes c
  · rw [finishEvents, if_pos hc] at h
    obtain ⟨i, -, hi⟩ := List.mem_map.1 h
    exact ⟨i, hi.symm⟩
  · rw [finishEvents, if_neg hc] at h
    cases h

/-- **The parser on one chunk without an error.** -/
theorem onChunk_eq (p : ChatStreamParser) {c : Value} (h : NoError c) :
    p.onChunk c =
      ({ p with
          model := if p.created then p.model else strOr c "model" ""
          created := true
          startedTools := (fragmentRun p.startedTools c).1 },
        openingEvents p c ++ ((chunkReasoning c).map CanonicalEvent.reasoningDelta).toList ++
          ((chunkContent c).map CanonicalEvent.textDelta).toList ++
          (fragmentRun p.startedTools c).2 ++ finishEvents (fragmentRun p.startedTools c).1 c ++
          ((chunkUsage c).map usageEvent).toList) := by
  rw [onChunk]
  rw [show nonNull (c.get "error") = none from h]
  -- a chunk may lack its choice, and a choice its delta
  cases hch : firstChoice c with
  | none =>
      by_cases hcr : p.created <;>
        simp [openingEvents, chunkReasoning, chunkContent, fragmentRun, chunkFragments,
          chunkDelta, finishEvents, finishes, chunkUsage, hch, hcr]
  | some choice =>
      cases hd : choice.get "delta" with
      | none =>
          by_cases hcr : p.created <;>
            simp [openingEvents, chunkReasoning, chunkContent, fragmentRun, chunkFragments,
              chunkDelta, finishEvents, finishes, chunkUsage, onChoice, hch, hcr, hd]
      | some delta =>
          by_cases hcr : p.created <;>
            simp [openingEvents, chunkReasoning, chunkContent, fragmentRun, chunkFragments,
              chunkDelta, finishEvents, finishes, chunkUsage, onChoice, onDelta, hch, hcr, hd]

/-- The indices that start with one fragment. -/
def startIndex (started : List Nat) (i : Nat) : List Nat :=
  if i ∈ started then started else started ++ [i]

/-- One fragment: a start on its index's first occurrence, then its arguments. -/
theorem onFragment_eq (started : List Nat) (f : Value) :
    onFragment started f =
      (startIndex started (fragmentIndex f),
        (if fragmentIndex f ∈ started then []
          else [.toolCallStart (fragmentIndex f) (strOr f "id" "")
            ((functionStr f "name").getD "")]) ++
          ((fragmentArgs f).map (CanonicalEvent.toolCallArgsDelta (fragmentIndex f))).toList) := by
  by_cases h : fragmentIndex f ∈ started <;>
    cases ha : fragmentArgs f <;>
      simp_all [onFragment, startIndex, fragmentArgs]

theorem fragmentRun_fst (started : List Nat) (c : Value) :
    (fragmentRun started c).1 = ((chunkFragments c).map fragmentIndex).foldl startIndex started := by
  rw [fragmentRun]
  induction chunkFragments c generalizing started with
  | nil => rfl
  | cons f fs ih => simp [Transducer.run_cons, onFragment_eq, ih]

/-- A tool start or a piece of arguments. -/
def IsToolEvent : CanonicalEvent → Prop
  | .toolCallStart _ _ _ => True
  | .toolCallArgsDelta _ _ => True
  | _ => False

theorem isToolEvent_of_mem_fragmentRun {started : List Nat} {c : Value} {ev : CanonicalEvent}
    (h : ev ∈ (fragmentRun started c).2) : IsToolEvent ev := by
  rw [fragmentRun] at h
  generalize chunkFragments c = fs at h
  induction fs generalizing started with
  | nil => simp at h
  | cons f fs ih =>
      rw [Transducer.run_cons, onFragment_eq] at h
      simp only [List.mem_append] at h
      rcases h with (h | h) | h
      · split at h
        · simp at h
        · rw [List.mem_singleton.1 h]
          trivial
      · simp only [Option.mem_toList, Option.map_eq_some_iff] at h
        rcases h with ⟨args, -, rfl⟩
        trivial
      · exact ih h

/-! ## What interrupts what

The parts of a stream that open, continue or interrupt a text item. -/

inductive StreamPart where
  | reasoning
  | content
  | call
  deriving DecidableEq, Repr

/-- The fragments that are the first of their index. -/
def callStarts (seen : List Nat) : List Value → List StreamPart
  | [] => []
  | f :: fs =>
      if fragmentIndex f ∈ seen then callStarts seen fs
      else .call :: callStarts (seen ++ [fragmentIndex f]) fs

/-- The parts of a chunk, in the order in which the parser reads them. -/
def chunkParts (seen : List Nat) (c : Value) : List StreamPart :=
  (chunkReasoning c).toList.map (fun _ => .reasoning) ++
    (chunkContent c).toList.map (fun _ => .content) ++ callStarts seen (chunkFragments c)

/-- The parts of a stream, when the indices in `seen` have been started. -/
def streamParts (seen : List Nat) : List Value → List StreamPart
  | [] => []
  | c :: cs =>
      chunkParts seen c ++
        streamParts (((chunkFragments c).map fragmentIndex).foldl startIndex seen) cs

/-- The part an event stands for. -/
def partOf : CanonicalEvent → Option StreamPart
  | .reasoningDelta _ => some .reasoning
  | .textDelta _ => some .content
  | .toolCallStart _ _ _ => some .call
  | _ => none

theorem filterMap_partOf_fragmentRun (started : List Nat) (c : Value) :
    (fragmentRun started c).2.filterMap partOf = callStarts started (chunkFragments c) := by
  rw [fragmentRun]
  induction chunkFragments c generalizing started with
  | nil => rfl
  | cons f fs ih =>
      rw [Transducer.run_cons, onFragment_eq, List.filterMap_append, ih]
      by_cases hs : fragmentIndex f ∈ started <;> cases ha : fragmentArgs f <;>
        simp [callStarts, startIndex, partOf, hs]

/-- What a function of the events makes of a chunk, when it passes over the events that open
the response, end calls and report usage. -/
theorem filterMap_onChunk {β : Type} (f : CanonicalEvent → Option β)
    (hcreated : ∀ id model, f (.created id model) = none) (hdone : ∀ i, f (.toolCallDone i) = none)
    (husage : ∀ u, f (.usage u) = none) (p : ChatStreamParser) {c : Value} (h : NoError c) :
    (p.onChunk c).2.filterMap f =
      ((chunkReasoning c).bind fun t => f (.reasoningDelta t)).toList ++
        ((chunkContent c).bind fun t => f (.textDelta t)).toList ++
        (fragmentRun p.startedTools c).2.filterMap f := by
  -- the opening, the ends of calls and the usage are not read
  have hopen : (openingEvents p c).filterMap f = [] := by
    rw [List.filterMap_eq_nil_iff]
    intro ev hev
    obtain ⟨-, model, rfl⟩ := mem_openingEvents hev
    exact hcreated _ _
  have hfinish : (finishEvents (fragmentRun p.startedTools c).1 c).filterMap f = [] := by
    rw [List.filterMap_eq_nil_iff]
    intro ev hev
    obtain ⟨i, rfl⟩ := mem_finishEvents hev
    exact hdone i
  have hcounts : ((chunkUsage c).map usageEvent).toList.filterMap f = [] := by
    cases chunkUsage c <;> simp [usageEvent, husage]
  rw [onChunk_eq p h]
  simp only [List.filterMap_append, hopen, hfinish, hcounts, List.append_nil, List.nil_append]
  congr 2
  · cases chunkReasoning c <;> simp [List.filterMap_cons]
    cases f (.reasoningDelta _) <;> rfl
  · cases chunkContent c <;> simp [List.filterMap_cons]
    cases f (.textDelta _) <;> rfl

/-- The parser reads the parts of a stream off its chunks. -/
theorem filterMap_partOf_run (p : ChatStreamParser) (chunks : List Value)
    (h : ∀ c ∈ chunks, NoError c) :
    (Transducer.run onChunk p chunks).2.filterMap partOf = streamParts p.startedTools chunks := by
  induction chunks generalizing p with
  | nil => rfl
  | cons c cs ih =>
      have hparts : (p.onChunk c).2.filterMap partOf = chunkParts p.startedTools c := by
        rw [filterMap_onChunk partOf (fun _ _ => rfl) (fun _ => rfl) (fun _ => rfl) p
          (h c (by simp)), filterMap_partOf_fragmentRun, chunkParts]
        cases chunkReasoning c <;> cases chunkContent c <;> simp [partOf]
      have hstarted : (p.onChunk c).1.startedTools =
          ((chunkFragments c).map fragmentIndex).foldl startIndex p.startedTools := by
        rw [onChunk_eq p (h c (by simp)), fragmentRun_fst]
      rw [Transducer.run_cons, List.filterMap_append, hparts,
        ih _ fun c' hc' => h c' (by simp [hc']), hstarted, streamParts]

/-! ## The events of a stream -/

/-- Which events a chunk can give rise to. -/
theorem mem_onChunk {p : ChatStreamParser} {c : Value} (h : NoError c) {ev : CanonicalEvent}
    (hev : ev ∈ (p.onChunk c).2) :
    (∃ model, ev = .created p.responseId model) ∨ (∃ t, t ≠ "" ∧ ev = .reasoningDelta t) ∨
      (∃ t, t ≠ "" ∧ ev = .textDelta t) ∨ IsToolEvent ev ∨ (∃ i, ev = .toolCallDone i) ∨
      ∃ u, ev = .usage u := by
  rw [onChunk_eq p h] at hev
  simp only [List.mem_append, Option.mem_toList, Option.map_eq_some_iff] at hev
  rcases hev with ((((hev | ⟨t, ht, rfl⟩) | ⟨t, ht, rfl⟩) | hev) | hev) | ⟨u, -, rfl⟩
  · exact Or.inl (mem_openingEvents hev).2
  · exact Or.inr (Or.inl ⟨t, chunkReasoning_ne_empty ht, rfl⟩)
  · exact Or.inr (Or.inr (Or.inl ⟨t, chunkContent_ne_empty ht, rfl⟩))
  · exact Or.inr (Or.inr (Or.inr (Or.inl (isToolEvent_of_mem_fragmentRun hev))))
  · exact Or.inr (Or.inr (Or.inr (Or.inr (Or.inl (mem_finishEvents hev)))))
  · exact Or.inr (Or.inr (Or.inr (Or.inr (Or.inr ⟨_, rfl⟩))))

/-- A chunk without an error has neither the last event nor an error event. -/
theorem quiet_onChunk {p : ChatStreamParser} {c : Value} (h : NoError c) {ev : CanonicalEvent}
    (hev : ev ∈ (p.onChunk c).2) : ev ≠ .completed ∧ ev.isError = false := by
  rcases mem_onChunk h hev with ⟨m, rfl⟩ | ⟨t, -, rfl⟩ | ⟨t, -, rfl⟩ | htool | ⟨i, rfl⟩ | ⟨u, rfl⟩
  · exact ⟨nofun, rfl⟩
  · exact ⟨nofun, rfl⟩
  · exact ⟨nofun, rfl⟩
  · cases ev <;> simp_all [IsToolEvent, CanonicalEvent.isError]
  · exact ⟨nofun, rfl⟩
  · exact ⟨nofun, rfl⟩

/-- **The parser on a chunk with an error.** -/
theorem onChunk_error (p : ChatStreamParser) {c err : Value}
    (h : nonNull (c.get "error") = some err) : p.onChunk c = (p, [errorEvent err]) := by
  rw [onChunk]
  rw [h]

/-! ## The opening event -/

/-- An open parser does not open the response again. -/
theorem not_created_onChunk {p : ChatStreamParser} (hp : p.created = true) {c : Value}
    (h : NoError c) {ev : CanonicalEvent} (hev : ev ∈ (p.onChunk c).2) (id model : String) :
    ev ≠ .created id model := by
  rintro rfl
  rw [onChunk_eq p h] at hev
  simp only [List.mem_append, Option.mem_toList, Option.map_eq_some_iff] at hev
  rcases hev with ((((hev | ⟨t, -, hev⟩) | ⟨t, -, hev⟩) | hev) | hev) | ⟨u, -, hev⟩
  · have hnot := (mem_openingEvents hev).1
    rw [hp] at hnot
    cases hnot
  · cases hev
  · cases hev
  · exact isToolEvent_of_mem_fragmentRun hev
  · obtain ⟨i, hi⟩ := mem_finishEvents hev
    cases hi
  · cases hev

/-- **The first chunk without an error** opens the response, and then counts as any
other. -/
theorem onChunk_opening {p : ChatStreamParser} (hp : p.created = false) {c : Value}
    (h : NoError c) :
    (p.onChunk c).2 =
      .created p.responseId (strOr c "model" "") ::
        ({ p with created := true }.onChunk c).2 := by
  rw [onChunk_eq p h, onChunk_eq _ h]
  simp [openingEvents, hp]

/-- A property of the events of every chunk is one of the events of a stream. -/
theorem mem_run_onChunk {P : CanonicalEvent → Prop} {chunks : List Value}
    (h : ∀ p, ∀ c ∈ chunks, ∀ ev ∈ (onChunk p c).2, P ev) (p : ChatStreamParser) :
    ∀ ev ∈ (Transducer.run onChunk p chunks).2, P ev :=
  Transducer.forall_mem_run h p

/-! ## The texts of a stream -/

/-- The piece of content an event carries. -/
def contentOf : CanonicalEvent → Option String
  | .textDelta t => some t
  | _ => none

/-- The piece of reasoning an event carries. -/
def reasoningOf : CanonicalEvent → Option String
  | .reasoningDelta t => some t
  | _ => none

/-- The texts read off events, one event more. -/
theorem join_filterMap_snoc {α : Type} (f : α → Option String) (l : List α) (a : α) :
    String.join ((l ++ [a]).filterMap f) = String.join (l.filterMap f) ++ (f a).getD "" := by
  rw [List.filterMap_append, String.join_append]
  cases hf : f a <;> simp [hf]

/-- The fragments of calls have no text. -/
theorem filterMap_fragmentRun {β : Type} {f : CanonicalEvent → Option β}
    (hf : ∀ ev, IsToolEvent ev → f ev = none) (started : List Nat) (c : Value) :
    (fragmentRun started c).2.filterMap f = [] := by
  rw [List.filterMap_eq_nil_iff]
  exact fun ev hev => hf ev (isToolEvent_of_mem_fragmentRun hev)

/-- The parser passes on every piece of content. -/
theorem filterMap_contentOf_onChunk (p : ChatStreamParser) {c : Value} (h : NoError c) :
    (p.onChunk c).2.filterMap contentOf = (chunkContent c).toList := by
  have htools := filterMap_fragmentRun (f := contentOf)
    (fun ev hev => by cases ev <;> first | rfl | cases hev) p.startedTools c
  rw [filterMap_onChunk contentOf (fun _ _ => rfl) (fun _ => rfl) (fun _ => rfl) p h, htools]
  simp [contentOf]

/-- The parser passes on every piece of reasoning. -/
theorem filterMap_reasoningOf_onChunk (p : ChatStreamParser) {c : Value} (h : NoError c) :
    (p.onChunk c).2.filterMap reasoningOf = (chunkReasoning c).toList := by
  have htools := filterMap_fragmentRun (f := reasoningOf)
    (fun ev hev => by cases ev <;> first | rfl | cases hev) p.startedTools c
  rw [filterMap_onChunk reasoningOf (fun _ _ => rfl) (fun _ => rfl) (fun _ => rfl) p h, htools]
  simp [reasoningOf]

/-- A function of the events that reads a piece off each chunk reads the pieces off a
stream. -/
theorem filterMap_run_onChunk {β : Type} {f : CanonicalEvent → Option β} {g : Value → Option β}
    (hf : ∀ (p : ChatStreamParser) (c : Value), NoError c →
      (p.onChunk c).2.filterMap f = (g c).toList)
    (p : ChatStreamParser) {chunks : List Value} (h : ∀ c ∈ chunks, NoError c) :
    (Transducer.run onChunk p chunks).2.filterMap f = chunks.filterMap g := by
  induction chunks generalizing p with
  | nil => rfl
  | cons c cs ih =>
      rw [Transducer.run_cons, List.filterMap_append, hf p c (h c (by simp)),
        ih _ fun c' hc' => h c' (by simp [hc'])]
      cases hg : g c <;> simp [hg]

/-- The canonical events of a stream of chunks that ends normally. -/
def streamEvents (responseId : String) (chunks : List Value) : List CanonicalEvent :=
  (Transducer.run onChunk (new responseId) chunks).2 ++ [.completed]

end AiApiBridge.ChatStreamParser
