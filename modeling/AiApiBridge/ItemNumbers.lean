import AiApiBridge.BlockOrder
import AiApiBridge.ItemBooks
import AiApiBridge.Wire.DeltaFrames

/-!
# The numbers of items

Both emitters number their items with a `u32` and write the number into every frame about
an item. So the items of a stream are properly bracketed as long as no more are opened
than there are numbers, and no longer (`streamFrames_bracketed_iff`,
`messageFrames_bracketed_iff`).
-/

set_option autoImplicit false

namespace AiApiBridge

open Brackets ChatStreamParser Chat Cue

/-! ## Numbers that are not used twice -/

/-- A `u32` counter counts to `2 ^ 32`. -/
theorem asU32_below_iff (count : Nat) : (∀ n < count, asU32 n = n) ↔ count ≤ 2 ^ 32 := by
  constructor
  · intro h
    by_contra hlt
    have hwrapped := h (2 ^ 32) (Nat.lt_of_not_le hlt)
    exact absurd hwrapped (by decide)
  · intro h n hn
    exact asU32_of_lt (Nat.lt_of_lt_of_le hn h)

section Stream

variable (uuid : Nat → String) (fromStr : String → Option Value) (responseId : String)
  (chunks : List Value)

/-- The items that the Responses emitter opens. -/
theorem nextOutputIndex_stream :
    (Transducer.run (ResponsesEmitter.onEvent uuid) .new
      (streamEvents responseId chunks)).1.nextOutputIndex =
        itemsOpened [] (streamCues [] chunks) :=
  (ResponsesEmitter.countsItems uuid).stream (ResponsesEmitter.keepsSlots uuid) rfl
    ResponsesEmitter.slots_new responseId chunks

/-- The blocks that the Anthropic emitter opens. -/
theorem nextIndex_stream :
    (Transducer.run (AnthropicEmitter.onEvent fromStr) .new
      (streamEvents responseId chunks)).1.nextIndex = itemsOpened [] (streamCues [] chunks) :=
  (AnthropicEmitter.countsItems fromStr).stream (AnthropicEmitter.keepsSlots fromStr) rfl
    AnthropicEmitter.slots_new responseId chunks

theorem streamFrames_bracketed_iff :
    Bracketed ((streamFrames uuid responseId chunks).filterMap itemBracket) ↔
      itemsOpened [] (streamCues [] chunks) ≤ 2 ^ 32 := by
  obtain ⟨hfollows, hnone⟩ := ResponsesEmitter.follows_stream uuid responseId chunks
  rw [streamFrames, InSlotsAs.bracketed_iff hfollows hnone, nextOutputIndex_stream,
    asU32_below_iff]

theorem messageFrames_bracketed_iff :
    Bracketed ((messageFrames fromStr responseId chunks).filterMap blockBracket) ↔
      itemsOpened [] (streamCues [] chunks) ≤ 2 ^ 32 := by
  obtain ⟨hfollows, hnone⟩ := AnthropicEmitter.follows_stream fromStr responseId chunks
  rw [messageFrames, InSlotsAs.bracketed_iff hfollows hnone, nextIndex_stream, asU32_below_iff]

/-- **Items are bracketed.** For every stream of chunks that opens at most `2 ^ 32` items,
the output items of the Responses frames and the content blocks of the Anthropic frames
are numbered in order of appearance, each is closed exactly once under its number and id,
and every frame that names one finds it open. The Responses frames carry their own
positions as sequence numbers, counted in a `u64`. -/
theorem items_bracketed (h : itemsOpened [] (streamCues [] chunks) ≤ 2 ^ 32) :
    Bracketed ((streamFrames uuid responseId chunks).filterMap itemBracket) ∧
      Bracketed ((messageFrames fromStr responseId chunks).filterMap blockBracket) ∧
      ∀ (n : Nat) (fr : SseFrame), (streamFrames uuid responseId chunks)[n]? = some fr →
        fr.get "sequence_number" = some (.ofNat (n % 2 ^ 64)) := by
  refine ⟨(streamFrames_bracketed_iff uuid responseId chunks).2 h,
    (messageFrames_bracketed_iff fromStr responseId chunks).2 h, ?_⟩
  intro n fr hfr
  have := ResponsesEmitter.numberedFrom_run uuid (streamEvents responseId chunks) .new n fr hfr
  rwa [show ResponsesEmitter.new.seq + n = n from Nat.zero_add n] at this

end Stream

/-- Reasoning, content and two calls: four items. -/
theorem items_bracketed_fourItems :
    let chunks := [deltaChunk [("reasoning", .string "a")], deltaChunk [("content", .string "b")],
      deltaChunk [("tool_calls", .array [.object [("index", .ofNat 1)],
        .object [("index", .ofNat 0)]])]]
    Bracketed ((streamFrames unaryId "r" chunks).filterMap itemBracket) ∧
      Bracketed ((messageFrames (fun _ => none) "r" chunks).filterMap blockBracket) ∧
      ∀ (n : Nat) (fr : SseFrame), (streamFrames unaryId "r" chunks)[n]? = some fr →
        fr.get "sequence_number" = some (.ofNat (n % 2 ^ 64)) :=
  items_bracketed unaryId (fun _ => none) "r" [deltaChunk [("reasoning", .string "a")],
    deltaChunk [("content", .string "b")], deltaChunk [("tool_calls",
      .array [.object [("index", .ofNat 1)], .object [("index", .ofNat 0)]])]] (by decide)

/-! ## More items than numbers -/

/-- A chunk with reasoning and content. -/
def thoughtChunk : Value := deltaChunk [("reasoning", .string "a"), ("content", .string "b")]

theorem streamCues_thoughts (n : Nat) :
    streamCues [] (List.replicate n thoughtChunk) =
      (List.replicate n [.reasoning, .content]).flatten := by
  induction n with
  | zero => rfl
  | succ n ih =>
      have hcues : chunkCues [] thoughtChunk = [.reasoning, .content] := by decide
      have hstarted : startedAfter [] thoughtChunk = [] := by decide
      rw [List.replicate_succ, streamCues, hcues, hstarted, ih, List.replicate_succ,
        List.flatten_cons]

/-- Within a text that stays open, every thought is an item. -/
theorem itemsOpened_thoughts (n : Nat) {before : List Cue} (htext : Pending .text before)
    (hthinking : ¬ Pending .thinking before) :
    itemsOpened before (List.replicate n [.reasoning, .content]).flatten = n := by
  induction n generalizing before with
  | zero => rfl
  | succ n ih =>
      have htext' : Pending .text (before ++ [.reasoning]) :=
        pending_snoc.2 (Or.inr ⟨htext, rfl⟩)
      have hthinking' : ¬ Pending .thinking (before ++ [.reasoning] ++ [.content]) := by
        rw [pending_snoc]
        rintro (hstarts | ⟨-, hends⟩)
        · cases hstarts
        · cases hends
      have hrest := ih (pending_snoc.2 (Or.inl rfl)) hthinking'
      rw [List.replicate_succ, List.flatten_cons, List.cons_append, List.cons_append,
        List.nil_append, itemsOpened, itemsOpened, hrest]
      simp only [newItems, starts, if_neg hthinking, if_pos htext']
      omega

theorem noError_thoughtChunks (n : Nat) : ∀ c ∈ List.replicate n thoughtChunk, NoError c := by
  intro c hc
  rw [(List.mem_replicate.1 hc).2]
  decide

theorem itemsOpened_thoughtChunks {n : Nat} (hn : 0 < n) :
    itemsOpened [] (streamCues [] (List.replicate n thoughtChunk)) = n + 1 := by
  obtain ⟨n, rfl⟩ := Nat.exists_eq_add_one_of_ne_zero (Nat.ne_of_gt hn)
  rw [streamCues_thoughts, List.replicate_succ, List.flatten_cons, List.cons_append,
    List.cons_append, List.nil_append, itemsOpened, itemsOpened, List.nil_append,
    itemsOpened_thoughts n (by decide) (by decide)]
  have hfirst : newItems [] .reasoning = 1 := by decide
  have hsecond : newItems [.reasoning] .content = 1 := by decide
  rw [hfirst, hsecond]
  omega

/-- Every piece of content has a frame of its own. -/
theorem length_chunkContent_le (uuid : Nat → String) (responseId : String) {chunks : List Value}
    (h : ∀ c ∈ chunks, NoError c) :
    (chunks.filterMap chunkContent).length ≤ (streamFrames uuid responseId chunks).length := by
  have hpieces := (ResponsesEmitter.passes .message uuid).run .new (streamEvents responseId chunks)
  have hcontent : (streamEvents responseId chunks).filterMap (TextKind.pieceOf .message) =
      chunks.filterMap chunkContent := by
    have hchunks := filterMap_run_onChunk filterMap_contentOf_onChunk (new responseId) h
    have hend : [CanonicalEvent.completed].filterMap contentOf = [] := rfl
    rw [streamEvents, TextKind.pieceOf, List.filterMap_append, hchunks, hend, List.append_nil]
  rw [← hcontent, ← hpieces, streamFrames]
  exact List.length_filterMap_le _ _

/-- A chunk with content. -/
def wordChunk : Value := deltaChunk [("content", .string "b")]

/-- With `2 ^ 32` thoughts and a text, the last of the items gets the number of the first. With
more than `2 ^ 64` pieces of text a frame gets the sequence number of the first. -/
theorem not_items_bracketed_manyThoughts :
    let chunks := List.replicate (2 ^ 32) thoughtChunk
    let words := List.replicate (2 ^ 64 + 1) wordChunk
    ((∀ c ∈ chunks, NoError c) ∧
      ¬ Bracketed ((streamFrames unaryId "r" chunks).filterMap itemBracket) ∧
      ¬ Bracketed ((messageFrames (fun _ => none) "r" chunks).filterMap blockBracket)) ∧
    (∀ c ∈ words, NoError c) ∧ ∃ fr, (streamFrames unaryId "r" words)[2 ^ 64]? = some fr ∧
      fr.get "sequence_number" = some (.ofNat 0) := by
  intro chunks words
  have hcount : itemsOpened [] (streamCues [] chunks) = 2 ^ 32 + 1 :=
    itemsOpened_thoughtChunks (by decide)
  have hwords : ∀ c ∈ words, NoError c := by
    intro c hc
    rw [(List.mem_replicate.1 hc).2]
    decide
  have hpieces : (words.filterMap chunkContent).length = 2 ^ 64 + 1 := by
    have hword : chunkContent wordChunk = some "b" := by decide
    rw [List.filterMap_replicate_of_some hword, List.length_replicate]
  have hlength := length_chunkContent_le unaryId "r" hwords
  rw [hpieces] at hlength
  refine ⟨⟨noError_thoughtChunks _, ?_, ?_⟩, hwords, _, List.getElem?_eq_getElem hlength, ?_⟩
  · rw [streamFrames_bracketed_iff, hcount]
    exact Nat.not_succ_le_self _
  · rw [messageFrames_bracketed_iff, hcount]
    exact Nat.not_succ_le_self _
  · have := ResponsesEmitter.numberedFrom_run unaryId (streamEvents "r" words) .new (2 ^ 64) _
      (List.getElem?_eq_getElem hlength)
    rwa [show (ResponsesEmitter.new.seq + 2 ^ 64) % 2 ^ 64 = 0 from rfl] at this

end AiApiBridge
