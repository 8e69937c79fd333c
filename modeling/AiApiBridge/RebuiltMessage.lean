import AiApiBridge.ClientBlocks
import AiApiBridge.Wire.StreamFrames

/-!
# The rebuilt message

The emitter and a client of its frames follow the draft of the events seen so far
(`ShowsBlocks`), so the message the client ends up with is the one the non-streaming
path answers with (`rebuiltMessage_eq_finalMessage`).
-/

set_option autoImplicit false

namespace AiApiBridge

open Chat ChatStreamParser AnthropicEmitter
open Transducer (andThen)
open TreeMaps (Holds)

/-! ## The emitter shows the draft -/

section Shows

variable (fromStr : String → Option Value)

/-- The emitter, having emitted these frames, shows a draft whose open text block
is that of the phase. A client tells the blocks apart as long as their indices last. -/
structure ShowsBlocks (p : Phase) (e : AnthropicEmitter) (frames : List SseFrame) (d : Draft) :
    Prop where
  started : e.started = d.opened
  ids : d.opened = true → e.messageId = d.responseId ∧ e.model = d.model ∧
    (clientOf frames).message = e.startedMessage.asObject
  thinkingText : e.thinkingText = d.reasoning
  textText : e.textText = d.content
  thinkingIndex : e.thinkingIndex = if p = .reasoning ∧ d.reasoning ≠ "" then some 0 else none
  textIndex : e.textIndex =
    if p = .content ∧ d.content ≠ "" then some (thinkingBlocks p d.reasoning).length else none
  noContent : p = .reasoning → d.content = ""
  noCalls : p ≠ .call → d.calls = [] ∧ d.closed = []
  blocks : (d.blocks p).length ≤ 2 ^ 32 → Holds (clientOf frames).blocks (d.blocks p)
  nextIndex : e.nextIndex = (d.blocks p).length
  tools : OpenTools (d.textsBlocks .call).length e.tools d.calls
  anyTool : e.anyTool = decide (d.calls ≠ [])
  usage : e.usage = d.usage
  finalBlocks : e.finalBlocks = (d.closedBlocks p).map (ClientBlock.toValue fromStr)

variable {fromStr}

/-- There are not many blocks before the calls. -/
theorem ShowsBlocks.holds {p : Phase} {e : AnthropicEmitter} {frames : List SseFrame} {d : Draft}
    (h : ShowsBlocks fromStr p e frames d) (hp : p ≠ .call) :
    Holds (clientOf frames).blocks (d.blocks p) := by
  apply h.blocks
  have hthinking := length_thinkingBlocks p d.reasoning
  have htext := length_textBlocks d.content
  simp only [Draft.blocks, Draft.textsBlocks, (h.noCalls hp).1, List.map_nil, List.append_nil,
    List.length_append]
  omega

theorem showsBlocks_new : ShowsBlocks fromStr .reasoning .new [] .new := by
  constructor <;> simp [AnthropicEmitter.new, Draft.new, Client.new, Draft.blocks,
    Draft.textsBlocks, thinkingBlocks, textBlocks, Draft.closedBlocks, TreeMaps.holds_empty,
    OpenTools.empty]

/-- Closing thinking signs its block. -/
theorem ShowsBlocks.closeThinking {p : Phase} {e : AnthropicEmitter} {frames : List SseFrame}
    {d : Draft} (h : ShowsBlocks fromStr p e frames d) (hp : p = .reasoning ∨ p = .content) :
    ShowsBlocks fromStr .content (closeThinking e).1 (frames ++ (closeThinking e).2) d := by
  rcases hp with rfl | rfl
  · have hcontent := h.noContent rfl
    obtain ⟨hcalls, hclosed⟩ := h.noCalls (by decide)
    have htext : e.textIndex = none := by simpa using h.textIndex
    -- without thinking no block was opened, and none is closed
    by_cases hr : d.reasoning = ""
    · have hnone : e.thinkingIndex = none := by simpa [hr] using h.thinkingIndex
      have hblocks : d.blocks .content = d.blocks .reasoning := by
        simp [Draft.blocks, Draft.textsBlocks, thinkingBlocks, hr]
      rw [AnthropicEmitter.closeThinking, hnone, List.append_nil]
      exact { h with
        thinkingIndex := by simpa using hnone
        textIndex := by simpa [hcontent] using htext
        noContent := fun hp => absurd hp (by decide)
        noCalls := fun _ => ⟨hcalls, hclosed⟩
        blocks := by rw [hblocks]; exact h.blocks
        nextIndex := by rw [hblocks]; exact h.nextIndex
        finalBlocks := by simpa [Draft.closedBlocks, thinkingBlocks, hr] using h.finalBlocks }
    · have hsome : e.thinkingIndex = some 0 := by simpa [hr] using h.thinkingIndex
      have hopen : d.blocks .reasoning = [.thinking d.reasoning ""] := by
        simp [Draft.blocks, Draft.textsBlocks, thinkingBlocks, textBlocks, hr, hcontent, hcalls]
      have hdone : d.blocks .content = [.thinking d.reasoning thinkingSignature] := by
        simp [Draft.blocks, Draft.textsBlocks, thinkingBlocks, textBlocks, hr, hcontent, hcalls]
      have hzero : (clientOf frames).blocks[0]? = some (.thinking d.reasoning "") := by
        rw [h.holds (by decide) 0, hopen]
        rfl
      -- the client signs the block it has at index 0
      have hclient : clientOf (frames ++ [blockDelta 0 signatureDelta, blockStop 0]) =
          { clientOf frames with
            blocks := (clientOf frames).blocks.insert 0 (.thinking d.reasoning thinkingSignature) } := by
        rw [clientOf_append, List.foldl_cons, Client.read_blockDelta _ 0 _ hzero]
        simp [ClientBlock.grow, signatureDelta, strOr, asU32]
      rw [AnthropicEmitter.closeThinking, hsome]
      exact { h with
        ids := by rw [hclient]; exact h.ids
        thinkingIndex := by simp
        textIndex := by simpa [hcontent] using htext
        noContent := fun hp => absurd hp (by decide)
        noCalls := fun _ => ⟨hcalls, hclosed⟩
        blocks := by
          intro _
          rw [hclient, hdone]
          have := h.holds (by decide)
          rw [hopen] at this
          exact this.set (by simp) _
        nextIndex := by rw [hdone, h.nextIndex, hopen]; rfl
        finalBlocks := by
          simp [h.finalBlocks, Draft.closedBlocks, thinkingBlocks, hr, h.thinkingText,
            ClientBlock.toValue, thinkingBlock] }
  · have hnone : e.thinkingIndex = none := by simpa using h.thinkingIndex
    rw [AnthropicEmitter.closeThinking, hnone, List.append_nil]
    exact h

/-- Closing the text leaves only calls to come. -/
theorem ShowsBlocks.closeText {e : AnthropicEmitter} {frames : List SseFrame} {d : Draft}
    (h : ShowsBlocks fromStr .content e frames d) :
    ShowsBlocks fromStr .call (closeText e).1 (frames ++ (closeText e).2) d := by
  obtain ⟨hcalls, hclosed⟩ := h.noCalls (by decide)
  have hthinking : e.thinkingIndex = none := by simpa using h.thinkingIndex
  have hblocks : d.blocks .call = d.blocks .content := rfl
  by_cases hc : d.content = ""
  · have hnone : e.textIndex = none := by simpa [hc] using h.textIndex
    rw [AnthropicEmitter.closeText, hnone, List.append_nil]
    exact { h with
      thinkingIndex := by simpa using hthinking
      textIndex := by simpa using hnone
      noContent := fun hp => absurd hp (by decide)
      noCalls := fun hp => absurd rfl hp
      finalBlocks := by
        simpa [Draft.closedBlocks, Draft.textsBlocks, textBlocks, hc, hclosed] using h.finalBlocks }
  · have hsome : e.textIndex = some (thinkingBlocks .content d.reasoning).length := by
      simpa [hc] using h.textIndex
    rw [AnthropicEmitter.closeText, hsome]
    -- a block stop tells the client nothing
    have hclient : clientOf (frames ++ [blockStop (thinkingBlocks .content d.reasoning).length]) =
        clientOf frames := by
      rw [clientOf_append]
      simp
    exact { h with
      ids := by rw [hclient]; exact h.ids
      thinkingIndex := by simpa using hthinking
      textIndex := by simp
      noContent := fun hp => absurd hp (by decide)
      noCalls := fun hp => absurd rfl hp
      blocks := by rw [hclient, hblocks]; exact h.blocks
      finalBlocks := by
        simp [h.finalBlocks, Draft.closedBlocks, Draft.textsBlocks, textBlocks, hc, hclosed,
          h.textText, ClientBlock.toValue] }

theorem Draft.phase_eq_call {d : Draft} (h : d.calls ≠ []) : d.phase = .call := by
  simp [Draft.phase, h]

theorem Draft.phase_cases (d : Draft) :
    d.phase = .reasoning ∨ d.phase = .content ∨ d.phase = .call := by
  rw [Draft.phase]
  split
  · exact Or.inr (Or.inr rfl)
  · split
    · exact Or.inr (Or.inl rfl)
    · exact Or.inl rfl

/-- Closing both texts. -/
theorem ShowsBlocks.closeTexts {e : AnthropicEmitter} {frames : List SseFrame} {d : Draft}
    (h : ShowsBlocks fromStr d.phase e frames d) :
    ShowsBlocks fromStr .call (andThen (AnthropicEmitter.closeThinking e) AnthropicEmitter.closeText).1
      (frames ++ (andThen (AnthropicEmitter.closeThinking e) AnthropicEmitter.closeText).2) d := by
  rw [Transducer.andThen_fst, Transducer.andThen_snd, ← List.append_assoc]
  rcases d.phase_cases with hp | hp | hp
  · exact (h.closeThinking (Or.inl hp)).closeText
  · exact (h.closeThinking (Or.inr hp)).closeText
  · rw [hp] at h
    have hthinking : e.thinkingIndex = none := by simpa using h.thinkingIndex
    have htext : e.textIndex = none := by simpa using h.textIndex
    rw [AnthropicEmitter.closeThinking, hthinking, List.append_nil]
    simp only [AnthropicEmitter.closeText, htext, List.append_nil]
    exact h

/-- A message that has been opened stays so. -/
theorem ShowsBlocks.start_eq {p : Phase} {e : AnthropicEmitter} {frames : List SseFrame} {d : Draft}
    (h : ShowsBlocks fromStr p e frames d) (ho : d.opened = true) : start e = (e, []) := by
  rw [start, if_pos (h.started.trans ho)]

/-- The open tools are the open calls. -/
theorem ShowsBlocks.openCall_eq {p : Phase} {e : AnthropicEmitter} {frames : List SseFrame}
    {d : Draft} (h : ShowsBlocks fromStr p e frames d) (i : Nat) :
    d.openCall i = e.tools[i]?.map fun t => ⟨t.id, t.name, t.args⟩ := by
  rw [Draft.openCall]
  cases hf : d.calls.find? fun c => decide (c.index = i) && c.live with
  | none =>
      rw [List.find?_eq_none] at hf
      have hnone : e.tools[i]? = none := by
        by_contra hne
        obtain ⟨t, ht⟩ := Option.ne_none_iff_exists'.1 hne
        obtain ⟨k, c, hk, hi, hlive, -⟩ := (h.tools i t).1 ht
        exact hf c (List.mem_of_getElem? hk) (by simp [hi, hlive])
      simp [hnone]
  | some c =>
      have hc : c.index = i ∧ c.live = true := by simpa using List.find?_some hf
      obtain ⟨k, hk⟩ := List.getElem?_of_mem (List.mem_of_find?_eq_some hf)
      rw [(h.tools i _).2 ⟨k, c, hk, hc.1, hc.2, rfl⟩]
      rfl

/-- The frame that opens the message. -/
theorem clientOf_messageStart (frames : List SseFrame) (e : AnthropicEmitter) :
    clientOf (frames ++ [frame "message_start" [("type", .string "message_start"),
      ("message", e.startedMessage)]]) =
        { clientOf frames with message := e.startedMessage.asObject } := by
  rw [clientOf_append]
  simp [Client.read]

theorem ShowsBlocks.created {e : AnthropicEmitter} {frames : List SseFrame} {d : Draft}
    (h : ShowsBlocks fromStr d.phase e frames d) (ho : d.opened = false) (responseId model : String) :
    ShowsBlocks fromStr (d.step (.created responseId model)).phase
      (start { e with messageId := responseId, model }).1
      (frames ++ (start { e with messageId := responseId, model }).2)
      (d.step (.created responseId model)) := by
  have hfresh : e.started = false := h.started.trans ho
  simp only [start, hfresh, Bool.false_eq_true, if_false]
  exact { h with
    started := rfl
    ids := fun _ => ⟨rfl, rfl, congrArg Client.message (clientOf_messageStart frames _)⟩
    blocks := by rw [clientOf_messageStart]; exact h.blocks }

/-- Blocks that are opened leave the message alone. -/
theorem message_blockStart (frames : List SseFrame) (i : Nat) (block : Map) :
    (clientOf (frames ++ [blockStart i block])).message = (clientOf frames).message := by
  rw [clientOf_append, List.foldl_cons, List.foldl_nil, Client.message_read_blockStart]

/-- And so do blocks that grow. -/
theorem message_blockDelta (frames : List SseFrame) (i : Nat) (delta : Map) :
    (clientOf (frames ++ [blockDelta i delta])).message = (clientOf frames).message := by
  rw [clientOf_append, List.foldl_cons, List.foldl_nil, Client.message_read_blockDelta]

/-- A block is opened behind those there are. -/
theorem clientOf_blockStart {frames : List SseFrame} {l : List ClientBlock}
    (h : Holds (clientOf frames).blocks l) (hlen : l.length < 2 ^ 32) (block : Map)
    {b : ClientBlock} (hb : ClientBlock.ofStart (.object block) = some b) :
    Holds (clientOf (frames ++ [blockStart l.length block])).blocks (l ++ [b]) := by
  rw [clientOf_append, List.foldl_cons, List.foldl_nil, Client.read_blockStart, hb,
    asU32_of_lt hlen]
  exact h.snoc b

/-- A block grows. -/
theorem clientOf_blockDelta {frames : List SseFrame} {l : List ClientBlock}
    (h : Holds (clientOf frames).blocks l) (hlen : l.length ≤ 2 ^ 32) {i : Nat} {b : ClientBlock}
    (hi : l[i]? = some b) (delta : Map) :
    Holds (clientOf (frames ++ [blockDelta i delta])).blocks (l.set i (b.grow (.object delta))) := by
  obtain ⟨hlt, -⟩ := List.getElem?_eq_some_iff.1 hi
  have hindex : asU32 i = i := asU32_of_lt (Nat.lt_of_lt_of_le hlt hlen)
  have hb : (clientOf frames).blocks[asU32 i]? = some b := by
    rw [hindex]
    exact (h i).trans hi
  rw [clientOf_append, List.foldl_cons, List.foldl_nil, Client.read_blockDelta _ _ _ hb, hindex]
  exact h.set hlt _

/-- The thinking block is open, from the first piece of thinking on. -/
theorem ShowsBlocks.ensureThinkingOpen {e : AnthropicEmitter} {frames : List SseFrame} {d : Draft}
    (h : ShowsBlocks fromStr .reasoning e frames d) :
    (ensureThinkingOpen e).1 = { e with thinkingIndex := some 0, nextIndex := 1 } ∧
      (clientOf (frames ++ (ensureThinkingOpen e).2)).message = (clientOf frames).message ∧
      Holds (clientOf (frames ++ (ensureThinkingOpen e).2)).blocks [.thinking d.reasoning ""] := by
  have hcontent := h.noContent rfl
  obtain ⟨hcalls, -⟩ := h.noCalls (by decide)
  have hblocks : d.blocks .reasoning = thinkingBlocks .reasoning d.reasoning := by
    simp [Draft.blocks, Draft.textsBlocks, textBlocks, hcontent, hcalls]
  have hheld := h.holds (by decide)
  have hnext := h.nextIndex
  rw [hblocks] at hheld hnext
  by_cases hr : d.reasoning = ""
  · -- no reasoning so far: the block is opened at index 0
    have hnone : e.thinkingIndex = none := by simpa [hr] using h.thinkingIndex
    have hzero : e.nextIndex = 0 := by simpa [thinkingBlocks, hr] using hnext
    rw [thinkingBlocks, if_pos hr] at hheld
    have hopen := clientOf_blockStart hheld (by decide)
      [("type", .string "thinking"), ("thinking", .string "")] (b := .thinking "" "")
      (by decide)
    rw [AnthropicEmitter.ensureThinkingOpen, hnone, hzero, hr]
    exact ⟨rfl, message_blockStart frames 0 _, hopen⟩
  · -- the block is open, and nothing is written
    have hsome : e.thinkingIndex = some 0 := by simpa [hr] using h.thinkingIndex
    have hone : e.nextIndex = 1 := by simpa [thinkingBlocks, hr] using hnext
    rw [thinkingBlocks, if_neg hr, if_pos rfl] at hheld
    rw [AnthropicEmitter.ensureThinkingOpen, hsome, List.append_nil]
    refine ⟨?_, rfl, hheld⟩
    cases e
    simp only at hsome hone
    rw [hsome, hone]

/-- One more piece of thinking. -/
theorem ShowsBlocks.reasoningDelta {e : AnthropicEmitter} {frames : List SseFrame} {d : Draft}
    (h : ShowsBlocks fromStr d.phase e frames d) {t : String}
    (hallows : d.Allows (.reasoningDelta t)) :
    ShowsBlocks fromStr (d.step (.reasoningDelta t)).phase
      (AnthropicEmitter.onEvent fromStr e (.reasoningDelta t)).1
      (frames ++ (AnthropicEmitter.onEvent fromStr e (.reasoningDelta t)).2)
      (d.step (.reasoningDelta t)) := by
  rcases hallows with ⟨ho, ht, hcontent, hcalls⟩
  have hp : d.phase = .reasoning := by simp [Draft.phase, hcontent, hcalls]
  have hp' : (d.step (.reasoningDelta t)).phase = .reasoning := by
    simp [Draft.phase, Draft.step, hcontent, hcalls]
  rw [hp] at h
  rw [hp']
  obtain ⟨hopen, hmessage, hheld⟩ := h.ensureThinkingOpen
  have hheld' := clientOf_blockDelta hheld (by rw [List.length_singleton]; decide)
    (i := 0) rfl (thinkingDelta t)
  -- the one block there is grows by the delta
  have hblocks : (d.step (.reasoningDelta t)).blocks .reasoning =
      [.thinking (d.reasoning ++ t) ""] := by
    simp [Draft.blocks, Draft.textsBlocks, thinkingBlocks, textBlocks, Draft.step, hcontent, hcalls,
      ht]
  simp only [AnthropicEmitter.onEvent, h.start_eq ho, Transducer.andThen, hopen, List.nil_append,
    Option.toList_some, List.map_cons, List.map_nil, ← List.append_assoc]
  exact { h with
    ids := fun ho => by
      obtain ⟨h1, h2, h3⟩ := h.ids ho
      exact ⟨h1, h2, (message_blockDelta _ 0 _).trans (hmessage.trans h3)⟩
    thinkingText := by simp [Draft.step, h.thinkingText]
    thinkingIndex := by simp [Draft.step, ht]
    blocks := by
      intro _
      rw [hblocks]
      simpa [ClientBlock.grow, thinkingDelta, strOr] using hheld'
    nextIndex := by rw [hblocks]; rfl
    tools := by
      have := h.tools
      rw [hcalls] at this
      simpa [Draft.step, hcalls] using this.of_nil _ }

/-- The text block is open, from the first piece of text on. -/
theorem ShowsBlocks.ensureTextOpen {e : AnthropicEmitter} {frames : List SseFrame} {d : Draft}
    (h : ShowsBlocks fromStr .content e frames d) :
    (ensureTextOpen e).1 = { e with
        textIndex := some (thinkingBlocks .content d.reasoning).length
        nextIndex := (thinkingBlocks .content d.reasoning).length + 1 } ∧
      (clientOf (frames ++ (ensureTextOpen e).2)).message = (clientOf frames).message ∧
      Holds (clientOf (frames ++ (ensureTextOpen e).2)).blocks
        (thinkingBlocks .content d.reasoning ++ [.text d.content]) := by
  obtain ⟨hcalls, -⟩ := h.noCalls (by decide)
  have hblocks : d.blocks .content = thinkingBlocks .content d.reasoning ++ textBlocks d.content := by
    simp [Draft.blocks, Draft.textsBlocks, hcalls]
  have hheld := h.holds (by decide)
  have hnext := h.nextIndex
  rw [hblocks] at hheld hnext
  by_cases hc : d.content = ""
  · -- no text so far: the block is opened at the next index
    have hnone : e.textIndex = none := by simpa [hc] using h.textIndex
    rw [textBlocks, if_pos hc, List.append_nil] at hheld hnext
    have hlen := length_thinkingBlocks .content d.reasoning
    have hopen := clientOf_blockStart hheld (Nat.lt_of_le_of_lt hlen (by decide))
      [("type", .string "text"), ("text", .string "")] (b := .text "") (by decide)
    rw [AnthropicEmitter.ensureTextOpen, hnone, hnext, hc]
    exact ⟨rfl, message_blockStart frames _ _, hopen⟩
  · -- the block is open, and nothing is written
    have hsome : e.textIndex = some (thinkingBlocks .content d.reasoning).length := by
      simpa [hc] using h.textIndex
    rw [textBlocks, if_neg hc] at hheld hnext
    rw [AnthropicEmitter.ensureTextOpen, hsome, List.append_nil]
    refine ⟨?_, rfl, hheld⟩
    rw [List.length_append, List.length_singleton] at hnext
    cases e
    simp only at hsome hnext
    rw [hsome, hnext]

/-- One more piece of text. -/
theorem ShowsBlocks.textDelta {e : AnthropicEmitter} {frames : List SseFrame} {d : Draft}
    (h : ShowsBlocks fromStr d.phase e frames d) {t : String} (hallows : d.Allows (.textDelta t)) :
    ShowsBlocks fromStr (d.step (.textDelta t)).phase
      (AnthropicEmitter.onEvent fromStr e (.textDelta t)).1
      (frames ++ (AnthropicEmitter.onEvent fromStr e (.textDelta t)).2)
      (d.step (.textDelta t)) := by
  rcases hallows with ⟨ho, ht, hcalls⟩
  have hp : d.phase = .reasoning ∨ d.phase = .content := by
    rw [Draft.phase]
    by_cases hc : d.content = "" <;> simp [hcalls, hc]
  have hp' : (d.step (.textDelta t)).phase = .content := by
    simp [Draft.phase, Draft.step, hcalls, ht]
  have hstart := h.start_eq ho
  -- the thinking block is closed first, and a text block is opened if there is none
  have hclose := h.closeThinking hp
  rw [hp']
  obtain ⟨hopen, hmessage, hheld⟩ := hclose.ensureTextOpen
  -- the delta reaches the text block, which is the last one
  have hlen : (thinkingBlocks .content d.reasoning ++ [ClientBlock.text d.content]).length ≤
      2 ^ 32 := by
    have := length_thinkingBlocks .content d.reasoning
    rw [List.length_append, List.length_singleton]
    omega
  have hheld' := clientOf_blockDelta hheld hlen
    (i := (thinkingBlocks .content d.reasoning).length) (b := .text d.content) (by simp)
    (AnthropicEmitter.textDelta t)
  have hblocks : (d.step (.textDelta t)).blocks .content =
      thinkingBlocks .content d.reasoning ++ [.text (d.content ++ t)] := by
    simp [Draft.blocks, Draft.textsBlocks, textBlocks, Draft.step, hcalls, ht]
  simp only [AnthropicEmitter.onEvent, hstart, Transducer.andThen, hopen, List.nil_append,
    Option.toList_some, List.map_cons, List.map_nil, ← List.append_assoc]
  exact { hclose with
    ids := fun ho => by
      obtain ⟨h1, h2, h3⟩ := hclose.ids ho
      exact ⟨h1, h2, (message_blockDelta _ _ _).trans (hmessage.trans h3)⟩
    textText := by simp [Draft.step, hclose.textText]
    textIndex := by simp [Draft.step, ht]
    noContent := fun hp => absurd hp (by decide)
    blocks := by
      intro _
      rw [hblocks]
      simpa [ClientBlock.grow, AnthropicEmitter.textDelta, strOr] using hheld'
    nextIndex := by rw [hblocks]; simp
    tools := by
      have := hclose.tools
      rw [hcalls] at this
      simpa [Draft.step, hcalls] using this.of_nil _ }

/-- A call starts. -/
theorem ShowsBlocks.toolCallStart {e : AnthropicEmitter} {frames : List SseFrame} {d : Draft}
    (h : ShowsBlocks fromStr d.phase e frames d) {i : Nat} {callId name : String}
    (hallows : d.Allows (.toolCallStart i callId name)) :
    ShowsBlocks fromStr (d.step (.toolCallStart i callId name)).phase
      (AnthropicEmitter.onEvent fromStr e (.toolCallStart i callId name)).1
      (frames ++ (AnthropicEmitter.onEvent fromStr e (.toolCallStart i callId name)).2)
      (d.step (.toolCallStart i callId name)) := by
  rcases hallows with ⟨ho, hnone⟩
  have hstart := h.start_eq ho
  have hclose := h.closeTexts
  have hp' : (d.step (.toolCallStart i callId name)).phase = .call :=
    Draft.phase_eq_call (by simp [Draft.step])
  rw [hp']
  have hnext := hclose.nextIndex
  have hheld : (d.blocks .call).length < 2 ^ 32 → Holds _ _ := fun hlen =>
    clientOf_blockStart (hclose.blocks (Nat.le_of_lt hlen)) hlen
      [("type", .string "tool_use"), ("id", .string callId), ("name", .string name),
        ("input", .object [])] (b := .toolUse callId name "")
      (by simp [ClientBlock.ofStart, strOr])
  rw [← hnext] at hheld
  -- the texts are closed, and the call gets the next block
  have hevent : AnthropicEmitter.onEvent fromStr e (.toolCallStart i callId name) =
      andThen (andThen (AnthropicEmitter.closeThinking e) AnthropicEmitter.closeText) fun e =>
        ({ e with
            nextIndex := e.nextIndex + 1
            anyTool := true
            tools := e.tools.insert i ⟨e.nextIndex, callId, name, ""⟩ },
          [blockStart e.nextIndex [("type", .string "tool_use"), ("id", .string callId),
            ("name", .string name), ("input", .object [])]]) := by
    rw [AnthropicEmitter.onEvent, hstart]
    rfl
  rw [hevent]
  generalize andThen (AnthropicEmitter.closeThinking e) AnthropicEmitter.closeText = r
    at hclose hnext hheld
  rw [Transducer.andThen_fst, Transducer.andThen_snd, ← List.append_assoc]
  have hblocks : (d.step (.toolCallStart i callId name)).blocks .call =
      d.blocks .call ++ [.toolUse callId name ""] := by
    simp [Draft.blocks, Draft.textsBlocks, Draft.step, callBlock]
  exact { hclose with
    ids := fun ho => by
      obtain ⟨h1, h2, h3⟩ := hclose.ids ho
      exact ⟨h1, h2, (message_blockStart _ _ _).trans h3⟩
    noCalls := fun hp => absurd rfl hp
    blocks := by
      rw [hblocks, List.length_append, List.length_singleton, ← hnext]
      exact hheld
    nextIndex := by rw [hblocks, List.length_append, List.length_singleton, hnext]
    tools := by
      have hopen := hclose.openCall_eq i
      rw [hnone] at hopen
      rw [hnext, Draft.blocks, List.length_append, List.length_map]
      exact hclose.tools.start (Option.map_eq_none_iff.1 hopen.symm) callId name
    anyTool := by simp [Draft.step] }

/-- While a tool is open the draft is at its calls. -/
theorem ShowsBlocks.phase_of_tool {p : Phase} {e : AnthropicEmitter} {frames : List SseFrame}
    {d : Draft} (h : ShowsBlocks fromStr p e frames d) {i : Nat} {t : ToolBlock}
    (ht : e.tools[i]? = some t) : d.calls ≠ [] ∧ d.phase = .call := by
  obtain ⟨k, c, hk, -⟩ := (h.tools i t).1 ht
  have hne : d.calls ≠ [] := by
    intro hnil
    simp [hnil] at hk
  exact ⟨hne, Draft.phase_eq_call hne⟩

/-- Arguments of a call. -/
theorem ShowsBlocks.toolCallArgsDelta {e : AnthropicEmitter} {frames : List SseFrame} {d : Draft}
    (h : ShowsBlocks fromStr d.phase e frames d) (i : Nat) (args : String) :
    ShowsBlocks fromStr (d.step (.toolCallArgsDelta i args)).phase
      (AnthropicEmitter.onEvent fromStr e (.toolCallArgsDelta i args)).1
      (frames ++ (AnthropicEmitter.onEvent fromStr e (.toolCallArgsDelta i args)).2)
      (d.step (.toolCallArgsDelta i args)) := by
  cases ht : e.tools[i]? with
  | none =>
      -- an index that is not open: neither the draft nor the client takes the text
      have hsame : d.calls.map (DraftCall.append i args) = d.calls := by
        refine (List.map_congr_left fun c hc => ?_).trans (List.map_id _)
        rw [DraftCall.append, if_neg (h.tools.not_live_of_none ht hc)]
        rfl
      have hstep : d.step (.toolCallArgsDelta i args) = d := by
        rw [Draft.step, hsame]
      rw [hstep, AnthropicEmitter.onEvent, ht, List.append_nil]
      exact h
  | some tool =>
      obtain ⟨k, c, hk, hi, hlive, htool⟩ := (h.tools i tool).1 ht
      obtain ⟨hne, hp⟩ := h.phase_of_tool ht
      have hp' : (d.step (.toolCallArgsDelta i args)).phase = .call :=
        Draft.phase_eq_call (by simp [Draft.step, hne])
      rw [hp] at h
      -- the block of the call stands behind those of the texts
      have hat : (d.blocks .call)[(d.textsBlocks .call).length + k]? = some (callBlock c.call) := by
        rw [Draft.blocks, List.getElem?_append_right (Nat.le_add_right _ _)]
        simp [hk]
      have hheld : (d.blocks .call).length ≤ 2 ^ 32 → Holds _ _ := fun hlen =>
        clientOf_blockDelta (h.blocks hlen) hlen hat (inputJsonDelta args)
      have hindex : tool.index = (d.textsBlocks .call).length + k := by rw [htool, shownTool]
      have hblocks : (d.step (.toolCallArgsDelta i args)).blocks .call =
          (d.blocks .call).set ((d.textsBlocks .call).length + k)
            ((callBlock c.call).grow (.object (inputJsonDelta args))) := by
        rw [Draft.blocks, Draft.blocks, List.set_append_right _ _ (Nat.le_add_right _ _),
          Nat.add_sub_cancel_left, Draft.step, h.tools.map_append hk hi hlive, List.map_set]
        simp [DraftCall.append, hi, hlive, callBlock, ClientBlock.grow, inputJsonDelta, strOr,
          Draft.textsBlocks]
      rw [hp', AnthropicEmitter.onEvent, ht]
      simp only [hindex]
      exact { h with
        ids := fun ho => by
          obtain ⟨h1, h2, h3⟩ := h.ids ho
          exact ⟨h1, h2, (message_blockDelta _ _ _).trans h3⟩
        noCalls := fun hp => absurd rfl hp
        blocks := by
          rw [hblocks, List.length_set]
          exact hheld
        nextIndex := by simp [h.nextIndex, Draft.blocks, Draft.textsBlocks, Draft.step]
        tools := by
          have := h.tools.append hk hi hlive args
          rw [DraftCall.append, if_pos ⟨hi, hlive⟩] at this
          rw [htool]
          exact this
        anyTool := by simp [h.anyTool, Draft.step] }

/-- The end of a call is not seen in the blocks. -/
theorem Draft.blocks_toolCallDone (d : Draft) (i : Nat) :
    (d.step (.toolCallDone i)).blocks .call = d.blocks .call := by
  have hcall : DraftCall.call ∘ DraftCall.finish i = DraftCall.call := by
    funext c
    simp only [Function.comp_apply, DraftCall.finish]
    split <;> rfl
  have hblock : (callBlock ∘ DraftCall.call) ∘ DraftCall.finish i = callBlock ∘ DraftCall.call := by
    rw [Function.comp_assoc, hcall]
  simp only [Draft.blocks, Draft.step, List.map_map]
  exact congrArg (d.textsBlocks .call ++ d.calls.map ·) hblock

/-- The end of a call. -/
theorem ShowsBlocks.toolCallDone {e : AnthropicEmitter} {frames : List SseFrame} {d : Draft}
    (h : ShowsBlocks fromStr d.phase e frames d) (i : Nat) :
    ShowsBlocks fromStr (d.step (.toolCallDone i)).phase
      (AnthropicEmitter.onEvent fromStr e (.toolCallDone i)).1
      (frames ++ (AnthropicEmitter.onEvent fromStr e (.toolCallDone i)).2)
      (d.step (.toolCallDone i)) := by
  have hopen := h.openCall_eq i
  cases ht : e.tools[i]? with
  | none =>
      -- an index that is not open ends no call
      have hsame : d.calls.map (DraftCall.finish i) = d.calls := by
        refine (List.map_congr_left fun c hc => ?_).trans (List.map_id _)
        have hdead := h.tools.not_live_of_none ht hc
        rcases c with ⟨index, call, live⟩
        by_cases hi : index = i <;> simp_all [DraftCall.finish]
      have hstep : d.step (.toolCallDone i) = d := by
        rw [ht] at hopen
        rw [Draft.step, hsame, hopen]
        simp
      rw [hstep, AnthropicEmitter.onEvent, ht, List.append_nil]
      exact h
  | some tool =>
      obtain ⟨k, c, hk, hi, hlive, htool⟩ := (h.tools i tool).1 ht
      obtain ⟨hne, hp⟩ := h.phase_of_tool ht
      have hp' : (d.step (.toolCallDone i)).phase = .call :=
        Draft.phase_eq_call (by simp [Draft.step, hne])
      rw [hp] at h
      have hclient : clientOf (frames ++ [blockStop tool.index]) = clientOf frames := by
        rw [clientOf_append]
        simp
      have hblocks := d.blocks_toolCallDone i
      rw [hp', AnthropicEmitter.onEvent, ht]
      simp only [finishTool]
      exact { h with
        ids := by rw [hclient]; exact h.ids
        noCalls := fun hp => absurd rfl hp
        blocks := by rw [hclient, hblocks]; exact h.blocks
        nextIndex := by rw [hblocks]; exact h.nextIndex
        tools := h.tools.finish i
        anyTool := by simp [h.anyTool, Draft.step]
        finalBlocks := by
          rw [ht] at hopen
          simp [h.finalBlocks, Draft.closedBlocks, Draft.textsBlocks, Draft.step, hopen, callBlock,
            ClientBlock.toValue] }

/-- **The client of the emitter holds the draft of the events seen so far.** -/
theorem followsDraft_blocks (fromStr : String → Option Value) :
    FollowsDraft (AnthropicEmitter.onEvent fromStr)
      fun e frames d => ShowsBlocks fromStr d.phase e frames d := by
  intro e frames d ev h hallows
  cases ev with
  | created responseId model => exact h.created hallows responseId model
  | reasoningDelta t => exact h.reasoningDelta hallows
  | textDelta t => exact h.textDelta hallows
  | toolCallStart i callId name => exact h.toolCallStart hallows
  | toolCallArgsDelta i args => exact h.toolCallArgsDelta i args
  | toolCallDone i => exact h.toolCallDone i
  | usage counts =>
      rw [AnthropicEmitter.onEvent, List.append_nil]
      exact { h with usage := rfl }
  | completed => exact absurd hallows id
  | error message status => exact absurd hallows id

end Shows

/-! ## The end of the message -/

section Message

variable (fromStr : String → Option Value)

/-- A completion as blocks. -/
def messageBlocks (m : Completion) : List ClientBlock :=
  thinkingBlocks .call m.reasoning ++ textBlocks m.content ++ m.calls.map callBlock

/-- The message of a completion. -/
def completionMessage (responseId : String) (m : Completion) : Value :=
  finalMessage { AnthropicEmitter.new with
    messageId := responseId
    model := m.model
    anyTool := decide (m.calls ≠ [])
    usage := m.usage.map usageCounts
    finalBlocks := (messageBlocks m).map (ClientBlock.toValue fromStr) }

variable {fromStr}

/-- The client at the end of the message. -/
theorem rebuilt_messageDelta {e : AnthropicEmitter} {frames : List SseFrame}
    {l : List ClientBlock} (hmessage : (clientOf frames).message = e.startedMessage.asObject)
    (hblocks : Holds (clientOf frames).blocks l) :
    rebuiltMessage fromStr (frames ++ [e.messageDelta, messageStop]) =
      some (finalMessage { e with finalBlocks := l.map (ClientBlock.toValue fromStr) }) := by
  have hlist : ((clientOf frames).blocks.toList.map fun kb => kb.2.toValue fromStr) =
      l.map (ClientBlock.toValue fromStr) := by
    rw [← hblocks.toList, List.map_map]
    rfl
  have hread : (clientOf frames).read e.messageDelta = { clientOf frames with
      message := (clientOf frames).message.map (Client.readStop e.messageDelta) } := by
    simp [Client.read, messageDelta]
  rw [rebuiltMessage, clientOf_append, List.foldl_cons, hread, List.foldl_cons,
    Client.read_messageStop, List.foldl_nil, Client.rebuilt, hlist, hmessage]
  rfl

/-- **The last event.** What was drafted is in the final message, and the client
has rebuilt it. -/
theorem ShowsBlocks.complete {e : AnthropicEmitter} {frames : List SseFrame} {d : Draft}
    {responseId : String} {m : Completion} (h : ShowsBlocks fromStr d.phase e frames d)
    (hd : Drafted responseId m d) (hcalls : d.calls.map DraftCall.call = m.calls) :
    finalMessage (AnthropicEmitter.onEvent fromStr e .completed).1 =
        completionMessage fromStr responseId m ∧
      ((messageBlocks m).length ≤ 2 ^ 32 →
        rebuiltMessage fromStr (frames ++ (AnthropicEmitter.onEvent fromStr e .completed).2) =
          some (completionMessage fromStr responseId m)) := by
  have hclose := h.closeTexts
  -- every call of the draft has ended, so no tool is open
  have htools : (andThen (AnthropicEmitter.closeThinking e) AnthropicEmitter.closeText).1.tools = ∅ := by
    refine Std.ExtTreeMap.ext_getElem? fun {i} => ?_
    have := hclose.openCall_eq i
    rw [Draft.openCall_eq_none_of_dead hd.dead, eq_comm, Option.map_eq_none_iff] at this
    rw [this, Std.ExtTreeMap.getElem?_empty]
  have hevent : AnthropicEmitter.onEvent fromStr e .completed =
      (let r := andThen (AnthropicEmitter.closeThinking e) AnthropicEmitter.closeText
      (r.1, r.2 ++ [r.1.messageDelta, messageStop])) := by
    rw [AnthropicEmitter.onEvent, andThen, andThen, closeOpenTools_of_empty fromStr htools, List.append_nil]
  rw [hevent, ← List.append_assoc]
  generalize andThen (AnthropicEmitter.closeThinking e) AnthropicEmitter.closeText = r at hclose
  obtain ⟨hid, hmodel, hmessage⟩ := hclose.ids hd.opened
  have hany : decide (d.calls ≠ []) = decide (m.calls ≠ []) := by
    rw [← hcalls]
    simp
  -- the blocks of the draft are those of the message
  have hblocks : d.blocks .call = messageBlocks m := by
    rw [Draft.blocks, Draft.textsBlocks, messageBlocks, hd.reasoning_eq, hd.content_eq, ← hcalls,
      List.map_map]
    rfl
  have hfinal : finalMessage { r.1 with
      finalBlocks := (messageBlocks m).map (ClientBlock.toValue fromStr) } =
        completionMessage fromStr responseId m := by
    simp only [finalMessage, completionMessage, stopReason, usageJson, anthropicUsage]
    rw [hid, hmodel, hclose.anyTool, hclose.usage, hany, hd.responseId_eq, hd.model_eq,
      hd.usage_eq]
  have hfinalBlocks : r.1.finalBlocks = (messageBlocks m).map (ClientBlock.toValue fromStr) := by
    rw [hclose.finalBlocks, Draft.closedBlocks, messageBlocks, Draft.textsBlocks, hd.reasoning_eq,
      hd.content_eq, hd.closed_eq]
    all_goals decide
  constructor
  · rw [← hfinal, ← hfinalBlocks]
  · intro hlen
    rw [rebuilt_messageDelta hmessage (hclose.blocks (hblocks ▸ hlen)), hblocks, hfinal]

end Message

/-! ## Both paths -/

section Paths

variable (fromStr : String → Option Value)

/-- The message the non-streaming path answers with. -/
def answeredMessage (responseId : String) (resp : Value) : Value :=
  finalMessage (Transducer.run (AnthropicEmitter.onEvent fromStr) .new
    (completionToEvents resp responseId)).1

variable {fromStr}

theorem completion_run {responseId : String} {m : Completion} {evs : List CanonicalEvent}
    (ho : Draft.new.Orderly evs) (hd : Drafted responseId m (Draft.new.after evs))
    (hcalls : (Draft.new.after evs).calls.map DraftCall.call = m.calls) :
    finalMessage (Transducer.run (AnthropicEmitter.onEvent fromStr) .new (evs ++ [.completed])).1 =
        completionMessage fromStr responseId m ∧
      ((messageBlocks m).length ≤ 2 ^ 32 →
        rebuiltMessage fromStr
            (Transducer.run (AnthropicEmitter.onEvent fromStr) .new (evs ++ [.completed])).2 =
          some (completionMessage fromStr responseId m)) := by
  have hrun := (followsDraft_blocks fromStr).run showsBlocks_new ho
  obtain ⟨hfinal, hrebuilt⟩ := hrun.complete hd hcalls
  rw [Transducer.run_append, Transducer.run_singleton]
  exact ⟨hfinal, fun hlen => by simpa using hrebuilt hlen⟩

/-- The non-streaming path answers with the message of the completion. -/
theorem answeredMessage_eq (responseId : String) (resp : Value) :
    answeredMessage fromStr responseId resp =
      completionMessage fromStr responseId (completionOf resp) := by
  obtain ⟨ho, hd, hcalls⟩ := orderly_completionEvents responseId (completionOf resp)
  rw [answeredMessage, completionToEvents_eq]
  exact (completion_run ho hd hcalls).1

/-- A client of the stream rebuilds the message of the completion. -/
theorem rebuiltMessage_messageFrames (responseId : String) {chunks : List Value} {m : Completion}
    (h : Fragments chunks m) (hstart : (startOrder chunks).Pairwise (· < ·))
    (hlen : (messageBlocks m).length ≤ 2 ^ 32) :
    rebuiltMessage fromStr (messageFrames fromStr responseId chunks) =
      some (completionMessage fromStr responseId m) := by
  have hcount : m.calls.length ≤ 2 ^ 32 := by
    rw [messageBlocks, List.length_append, List.length_map] at hlen
    omega
  obtain ⟨ho, hd, hcalls⟩ := orderly_streamEvents responseId h hcount
  exact (completion_run ho hd (hcalls hstart)).2 hlen

/-- **One message, whole or streamed.** However a message of at most `2 ^ 32`
blocks is fragmented, its calls started in index order, a client rebuilds the
message that the non-streaming path answers with. -/
theorem rebuiltMessage_eq_finalMessage (fromStr : String → Option Value) (responseId : String)
    {resp : Value} {chunks : List Value} (h : Fragments chunks (completionOf resp))
    (hstart : (startOrder chunks).Pairwise (· < ·))
    (hlen : (messageBlocks (completionOf resp)).length ≤ 2 ^ 32) :
    rebuiltMessage fromStr (messageFrames fromStr responseId chunks) =
      some (answeredMessage fromStr responseId resp) := by
  rw [answeredMessage_eq, rebuiltMessage_messageFrames responseId h hstart hlen]

end Paths

/-- A message with thinking, text and two calls, whose fragments interleave. -/
theorem rebuiltMessage_eq_finalMessage_interleaved :
    let call := fun (i : Nat) (id name args : String) => Value.object [("index", .ofNat i),
      ("id", .string id), ("function", .object [("name", .string name), ("arguments", .string args)])]
    let resp := Value.object [("model", .string "m"), ("choices", .array [.object [("message",
      .object [("reasoning", .string "ab"), ("content", .string "c"), ("tool_calls",
        .array [call 0 "c0" "f" "{}", call 1 "c1" "g" "["])])]])]
    let chunks := [.object [("model", .string "m"), ("choices", .array [.object [("delta",
        .object [("reasoning", .string "a")])]])], deltaChunk [("reasoning", .string "b")],
      deltaChunk [("content", .string "c")],
      deltaChunk [("tool_calls", .array [call 0 "c0" "f" "\x7b", call 1 "c1" "g" "["])],
      deltaChunk [("tool_calls", .array [call 0 "" "" "\x7d"])],
      .object [("choices", .array [.object [("finish_reason", .string "stop")]])]]
    let fromStr := fun s => if s = "{}" then some (Value.object []) else none
    rebuiltMessage fromStr (messageFrames fromStr "r" chunks) =
      some (answeredMessage fromStr "r" resp) :=
  rebuiltMessage_eq_finalMessage (fun s => if s = "{}" then some (Value.object []) else none) "r"
    { noError := by decide
      first := by decide
      ordered := by decide
      single := by decide
      reasoning := by decide
      content := by decide
      indexed := by decide
      calls := callAt_eq_getElem? (by decide) (by decide)
      usage := by decide }
    (by decide) (by decide)

/-- The content blocks of a message object. -/
def contentBlocks (message : Value) : List Value :=
  ((message.get "content").bind Value.asArray).getD []

theorem contentBlocks_completionMessage (fromStr : String → Option Value) (responseId : String)
    (m : Completion) :
    contentBlocks (completionMessage fromStr responseId m) =
      (messageBlocks m).map (ClientBlock.toValue fromStr) := by
  simp [contentBlocks, completionMessage, finalMessage]

/-- One call more than there are 32-bit indices: the rebuilt message lacks it. -/
theorem not_rebuiltMessage_eq_manyCalls :
    Fragments (manyChunks (2 ^ 32 + 1)) (completionOf (manyCalls (2 ^ 32 + 1))) ∧
      (startOrder (manyChunks (2 ^ 32 + 1))).Pairwise (· < ·) ∧
      rebuiltMessage (fun _ => none)
          (messageFrames (fun _ => none) "r" (manyChunks (2 ^ 32 + 1))) ≠
        some (answeredMessage (fun _ => none) "r" (manyCalls (2 ^ 32 + 1))) := by
  have hstart : ∀ n, (startOrder (manyChunks n)).Pairwise (· < ·) := fun n => by
    rw [startOrder_manyChunks]
    exact List.pairwise_lt_range
  have hlen : ∀ n, (messageBlocks (completionOf (manyCalls n))).length = n := fun n => by
    simp [completionOf_manyCalls, messageBlocks, thinkingBlocks, textBlocks]
  refine ⟨fragments_manyChunks _, hstart _, fun heq => ?_⟩
  rw [messageFrames, streamEvents_manyChunks_succ "r" (by decide) (by decide), ← messageFrames,
    rebuiltMessage_messageFrames "r" (fragments_manyChunks (2 ^ 32)) (hstart _)
      (Nat.le_of_eq (hlen _)),
    answeredMessage_eq, Option.some.injEq] at heq
  have hsame := congrArg (fun v => (contentBlocks v).length) heq
  simp only [contentBlocks_completionMessage, List.length_map, hlen] at hsame
  exact absurd hsame (by decide)

end AiApiBridge
