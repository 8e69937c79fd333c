import AiApiBridge.Wire.AnthropicEmitter
import AiApiBridge.Wire.ChunkReading
import AiApiBridge.Wire.ItemMarks

/-!
# Delta frames

A client of either dialect reads the pieces of the reasoning and of the text off delta
frames. Both emitters write one such frame for each delta event of that kind and none
for another event, whatever their state (`ResponsesEmitter.passes`,
`AnthropicEmitter.passes`), so the pieces of a run are those of its events
(`Passes.run`).
-/

set_option autoImplicit false

namespace AiApiBridge

open ChatStreamParser (contentOf reasoningOf)
open Transducer (Step)

/-! ## Reading pieces -/

namespace TextKind

/-- The piece of text of a kind that an event carries. -/
def pieceOf : TextKind → CanonicalEvent → Option String
  | reasoning => reasoningOf
  | message => contentOf

/-- The event of a delta frame of the Responses dialect. -/
def deltaEvent : TextKind → String
  | reasoning => "response.reasoning_summary_text.delta"
  | message => "response.output_text.delta"

/-- The type of a block delta of the Anthropic dialect. -/
def deltaType : TextKind → String
  | reasoning => "thinking_delta"
  | message => "text_delta"

/-- The member of a block delta that holds the piece. -/
def deltaKey : TextKind → String
  | reasoning => "thinking"
  | message => "text"

end TextKind

/-- The piece in a frame of the Responses dialect. -/
def responsesPiece (k : TextKind) (fr : SseFrame) : Option String :=
  if fr.event = k.deltaEvent then (fr.get "delta").bind Value.asStr else none

/-- The piece in a frame of the Anthropic dialect. -/
def anthropicPiece (k : TextKind) (fr : SseFrame) : Option String :=
  if fr.event = "content_block_delta" ∧ fr.get₂ "delta" "type" = some (.string k.deltaType) then
    (fr.get₂ "delta" k.deltaKey).bind Value.asStr
  else none

section Passes

variable {σ β : Type} {read : SseFrame → Option β} {part : CanonicalEvent → Option β}
  {emit : Step σ CanonicalEvent SseFrame}

/-- An emitter writes one readable frame for an event that carries a part, and none for
another event. -/
def Passes (read : SseFrame → Option β) (part : CanonicalEvent → Option β)
    (emit : Step σ CanonicalEvent SseFrame) : Prop :=
  ∀ s ev, (emit s ev).2.filterMap read = (part ev).toList

/-- **What is read off a run** are the parts of its events. -/
theorem Passes.run (h : Passes read part emit) (s : σ) (evs : List CanonicalEvent) :
    (Transducer.run emit s evs).2.filterMap read = evs.filterMap part := by
  induction evs generalizing s with
  | nil => rfl
  | cons ev evs ih =>
      rw [Transducer.run_cons, List.filterMap_append, h s ev, ih]
      cases hp : part ev <;> simp [hp]

end Passes

/-! ## The Responses dialect -/

namespace ResponsesEmitter

section Actions

variable (k : TextKind) (uuid : Nat → String) (e : ResponsesEmitter)

attribute [local simp] responsesPiece TextKind.deltaEvent TextKind.pieceOf contentOf reasoningOf

attribute [local simp] itemAdded itemDone reasoningDeltaFrame contentPartAdded textDeltaFrame
  outputTextDone contentPartDone argumentsDelta argumentsDone createdFrame completedFrame
  failedFrame

theorem piece_ensureReasoningOpen :
    (ensureReasoningOpen uuid e).2.filterMap (responsesPiece k) = [] := by
  cases k <;> cases h : e.reasoningItem <;> simp [ensureReasoningOpen, h]

theorem piece_closeReasoning : (closeReasoning e).2.filterMap (responsesPiece k) = [] := by
  cases k <;> cases h : e.reasoningItem <;> simp [closeReasoning, h]

theorem piece_ensureMessageOpen :
    (ensureMessageOpen uuid e).2.filterMap (responsesPiece k) = [] := by
  cases k <;> cases h : e.messageItem <;> simp [ensureMessageOpen, h]

theorem piece_closeMessage : (closeMessage e).2.filterMap (responsesPiece k) = [] := by
  cases k <;> cases h : e.messageItem <;> simp [closeMessage, h]

theorem piece_finishTool (t : ToolItem) : (finishTool e t).2.filterMap (responsesPiece k) = [] := by
  cases k <;> simp [finishTool]

theorem reasoningItem_ensureReasoningOpen :
    (ensureReasoningOpen uuid e).1.reasoningItem ≠ none := by
  cases h : e.reasoningItem <;> simp [ensureReasoningOpen, h]

theorem messageItem_ensureMessageOpen : (ensureMessageOpen uuid e).1.messageItem ≠ none := by
  cases h : e.messageItem <;> simp [ensureMessageOpen, h]

theorem piece_closeOpenTools : (closeOpenTools e).2.filterMap (responsesPiece k) = [] :=
  Transducer.filterMap_run_eq_nil (fun e' t _ => piece_finishTool k e' t) _

theorem piece_onEventCore (ev : CanonicalEvent) :
    (onEventCore uuid e ev).2.filterMap (responsesPiece k) = (k.pieceOf ev).toList := by
  cases ev with
  | created responseId model => cases k <;> simp [onEventCore]
  | reasoningDelta t =>
      -- behind `ensureReasoningOpen` a reasoning item is open, so the delta is written
      obtain ⟨item, hitem⟩ := Option.ne_none_iff_exists'.1
        (reasoningItem_ensureReasoningOpen uuid e)
      simp only [onEventCore, Transducer.andThen_snd, List.filterMap_append,
        piece_ensureReasoningOpen, List.nil_append, hitem]
      cases k <;> simp
  | textDelta t =>
      -- and so behind `ensureMessageOpen`
      obtain ⟨item, hitem⟩ := Option.ne_none_iff_exists'.1
        (messageItem_ensureMessageOpen uuid (closeReasoning e).1)
      simp only [onEventCore, Transducer.andThen_fst, Transducer.andThen_snd,
        List.filterMap_append, piece_closeReasoning, piece_ensureMessageOpen, List.nil_append,
        hitem]
      cases k <;> simp
  | toolCallStart i callId name =>
      simp only [onEventCore, Transducer.andThen_snd, List.filterMap_append, piece_closeReasoning,
        piece_closeMessage, List.nil_append]
      cases k <;> simp
  | toolCallArgsDelta i delta =>
      cases k <;> cases h : e.tools[i]? <;> simp [onEventCore, h]
  | toolCallDone i =>
      have hpiece : k.pieceOf (.toolCallDone i) = none := by cases k <;> rfl
      rw [hpiece]
      cases h : e.tools[i]? with
      | none => simp [onEventCore, h]
      | some t =>
          simp only [onEventCore, h]
          exact piece_finishTool k { e with tools := e.tools.erase i } t
  | usage counts => cases k <;> rfl
  | completed =>
      simp only [onEventCore, Transducer.andThen_snd, List.filterMap_append, piece_closeReasoning,
        piece_closeMessage, piece_closeOpenTools, List.nil_append]
      cases k <;> simp
  | error message status => cases k <;> simp [onEventCore]

end Actions

/-- Sequence numbers belong to no piece. -/
theorem piece_number (k : TextKind) (seq : Nat) (frames : List SseFrame) :
    (number seq frames).filterMap (responsesPiece k) = frames.filterMap (responsesPiece k) := by
  induction frames generalizing seq with
  | nil => rfl
  | cons fr frames ih =>
      rcases fr with ⟨event, data⟩
      cases data <;> simp [number, List.filterMap_cons, responsesPiece, SseFrame.get, ih]

/-- **One delta frame for each delta event.** -/
theorem passes (k : TextKind) (uuid : Nat → String) :
    Passes (responsesPiece k) k.pieceOf (onEvent uuid) := by
  intro e ev
  rw [onEvent, piece_number]
  exact piece_onEventCore k uuid e ev

end ResponsesEmitter

/-! ## The Anthropic dialect -/

namespace AnthropicEmitter

section Actions

variable (k : TextKind) (fromStr : String → Option Value) (e : AnthropicEmitter)

attribute [local simp] anthropicPiece TextKind.deltaType TextKind.deltaKey TextKind.pieceOf
  contentOf reasoningOf

attribute [local simp] blockStart blockDelta blockStop thinkingDelta signatureDelta textDelta
  inputJsonDelta messageStop messageDelta errorFrame

theorem piece_start : (start e).2.filterMap (anthropicPiece k) = [] := by
  cases k <;> cases h : e.started <;> simp [start, h]

theorem piece_ensureThinkingOpen :
    (ensureThinkingOpen e).2.filterMap (anthropicPiece k) = [] := by
  cases k <;> cases h : e.thinkingIndex <;> simp [ensureThinkingOpen, h]

theorem piece_closeThinking : (closeThinking e).2.filterMap (anthropicPiece k) = [] := by
  cases k <;> cases h : e.thinkingIndex <;> simp [closeThinking, h]

theorem piece_ensureTextOpen : (ensureTextOpen e).2.filterMap (anthropicPiece k) = [] := by
  cases k <;> cases h : e.textIndex <;> simp [ensureTextOpen, h]

theorem piece_closeText : (closeText e).2.filterMap (anthropicPiece k) = [] := by
  cases k <;> cases h : e.textIndex <;> simp [closeText, h]

theorem piece_finishTool (tb : ToolBlock) :
    (finishTool fromStr e tb).2.filterMap (anthropicPiece k) = [] := by
  cases k <;> simp [finishTool]

theorem thinkingIndex_ensureThinkingOpen : (ensureThinkingOpen e).1.thinkingIndex ≠ none := by
  cases h : e.thinkingIndex <;> simp [ensureThinkingOpen, h]

theorem textIndex_ensureTextOpen : (ensureTextOpen e).1.textIndex ≠ none := by
  cases h : e.textIndex <;> simp [ensureTextOpen, h]

theorem piece_closeOpenTools :
    (closeOpenTools fromStr e).2.filterMap (anthropicPiece k) = [] :=
  Transducer.filterMap_run_eq_nil (fun e' tb _ => piece_finishTool k fromStr e' tb) _

/-- **One delta frame for each delta event.** -/
theorem passes : Passes (anthropicPiece k) k.pieceOf (onEvent fromStr) := by
  intro e ev
  cases ev with
  | created responseId model =>
      have hpiece : k.pieceOf (.created responseId model) = none := by cases k <;> rfl
      rw [hpiece]
      exact piece_start k { e with messageId := responseId, model }
  | reasoningDelta t =>
      -- behind `ensureThinkingOpen` a thinking block is open, so the delta is written
      obtain ⟨index, hindex⟩ := Option.ne_none_iff_exists'.1
        (thinkingIndex_ensureThinkingOpen (start e).1)
      simp only [onEvent, Transducer.andThen_fst, Transducer.andThen_snd, List.filterMap_append,
        piece_start, piece_ensureThinkingOpen, List.nil_append, hindex]
      cases k <;> simp
  | textDelta t =>
      -- and so behind `ensureTextOpen`
      obtain ⟨index, hindex⟩ := Option.ne_none_iff_exists'.1
        (textIndex_ensureTextOpen (closeThinking (start e).1).1)
      simp only [onEvent, Transducer.andThen_fst, Transducer.andThen_snd, List.filterMap_append,
        piece_start, piece_closeThinking, piece_ensureTextOpen, List.nil_append, hindex]
      cases k <;> simp
  | toolCallStart i callId name =>
      simp only [onEvent, Transducer.andThen_fst, Transducer.andThen_snd, List.filterMap_append,
        piece_start, piece_closeThinking, piece_closeText, List.nil_append]
      cases k <;> simp
  | toolCallArgsDelta i delta =>
      cases k <;> cases h : e.tools[i]? <;> simp [onEvent, h]
  | toolCallDone i =>
      have hpiece : k.pieceOf (.toolCallDone i) = none := by cases k <;> rfl
      rw [hpiece]
      cases h : e.tools[i]? with
      | none => simp [onEvent, h]
      | some tb =>
          simp only [onEvent, h]
          exact piece_finishTool k fromStr { e with tools := e.tools.erase i } tb
  | usage counts => cases k <;> rfl
  | completed =>
      simp only [onEvent, Transducer.andThen_snd, List.filterMap_append, piece_closeThinking,
        piece_closeText, piece_closeOpenTools, List.nil_append]
      cases k <;> simp
  | error message status => cases k <;> simp [onEvent]

end Actions

end AnthropicEmitter

end AiApiBridge
