import AiApiBridge.Wire.ResponsesEmitter
import AiApiBridge.Wire.AnthropicEmitter

/-!
# The events of frames

Which event names the emitters write for which canonical events. The frames about
output items and content blocks are the ones in between: the opening frame of a
stream and its terminal frame have events of their own.
-/

set_option autoImplicit false

namespace AiApiBridge

open Transducer (andThen)

/-! ## Actions with frames of certain events -/

section Writes

variable {σ α ι : Type} {events : List String} {kept : σ → α}

/-- An action that writes frames with these events only, and keeps a part of the
state. -/
def Writes (events : List String) (kept : σ → α) (s : σ) (r : σ × List SseFrame) : Prop :=
  kept r.1 = kept s ∧ ∀ fr ∈ r.2, fr.event ∈ events

theorem Writes.andThen {s : σ} {r : σ × List SseFrame} (hr : Writes events kept s r)
    {f : σ → σ × List SseFrame} (hf : ∀ s', Writes events kept s' (f s')) :
    Writes events kept s (andThen r f) := by
  refine ⟨(hf r.1).1.trans hr.1, ?_⟩
  intro fr hfr
  rcases List.mem_append.1 hfr with hfr | hfr
  · exact hr.2 fr hfr
  · exact (hf r.1).2 fr hfr

theorem Writes.run {step : Transducer.Step σ ι SseFrame}
    (h : ∀ s i, Writes events kept s (step s i)) (s : σ) (is : List ι) :
    Writes events kept s (Transducer.run step s is) :=
  ⟨Transducer.run_keeps kept (fun s i => (h s i).1) s is,
    Transducer.forall_mem_run (fun s i _ => (h s i).2) s⟩

end Writes

namespace ResponsesEmitter

/-! ## The Responses dialect -/

/-- The events of the frames about output items. -/
def itemEvents : List String :=
  ["response.output_item.added", "response.output_item.done",
    "response.reasoning_summary_text.delta", "response.content_part.added",
    "response.output_text.delta", "response.output_text.done", "response.content_part.done",
    "response.function_call_arguments.delta", "response.function_call_arguments.done"]

/-- An action about output items. -/
abbrev OnItems (e : ResponsesEmitter) (r : Emission) : Prop :=
  Writes itemEvents responseId e r

section Items

attribute [local simp] Writes itemEvents itemAdded itemDone reasoningDeltaFrame contentPartAdded
  textDeltaFrame outputTextDone contentPartDone argumentsDelta argumentsDone

variable (uuid : Nat → String) (e : ResponsesEmitter)

theorem onItems_ensureReasoningOpen : OnItems e (ensureReasoningOpen uuid e) := by
  rw [ensureReasoningOpen]
  split <;> simp

theorem onItems_closeReasoning : OnItems e (closeReasoning e) := by
  rw [closeReasoning]
  split <;> simp

theorem onItems_ensureMessageOpen : OnItems e (ensureMessageOpen uuid e) := by
  rw [ensureMessageOpen]
  split <;> simp

theorem onItems_closeMessage : OnItems e (closeMessage e) := by
  rw [closeMessage]
  split <;> simp

theorem onItems_finishTool (t : ToolItem) : OnItems e (finishTool e t) := by
  simp [finishTool]

theorem onItems_closeOpenTools : OnItems e (closeOpenTools e) :=
  Writes.run onItems_finishTool { e with tools := ∅ } _

/-- **The events in between are about items.** -/
theorem onItems_onEventCore {ev : CanonicalEvent} (hcreated : ∀ id m, ev ≠ .created id m)
    (hcompleted : ev ≠ .completed) (herror : ev.isError = false) :
    OnItems e (onEventCore uuid e ev) := by
  cases ev with
  | created id m => exact absurd rfl (hcreated id m)
  | completed => exact absurd rfl hcompleted
  | error message status => cases herror
  | usage counts => simp [onEventCore]
  | reasoningDelta text =>
      apply (onItems_ensureReasoningOpen uuid e).andThen
      intro e'
      cases h : e'.reasoningItem <;> simp
  | textDelta text =>
      -- text closes the reasoning and opens the message before its delta
      apply ((onItems_closeReasoning e).andThen (onItems_ensureMessageOpen uuid)).andThen
      intro e'
      cases h : e'.messageItem <;> simp
  | toolCallStart i callId name =>
      apply ((onItems_closeReasoning e).andThen onItems_closeMessage).andThen
      intro e'
      simp
  | toolCallArgsDelta i delta =>
      cases h : e.tools[i]? <;> simp [onEventCore, h]
  | toolCallDone i =>
      cases h : e.tools[i]? with
      | none => simp [onEventCore, h]
      | some t =>
          simp only [onEventCore, h]
          exact onItems_finishTool { e with tools := e.tools.erase i } t

end Items

/-- The last event closes what is open and writes the response. -/
theorem onEventCore_completed (uuid : Nat → String) (e : ResponsesEmitter) :
    ∃ e' items, onEventCore uuid e .completed = (e', items ++ [e'.completedFrame]) ∧
      OnItems e (e', items) :=
  ⟨_, _, rfl, ((onItems_closeReasoning e).andThen onItems_closeMessage).andThen
    onItems_closeOpenTools⟩

/-! ## Numbered frames -/

/-- A frame with its sequence number. -/
theorem mem_number {seq : Nat} {frames : List SseFrame} {fr : SseFrame}
    (h : fr ∈ number seq frames) :
    ∃ fr' ∈ frames, fr.event = fr'.event ∧
      ∀ key, key ≠ "sequence_number" → fr.get key = fr'.get key := by
  induction frames generalizing seq with
  | nil => cases h
  | cons fr' frames ih =>
      rcases List.mem_cons.1 h with rfl | h
      · refine ⟨fr', List.mem_cons_self, rfl, ?_⟩
        intro key hkey
        rcases fr' with ⟨event, data⟩
        cases data <;> simp [SseFrame.get, Value.get, hkey]
      · obtain ⟨fr'', hmem, hfr''⟩ := ih h
        exact ⟨fr'', List.mem_cons_of_mem fr' hmem, hfr''⟩

theorem number_append (seq : Nat) (a b : List SseFrame) :
    number seq (a ++ b) = number seq a ++ number (seq + a.length) b := by
  induction a generalizing seq with
  | nil => rfl
  | cons fr a ih =>
      rw [List.cons_append, number, ih, number, List.cons_append, List.length_cons,
        Nat.add_assoc seq 1 a.length, Nat.add_comm 1 a.length]

end ResponsesEmitter

namespace AnthropicEmitter

/-! ## The Anthropic dialect -/

/-- The events of the frames about content blocks. -/
def blockEvents : List String :=
  ["content_block_start", "content_block_delta", "content_block_stop"]

/-- An action about content blocks. -/
abbrev OnBlocks (e : AnthropicEmitter) (r : Emission) : Prop :=
  Writes blockEvents started e r

section Blocks

attribute [local simp] Writes blockEvents blockStart blockDelta blockStop

variable (fromStr : String → Option Value) (e : AnthropicEmitter)

theorem onBlocks_ensureThinkingOpen : OnBlocks e (ensureThinkingOpen e) := by
  rw [ensureThinkingOpen]
  split <;> simp

theorem onBlocks_closeThinking : OnBlocks e (closeThinking e) := by
  rw [closeThinking]
  split <;> simp

theorem onBlocks_ensureTextOpen : OnBlocks e (ensureTextOpen e) := by
  rw [ensureTextOpen]
  split <;> simp

theorem onBlocks_closeText : OnBlocks e (closeText e) := by
  rw [closeText]
  split <;> simp

theorem onBlocks_finishTool (tb : ToolBlock) : OnBlocks e (finishTool fromStr e tb) := by
  simp [finishTool]

theorem onBlocks_closeOpenTools : OnBlocks e (closeOpenTools fromStr e) :=
  Writes.run (onBlocks_finishTool fromStr) { e with tools := ∅ } _

/-- **The events in between are about blocks**, once the message is open. -/
theorem onBlocks_onEvent {ev : CanonicalEvent} (hcreated : ∀ id m, ev ≠ .created id m)
    (hcompleted : ev ≠ .completed) (herror : ev.isError = false) :
    ∃ f : AnthropicEmitter → Emission, (∀ e', OnBlocks e' (f e')) ∧
      (onEvent fromStr e ev = f e ∨ onEvent fromStr e ev = andThen (start e) f) := by
  cases ev with
  | created id m => exact absurd rfl (hcreated id m)
  | completed => exact absurd rfl hcompleted
  | error message status => cases herror
  | usage counts => exact ⟨fun e => onEvent fromStr e (.usage counts), by simp [onEvent], .inl rfl⟩
  -- these three open the message first
  | reasoningDelta text =>
      simp only [onEvent, Transducer.andThen_assoc]
      refine ⟨_, ?_, .inr rfl⟩
      intro e₁
      apply (onBlocks_ensureThinkingOpen e₁).andThen
      intro e₂
      cases h : e₂.thinkingIndex <;> simp
  | textDelta text =>
      simp only [onEvent, Transducer.andThen_assoc]
      refine ⟨_, ?_, .inr rfl⟩
      intro e₁
      apply (onBlocks_closeThinking e₁).andThen
      intro e₂
      apply (onBlocks_ensureTextOpen e₂).andThen
      intro e₃
      cases h : e₃.textIndex <;> simp
  | toolCallStart i callId name =>
      simp only [onEvent, Transducer.andThen_assoc]
      refine ⟨_, ?_, .inr rfl⟩
      intro e₁
      apply (onBlocks_closeThinking e₁).andThen
      intro e₂
      apply (onBlocks_closeText e₂).andThen
      intro e₃
      simp
  | toolCallArgsDelta i delta =>
      refine ⟨fun e => onEvent fromStr e (.toolCallArgsDelta i delta), ?_, .inl rfl⟩
      intro e'
      cases h : e'.tools[i]? <;> simp [onEvent, h]
  | toolCallDone i =>
      refine ⟨fun e => onEvent fromStr e (.toolCallDone i), ?_, .inl rfl⟩
      intro e'
      cases h : e'.tools[i]? with
      | none => simp [onEvent, h]
      | some tb =>
          simp only [onEvent, h]
          exact onBlocks_finishTool fromStr { e' with tools := e'.tools.erase i } tb

end Blocks

/-- The last event closes what is open and ends the message. -/
theorem onEvent_completed (fromStr : String → Option Value) (e : AnthropicEmitter) :
    ∃ e' blocks, onEvent fromStr e .completed = (e', blocks ++ [e'.messageDelta, messageStop]) ∧
      OnBlocks e (e', blocks) :=
  ⟨_, _, rfl, ((onBlocks_closeThinking e).andThen onBlocks_closeText).andThen
    (onBlocks_closeOpenTools fromStr)⟩

end AnthropicEmitter

end AiApiBridge
