import AiApiBridge.ItemBrackets

/-!
# Bracketed blocks

The content blocks of the Anthropic dialect as numbered brackets: the emitter keeps its
open blocks in slots as well (`AnthropicEmitter.followsBrackets`).
-/

set_option autoImplicit false

namespace AiApiBridge

open Brackets ChatStreamParser Chat

/-- What a frame says about content blocks. -/
def blockBracket (fr : SseFrame) : Option (Bracket Unit) :=
  ((fr.get "index").bind Value.asU64).bind fun n =>
    if fr.event = "content_block_start" then some (.opened n ())
    else if fr.event = "content_block_delta" then some (.touched n ())
    else if fr.event = "content_block_stop" then some (.closed n ())
    else none

namespace AnthropicEmitter

/-- The open blocks. -/
def slots (e : AnthropicEmitter) : ItemSlot → Option (Nat × Unit)
  | .thinking => e.thinkingIndex.map fun n => (n, ())
  | .text => e.textIndex.map fun n => (n, ())
  | .tool i => e.tools[i]?.map fun t => (t.index, ())

theorem slots_new (k : ItemSlot) : new.slots k = none := by
  cases k <;> simp [slots, new]

section Frames

attribute [local simp] blockBracket

@[simp] theorem blockBracket_blockStart (n : Nat) (block : Map) :
    blockBracket (blockStart n block) = some (.opened (asU32 n) ()) := by
  simp [blockStart]

@[simp] theorem blockBracket_blockDelta (n : Nat) (delta : Map) :
    blockBracket (blockDelta n delta) = some (.touched (asU32 n) ()) := by
  simp [blockDelta]

@[simp] theorem blockBracket_blockStop (n : Nat) :
    blockBracket (blockStop n) = some (.closed (asU32 n) ()) := by
  simp [blockStop]

@[simp] theorem blockBracket_messageDelta (e : AnthropicEmitter) :
    blockBracket e.messageDelta = none := by
  simp [messageDelta]

@[simp] theorem blockBracket_messageStop : blockBracket messageStop = none := by
  simp [messageStop]

@[simp] theorem blockBracket_errorFrame (message : String) (status : Nat) :
    blockBracket (errorFrame message status) = none := by
  simp [errorFrame]

end Frames

/-- What the frames written so far say about the open blocks. -/
abbrev Follows (e : AnthropicEmitter) (w : List (Bracket Unit)) : Prop :=
  InSlotsAs asU32 w e.nextIndex e.slots

variable {e : AnthropicEmitter} {w : List (Bracket Unit)}

/-- A state with the same open blocks, after frames that say just this. -/
theorem Follows.frame {w' : List (Bracket Unit)} (h : Follows e w') {e' : AnthropicEmitter}
    {frames : List SseFrame} (hframes : w ++ frames.filterMap blockBracket = w')
    (hnext : e'.nextIndex = e.nextIndex) (hslots : ∀ k, e'.slots k = e.slots k) :
    Follows e' (w ++ frames.filterMap blockBracket) := by
  rw [hframes, Follows, hnext]
  exact InSlotsAs.congr h hslots

/-- Two actions, one after the other. -/
theorem Follows.andThen {r : Emission} (hr : Follows r.1 (w ++ r.2.filterMap blockBracket))
    {f : AnthropicEmitter → Emission}
    (hf : ∀ w', Follows r.1 w' → Follows (f r.1).1 (w' ++ (f r.1).2.filterMap blockBracket)) :
    Follows (Transducer.andThen r f).1
      (w ++ (Transducer.andThen r f).2.filterMap blockBracket) := by
  rw [Transducer.andThen_snd, List.filterMap_append, ← List.append_assoc]
  exact hf _ hr

/-! ## Actions -/

theorem Follows.start (h : Follows e w) :
    Follows (start e).1 (w ++ (start e).2.filterMap blockBracket) := by
  rw [AnthropicEmitter.start]
  split
  · exact h.frame (by simp) rfl fun _ => rfl
  · exact h.frame (by simp [blockBracket]) rfl fun _ => rfl

theorem Follows.ensureThinkingOpen (h : Follows e w) :
    Follows (ensureThinkingOpen e).1 (w ++ (ensureThinkingOpen e).2.filterMap blockBracket) := by
  cases hindex : e.thinkingIndex with
  | some n => simpa [AnthropicEmitter.ensureThinkingOpen, hindex] using h
  | none =>
      have hslot : e.slots .thinking = none := by simp [slots, hindex]
      have := h.opened hslot ()
      simp only [AnthropicEmitter.ensureThinkingOpen, hindex, List.filterMap_cons,
        blockBracket_blockStart, List.filterMap_nil]
      apply InSlotsAs.congr this
      rintro (_ | _ | i) <;> simp [slots, Function.update]

theorem Follows.closeThinking (h : Follows e w) :
    Follows (closeThinking e).1 (w ++ (closeThinking e).2.filterMap blockBracket) := by
  cases hindex : e.thinkingIndex with
  | none => simpa [AnthropicEmitter.closeThinking, hindex] using h
  | some n =>
      have hslot : e.slots .thinking = some (n, ()) := by simp [slots, hindex]
      have := (h.touched hslot).closed hslot
      simp only [AnthropicEmitter.closeThinking, hindex, List.filterMap_cons,
        blockBracket_blockDelta, blockBracket_blockStop, List.filterMap_nil]
      rw [List.append_assoc] at this
      apply InSlotsAs.congr this
      rintro (_ | _ | i) <;> simp [slots, Function.update]

theorem Follows.ensureTextOpen (h : Follows e w) :
    Follows (ensureTextOpen e).1 (w ++ (ensureTextOpen e).2.filterMap blockBracket) := by
  cases hindex : e.textIndex with
  | some n => simpa [AnthropicEmitter.ensureTextOpen, hindex] using h
  | none =>
      have hslot : e.slots .text = none := by simp [slots, hindex]
      have := h.opened hslot ()
      simp only [AnthropicEmitter.ensureTextOpen, hindex, List.filterMap_cons,
        blockBracket_blockStart, List.filterMap_nil]
      apply InSlotsAs.congr this
      rintro (_ | _ | i) <;> simp [slots, Function.update]

theorem Follows.closeText (h : Follows e w) :
    Follows (closeText e).1 (w ++ (closeText e).2.filterMap blockBracket) := by
  cases hindex : e.textIndex with
  | none => simpa [AnthropicEmitter.closeText, hindex] using h
  | some n =>
      have hslot : e.slots .text = some (n, ()) := by simp [slots, hindex]
      have := h.closed hslot
      simp only [AnthropicEmitter.closeText, hindex, List.filterMap_cons,
        blockBracket_blockStop, List.filterMap_nil]
      apply InSlotsAs.congr this
      rintro (_ | _ | i) <;> simp [slots, Function.update]

/-- A tool block opens, when its index is not in use. -/
theorem Follows.toolCallStart (h : Follows e w) {i : Nat} (hi : e.tools[i]? = none)
    (callId name : String) (block : Map) :
    Follows
      { e with
        nextIndex := e.nextIndex + 1
        anyTool := true
        tools := e.tools.insert i ⟨e.nextIndex, callId, name, ""⟩ }
      (w ++ [blockStart e.nextIndex block].filterMap blockBracket) := by
  have hslot : e.slots (.tool i) = none := by simp [slots, hi]
  have := h.opened hslot ()
  simp only [List.filterMap_cons, blockBracket_blockStart, List.filterMap_nil]
  apply InSlotsAs.congr this
  rintro (_ | _ | j)
  · rfl
  · rfl
  · exact slot_insert (fun _ => rfl) i _ j

/-- Arguments refer to the open block. -/
theorem Follows.toolCallArgs (h : Follows e w) {i : Nat} {t : ToolBlock}
    (hi : e.tools[i]? = some t) (delta : String) :
    Follows { e with tools := e.tools.insert i { t with args := t.args ++ delta } }
      (w ++ [blockDelta t.index (inputJsonDelta delta)].filterMap blockBracket) := by
  have hslot : e.slots (.tool i) = some (t.index, ()) := by simp [slots, hi]
  have := h.touched hslot
  simp only [List.filterMap_cons, blockBracket_blockDelta, List.filterMap_nil]
  apply InSlotsAs.congr this
  rintro (_ | _ | j)
  · rfl
  · rfl
  · have htools : ∀ j, e.slots (.tool j) = e.tools[j]?.map fun t => (t.index, ()) := fun _ => rfl
    exact slot_modify (t := { t with args := t.args ++ delta }) htools hslot j

section Emit

variable (fromStr : String → Option Value)

/-- A done event ends the block of its index, if there is one. -/
theorem Follows.toolCallDone (h : Follows e w) (i : Nat) :
    Follows (onEvent fromStr e (.toolCallDone i)).1
      (w ++ (onEvent fromStr e (.toolCallDone i)).2.filterMap blockBracket) := by
  cases hi : e.tools[i]? with
  | none => simpa [onEvent, hi] using h
  | some t =>
      have hslot : e.slots (.tool i) = some (t.index, ()) := by simp [slots, hi]
      have := h.closed hslot
      simp only [onEvent, hi, finishTool, List.filterMap_cons, blockBracket_blockStop,
        List.filterMap_nil]
      apply InSlotsAs.congr this
      rintro (_ | _ | j)
      · rfl
      · rfl
      · exact slot_erase (fun _ => rfl) i j

/-- Done events for any indices. -/
theorem Follows.dones (h : Follows e w) (is : List Nat) :
    Follows (Transducer.run (onEvent fromStr) e (is.map .toolCallDone)).1
      (w ++ (Transducer.run (onEvent fromStr) e (is.map .toolCallDone)).2.filterMap
        blockBracket) := by
  induction is generalizing e w with
  | nil => simpa using h
  | cons i is ih =>
      rw [List.map_cons, Transducer.run_cons, List.filterMap_append, ← List.append_assoc]
      exact ih (h.toolCallDone fromStr i)

/-- The indices of the open tools. -/
def openIndices (e : AnthropicEmitter) : List Nat := e.tools.toList.map Prod.fst

/-- Closing the open tools is done events for their indices. -/
theorem closeOpenTools_eq_dones (e : AnthropicEmitter) :
    closeOpenTools fromStr e =
      Transducer.run (onEvent fromStr) e (e.openIndices.map .toolCallDone) := by
  rw [closeOpenTools_eq fromStr, openIndices, List.map_map]
  rfl

theorem Follows.closeOpenTools (h : Follows e w) :
    Follows (closeOpenTools fromStr e).1
      (w ++ (closeOpenTools fromStr e).2.filterMap blockBracket) := by
  rw [closeOpenTools_eq_dones]
  exact h.dones fromStr e.openIndices

section Tools

omit fromStr

@[simp] theorem tools_start : (start e).1.tools = e.tools := by
  rw [AnthropicEmitter.start]
  split <;> rfl

@[simp] theorem tools_ensureThinkingOpen : (ensureThinkingOpen e).1.tools = e.tools := by
  rw [AnthropicEmitter.ensureThinkingOpen]
  split <;> rfl

@[simp] theorem tools_ensureTextOpen : (ensureTextOpen e).1.tools = e.tools := by
  rw [AnthropicEmitter.ensureTextOpen]
  split <;> rfl

@[simp] theorem tools_closeThinking : (closeThinking e).1.tools = e.tools := by
  rw [AnthropicEmitter.closeThinking]
  split <;> rfl

@[simp] theorem tools_closeText : (closeText e).1.tools = e.tools := by
  rw [AnthropicEmitter.closeText]
  split <;> rfl

end Tools

/-- **One event.** -/
theorem Follows.onEvent (h : Follows e w) (ev : CanonicalEvent)
    (hstart : ∀ i, startedIndex ev = some i → e.tools[i]? = none) :
    Follows (onEvent fromStr e ev).1
      (w ++ (onEvent fromStr e ev).2.filterMap blockBracket) := by
  cases ev with
  | created responseId model =>
      have hnamed : Follows { e with messageId := responseId, model } w :=
        InSlotsAs.congr h fun _ => rfl
      exact hnamed.start
  | usage counts => exact h.frame (by simp [AnthropicEmitter.onEvent]) rfl fun _ => rfl
  | error message status => exact h.frame (by simp [AnthropicEmitter.onEvent]) rfl fun _ => rfl
  | reasoningDelta text =>
      -- the thinking block is open before the delta touches it
      refine (h.start.andThen fun w' h' => h'.ensureThinkingOpen).andThen fun w' h' => ?_
      generalize (Transducer.andThen (AnthropicEmitter.start e)
        AnthropicEmitter.ensureThinkingOpen).1 = e' at h' ⊢
      cases hindex : e'.thinkingIndex with
      | none => exact h'.frame (by simp) rfl fun _ => by simp [slots, hindex]
      | some n =>
          have hslot : e'.slots .thinking = some (n, ()) := by simp [slots, hindex]
          exact Follows.frame (h'.touched hslot) (by simp) rfl fun _ => by simp [slots, hindex]
  | textDelta text =>
      refine ((h.start.andThen fun w' h' => h'.closeThinking).andThen
        fun w' h' => h'.ensureTextOpen).andThen fun w' h' => ?_
      generalize (Transducer.andThen (Transducer.andThen (AnthropicEmitter.start e)
        AnthropicEmitter.closeThinking) AnthropicEmitter.ensureTextOpen).1 = e' at h' ⊢
      cases hindex : e'.textIndex with
      | none => exact h'.frame (by simp) rfl fun _ => by simp [slots, hindex]
      | some n =>
          have hslot : e'.slots .text = some (n, ()) := by simp [slots, hindex]
          exact Follows.frame (h'.touched hslot) (by simp) rfl fun _ => by simp [slots, hindex]
  | toolCallStart i callId name =>
      refine ((h.start.andThen fun w' h' => h'.closeThinking).andThen
        fun w' h' => h'.closeText).andThen fun w' h' => ?_
      -- closing the texts leaves the tools alone, so the index is still free
      apply h'.toolCallStart
      simpa using hstart i rfl
  | toolCallArgsDelta i delta =>
      cases hi : e.tools[i]? with
      | none => simpa [AnthropicEmitter.onEvent, hi] using h
      | some t => simpa only [AnthropicEmitter.onEvent, hi] using h.toolCallArgs hi delta
  | toolCallDone i => exact h.toolCallDone fromStr i
  | completed =>
      -- three closings, and then frames that are no brackets
      refine ((h.closeThinking.andThen fun w' h' => h'.closeText).andThen
        fun w' h' => h'.closeOpenTools fromStr).andThen fun w' h' => ?_
      exact h'.frame (by simp) rfl fun _ => rfl

theorem slots_run_finishTool (ts : List ToolBlock) (e : AnthropicEmitter) (k : ItemSlot) :
    (Transducer.run (finishTool fromStr) e ts).1.slots k = e.slots k :=
  Transducer.run_keeps (fun e' => e'.slots k) (fun _ _ => rfl) e ts

/-- Nothing is open after the last event. -/
theorem slots_completed (k : ItemSlot) :
    (AnthropicEmitter.onEvent fromStr e .completed).1.slots k = none := by
  have hopen : (AnthropicEmitter.onEvent fromStr e .completed).1 =
      (AnthropicEmitter.closeOpenTools fromStr
        (AnthropicEmitter.closeText (AnthropicEmitter.closeThinking e).1).1).1 := rfl
  rw [hopen, AnthropicEmitter.closeOpenTools, slots_run_finishTool]
  cases k with
  | thinking =>
      cases hr : e.thinkingIndex <;>
        cases hm : e.textIndex <;>
          simp [slots, AnthropicEmitter.closeText, AnthropicEmitter.closeThinking, hr, hm]
  | text =>
      cases hr : e.thinkingIndex <;>
        cases hm : e.textIndex <;>
          simp [slots, AnthropicEmitter.closeText, AnthropicEmitter.closeThinking, hr, hm]
  | tool i => simp [slots]

/-- The tool blocks after one event. -/
theorem tools_onEvent (ev : CanonicalEvent) (i : Nat)
    (h : (AnthropicEmitter.onEvent fromStr e ev).1.tools[i]? ≠ none) :
    e.tools[i]? ≠ none ∨ startedIndex ev = some i := by
  cases ev with
  | toolCallStart j callId name =>
      rcases TreeMaps.mem_of_getElem?_insert h with hold | hnew
      · exact Or.inl (by simpa using hold)
      · exact Or.inr (congrArg some hnew)
  | toolCallArgsDelta j delta =>
      left
      cases hj : e.tools[j]? with
      | none => simpa [AnthropicEmitter.onEvent, hj] using h
      | some t =>
          simp only [AnthropicEmitter.onEvent, hj] at h
          rcases TreeMaps.mem_of_getElem?_insert h with hold | rfl
          · exact hold
          · rw [hj]
            exact Option.some_ne_none t
  | toolCallDone j =>
      left
      cases hj : e.tools[j]? with
      | none => simpa [AnthropicEmitter.onEvent, hj] using h
      | some t =>
          simp only [AnthropicEmitter.onEvent, hj] at h
          exact TreeMaps.mem_of_getElem?_erase h
  | completed =>
      -- no tool is open behind the last event
      refine absurd ?_ h
      have hempty : (AnthropicEmitter.onEvent fromStr e .completed).1.slots (.tool i) = none :=
        slots_completed fromStr (.tool i)
      simpa [slots] using hempty
  | created responseId model =>
      exact Or.inl (by simpa [AnthropicEmitter.onEvent] using h)
  | usage counts => exact Or.inl h
  | error message status => exact Or.inl h
  | reasoningDelta text => exact Or.inl (by simpa [AnthropicEmitter.onEvent] using h)
  | textDelta text => exact Or.inl (by simpa [AnthropicEmitter.onEvent] using h)

end Emit

/-- **The Anthropic emitter keeps its blocks in slots.** -/
theorem followsBrackets (fromStr : String → Option Value) :
    FollowsBrackets (onEvent fromStr) blockBracket nextIndex slots where
  event := by
    intro e ev w h hstart
    exact Follows.onEvent fromStr h ev fun i hi => by simpa [slots] using hstart i hi
  tool := by
    intro e ev i h
    have htools : (onEvent fromStr e ev).1.tools[i]? ≠ none := by
      intro hnone
      apply h
      simp [slots, hnone]
    exact (tools_onEvent fromStr ev i htools).imp_left fun hne hnone => hne (by
      simpa [slots] using hnone)
  completed := fun e k => slots_completed fromStr k

/-- A stream of chunks and its end. -/
theorem follows_stream (fromStr : String → Option Value) (responseId : String)
    (chunks : List Value) :
    let r := Transducer.run (onEvent fromStr) .new (streamEvents responseId chunks)
    Follows r.1 (r.2.filterMap blockBracket) ∧ ∀ k, r.1.slots k = none := by
  exact (followsBrackets fromStr).stream rfl slots_new responseId chunks

end AnthropicEmitter

end AiApiBridge
