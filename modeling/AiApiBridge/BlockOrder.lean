import AiApiBridge.BlockBrackets
import AiApiBridge.StreamCues
import AiApiBridge.Wire.StreamFrames

/-!
# The order of content blocks

Whether the content blocks of the Anthropic frames come one after the other. Text closes
the thinking block and a call closes thinking and text, but reasoning closes nothing and
a call stays open until the next finish reason; so the blocks follow each other exactly
when no reasoning comes after content before the next call and nothing comes after a
call before the next finish reason (`blocks_sequential_iff`).
-/

set_option autoImplicit false

namespace AiApiBridge

open Brackets ChatStreamParser Chat Cue

namespace AnthropicEmitter

section Slots

variable {e : AnthropicEmitter}

@[simp] theorem slots_start (e : AnthropicEmitter) : (start e).1.slots = e.slots := by
  rw [AnthropicEmitter.start]
  split <;> rfl

@[simp] theorem nextIndex_start (e : AnthropicEmitter) : (start e).1.nextIndex = e.nextIndex := by
  rw [AnthropicEmitter.start]
  split <;> rfl

theorem slots_ensureThinkingOpen (e : AnthropicEmitter) (k : ItemSlot) :
    (ensureThinkingOpen e).1.slots k =
      if k = .thinking then some ((e.slots .thinking).getD (e.nextIndex, ())) else e.slots k := by
  cases h : e.thinkingIndex <;> cases k <;> simp [ensureThinkingOpen, slots, h]

theorem slots_closeThinking (e : AnthropicEmitter) (k : ItemSlot) :
    (closeThinking e).1.slots k = if k = .thinking then none else e.slots k := by
  cases h : e.thinkingIndex <;> cases k <;> simp [closeThinking, slots, h]

theorem slots_ensureTextOpen (e : AnthropicEmitter) (k : ItemSlot) :
    (ensureTextOpen e).1.slots k =
      if k = .text then some ((e.slots .text).getD (e.nextIndex, ())) else e.slots k := by
  cases h : e.textIndex <;> cases k <;> simp [ensureTextOpen, slots, h]

theorem slots_closeText (e : AnthropicEmitter) (k : ItemSlot) :
    (closeText e).1.slots k = if k = .text then none else e.slots k := by
  cases h : e.textIndex <;> cases k <;> simp [closeText, slots, h]

@[simp] theorem nextIndex_closeThinking (e : AnthropicEmitter) :
    (closeThinking e).1.nextIndex = e.nextIndex := by
  cases h : e.thinkingIndex <;> simp [closeThinking, h]

@[simp] theorem nextIndex_closeText (e : AnthropicEmitter) :
    (closeText e).1.nextIndex = e.nextIndex := by
  cases h : e.textIndex <;> simp [closeText, h]

variable (fromStr : String → Option Value)

theorem slots_reasoningDelta (e : AnthropicEmitter) (t : String) (k : ItemSlot) :
    (onEvent fromStr e (.reasoningDelta t)).1.slots k =
      if k = .thinking then some ((e.slots .thinking).getD (e.nextIndex, ())) else e.slots k := by
  have := slots_ensureThinkingOpen (start e).1 k
  rw [slots_start, nextIndex_start] at this
  rw [← this]
  cases k <;> rfl

theorem slots_textDelta (e : AnthropicEmitter) (t : String) (k : ItemSlot) :
    (onEvent fromStr e (.textDelta t)).1.slots k =
      if k = .text then some ((e.slots .text).getD (e.nextIndex, ()))
      else if k = .thinking then none else e.slots k := by
  have := slots_ensureTextOpen (closeThinking (start e).1).1 k
  simp only [slots_closeThinking, slots_start, nextIndex_closeThinking, nextIndex_start,
    reduceCtorEq, if_false] at this
  rw [← this]
  cases k <;> rfl

theorem slots_toolCallStart (e : AnthropicEmitter) (i : Nat) (callId name : String)
    (k : ItemSlot) :
    (onEvent fromStr e (.toolCallStart i callId name)).1.slots k =
      if k = .tool i then some (e.nextIndex, ())
      else if k = .thinking ∨ k = .text then none else e.slots k := by
  have hclosed : ∀ k, (closeText (closeThinking (start e).1).1).1.slots k =
      if k = .thinking ∨ k = .text then none else e.slots k := by
    intro k
    rw [slots_closeText, slots_closeThinking, slots_start]
    cases k <;> rfl
  cases k with
  | thinking => exact hclosed .thinking
  | text => exact hclosed .text
  | tool j =>
      by_cases hij : j = i
      · simp [AnthropicEmitter.onEvent, slots, hij]
      · have hji : i ≠ j := fun h => hij h.symm
        simp [AnthropicEmitter.onEvent, slots, hij, hji, Std.ExtTreeMap.getElem?_insert]

theorem slots_toolCallArgsDelta (e : AnthropicEmitter) (i : Nat) (delta : String)
    (k : ItemSlot) : (onEvent fromStr e (.toolCallArgsDelta i delta)).1.slots k = e.slots k := by
  cases hi : e.tools[i]? with
  | none => simp [AnthropicEmitter.onEvent, hi]
  | some t =>
      simp only [AnthropicEmitter.onEvent, hi]
      cases k with
      | thinking => rfl
      | text => rfl
      | tool j =>
          -- the block keeps its number
          by_cases hij : i = j
          · subst hij
            simp [slots, hi]
          · simp [slots, hij, Std.ExtTreeMap.getElem?_insert]

theorem slots_toolCallDone (e : AnthropicEmitter) (i : Nat) (k : ItemSlot) :
    (onEvent fromStr e (.toolCallDone i)).1.slots k =
      if k = .tool i then none else e.slots k := by
  cases hi : e.tools[i]? with
  | none =>
      have hslot : e.slots (.tool i) = none := by simp [slots, hi]
      by_cases hk : k = .tool i
      · simp [AnthropicEmitter.onEvent, hi, hk, hslot]
      · simp [AnthropicEmitter.onEvent, hi, hk]
  | some t =>
      simp only [AnthropicEmitter.onEvent, hi]
      cases k with
      | thinking => rfl
      | text => rfl
      | tool j =>
          by_cases hij : i = j
          · subst hij
            simp [finishTool, slots]
          · have hji : j ≠ i := fun h => hij h.symm
            simp [finishTool, slots, hij, hji, Std.ExtTreeMap.getElem?_erase]

/-- **The events of the Anthropic emitter and its slots.** -/
theorem keepsSlots : KeepsSlots (onEvent fromStr) nextIndex slots := by
  intro e ev k hfresh
  refine ⟨(), ?_⟩
  cases ev with
  | created responseId model =>
      exact congrFun (slots_start { e with messageId := responseId, model }) k
  | reasoningDelta t => rw [slots_reasoningDelta]; cases k <;> rfl
  | textDelta t => rw [slots_textDelta]; cases k <;> rfl
  | toolCallStart i callId name =>
      rw [slots_toolCallStart, slotEffect_toolCallStart]
      by_cases hk : k = .tool i
      · rw [if_pos hk, if_pos hk, hk, hfresh i rfl, Option.getD_none]
      · rw [if_neg hk, if_neg hk]
  | toolCallArgsDelta i delta => exact slots_toolCallArgsDelta fromStr e i delta k
  | toolCallDone i => rw [slots_toolCallDone, slotEffect_toolCallDone]
  | usage counts => rfl
  | error message status => rfl
  | completed => exact slots_completed fromStr k

theorem nextIndex_ensureThinkingOpen (e : AnthropicEmitter) :
    (ensureThinkingOpen e).1.nextIndex =
      e.nextIndex + if e.slots .thinking = none then 1 else 0 := by
  cases h : e.thinkingIndex <;> simp [ensureThinkingOpen, slots, h]

theorem nextIndex_ensureTextOpen (e : AnthropicEmitter) :
    (ensureTextOpen e).1.nextIndex = e.nextIndex + if e.slots .text = none then 1 else 0 := by
  cases h : e.textIndex <;> simp [ensureTextOpen, slots, h]

theorem nextIndex_run_finishTool (ts : List ToolBlock) (e : AnthropicEmitter) :
    (Transducer.run (finishTool fromStr) e ts).1.nextIndex = e.nextIndex :=
  Transducer.run_keeps nextIndex (fun _ _ => rfl) e ts

/-- **The Anthropic emitter counts its blocks.** -/
theorem countsItems : CountsItems (onEvent fromStr) nextIndex slots := by
  intro e ev hfresh
  cases ev with
  | created responseId model => exact nextIndex_start _
  | reasoningDelta t =>
      have := nextIndex_ensureThinkingOpen (start e).1
      rw [slots_start, nextIndex_start] at this
      exact this
  | textDelta t =>
      have := nextIndex_ensureTextOpen (closeThinking (start e).1).1
      rw [slots_closeThinking, slots_start, nextIndex_closeThinking, nextIndex_start] at this
      exact this
  | toolCallStart i callId name =>
      -- the slot of a call that starts is empty
      have hfree := hfresh i rfl
      simp [onEvent, openedBy, cueOf, starts, hfree]
  | toolCallArgsDelta i delta => cases hi : e.tools[i]? <;> simp [onEvent, hi, openedBy, cueOf]
  | toolCallDone i => cases hi : e.tools[i]? <;> simp [onEvent, hi, openedBy, cueOf, finishTool]
  | usage counts => rfl
  | error message status => rfl
  | completed =>
      have hopen : (onEvent fromStr e .completed).1 =
          (closeOpenTools fromStr (closeText (closeThinking e).1).1).1 := rfl
      rw [hopen, closeOpenTools, nextIndex_run_finishTool]
      simp [openedBy, cueOf]

/-- The count does not go back. -/
theorem nextIndex_le_onEvent (e : AnthropicEmitter) (ev : CanonicalEvent) :
    e.nextIndex ≤ (onEvent fromStr e ev).1.nextIndex := by
  cases hstart : startedIndex ev with
  | none =>
      rw [countsItems fromStr e ev (by simp [hstart])]
      exact Nat.le_add_right _ _
  | some i =>
      -- a call takes a number, whatever is open
      cases ev with
      | toolCallStart i callId name => simp [onEvent]
      | _ => cases hstart

end Slots

/-! ## Closing before opening -/

section Shape

variable (fromStr : String → Option Value)

theorem opens_closeThinking (e : AnthropicEmitter) :
    opens ((closeThinking e).2.filterMap blockBracket) = [] := by
  cases h : e.thinkingIndex <;> simp [closeThinking, h, opens]

theorem opens_closeText (e : AnthropicEmitter) :
    opens ((closeText e).2.filterMap blockBracket) = [] := by
  cases h : e.textIndex <;> simp [closeText, h, opens]

theorem opens_toolCallDone (e : AnthropicEmitter) (i : Nat) :
    opens ((onEvent fromStr e (.toolCallDone i)).2.filterMap blockBracket) = [] := by
  cases h : e.tools[i]? <;> simp [onEvent, finishTool, h, opens]

theorem opens_dones (e : AnthropicEmitter) (is : List Nat) :
    opens ((Transducer.run (onEvent fromStr) e (is.map .toolCallDone)).2.filterMap
      blockBracket) = [] := by
  induction is generalizing e with
  | nil => rfl
  | cons i is ih =>
      rw [List.map_cons, Transducer.run_cons, List.filterMap_append, opens_append,
        opens_toolCallDone, ih, List.append_nil]

theorem opens_completed (e : AnthropicEmitter) :
    opens ((onEvent fromStr e .completed).2.filterMap blockBracket) = [] := by
  have htools : ∀ e : AnthropicEmitter,
      opens ((closeOpenTools fromStr e).2.filterMap blockBracket) = [] := by
    intro e
    rw [closeOpenTools_eq_dones]
    exact opens_dones fromStr e e.openIndices
  simp [onEvent, opens_closeThinking, opens_closeText, htools]

theorem filterMap_blockBracket_start (e : AnthropicEmitter) :
    (start e).2.filterMap blockBracket = [] := by
  rw [AnthropicEmitter.start]
  split
  · rfl
  · simp [blockBracket]

theorem closes_ensureThinkingOpen (e : AnthropicEmitter) :
    closes ((ensureThinkingOpen e).2.filterMap blockBracket) = [] := by
  cases h : e.thinkingIndex <;> simp [ensureThinkingOpen, h, closes]

theorem closes_ensureTextOpen (e : AnthropicEmitter) :
    closes ((ensureTextOpen e).2.filterMap blockBracket) = [] := by
  cases h : e.textIndex <;> simp [ensureTextOpen, h, closes]

theorem closes_delta (index : Option Nat) (delta : Map) :
    closes ((index.toList.map fun n => blockDelta n delta).filterMap blockBracket) = [] := by
  cases index <;> simp [closes]

/-- **An event closes blocks before it opens one.** -/
theorem closingFirst_onEvent (e : AnthropicEmitter) (ev : CanonicalEvent) :
    ClosingFirst ((onEvent fromStr e ev).2.filterMap blockBracket) := by
  cases ev with
  | created responseId model =>
      rw [onEvent, filterMap_blockBracket_start]
      exact closingFirst_of_opens rfl
  | usage counts => exact closingFirst_of_opens rfl
  | error message status => exact closingFirst_of_opens (by simp [onEvent])
  | reasoningDelta t =>
      simp only [onEvent, Transducer.andThen_snd, List.filterMap_append,
        filterMap_blockBracket_start, List.nil_append]
      -- reasoning opens a block at most
      apply closingFirst_of_closes
      rw [closes_append, closes_ensureThinkingOpen, closes_delta, List.append_nil]
  | textDelta t =>
      simp only [onEvent, Transducer.andThen_snd, List.filterMap_append,
        filterMap_blockBracket_start, List.nil_append, List.append_assoc]
      -- the thinking block is closed before the text block is opened
      apply ClosingFirst.append (opens_closeThinking _)
      rw [closes_append, closes_ensureTextOpen, closes_delta, List.append_nil]
  | toolCallStart i callId name =>
      simp only [onEvent, Transducer.andThen_snd, List.filterMap_append,
        filterMap_blockBracket_start, List.nil_append]
      apply ClosingFirst.append
      · rw [opens_append, opens_closeThinking, opens_closeText, List.append_nil]
      · simp [closes]
  | toolCallArgsDelta i delta =>
      apply closingFirst_of_opens
      cases h : e.tools[i]? <;> simp [onEvent, h, opens]
  | toolCallDone i => exact closingFirst_of_opens (opens_toolCallDone fromStr e i)
  | completed => exact closingFirst_of_opens (opens_completed fromStr e)

end Shape

end AnthropicEmitter

/-! ## Crowded streams -/

/-- A stream with reasoning after content, before the next call starts. -/
def ReasoningAfterContent (w : List Cue) : Prop :=
  Sometime (fun before c =>
    c = .reasoning ∧ Since (· = .content) (fun z => ∃ i, z = .call i) before) w

/-- A stream with more after the start of a call, before the next finish reason. -/
def MoreAfterCall (w : List Cue) : Prop :=
  Sometime (fun before c =>
    c ≠ .finish ∧ Since (fun z => ∃ i, z = .call i) (· = .finish) before) w

namespace Cue

/-- At most one item is pending. -/
def Alone (w : List Cue) : Prop := ∀ k k', Pending k w → Pending k' w → k = k'

theorem pending_text_iff (w : List Cue) :
    Pending .text w ↔ Since (· = .content) (fun z => ∃ i, z = .call i) w := by
  apply Since.congr
  · intro c
    cases c <;> simp [starts]
  · intro c
    cases c <;> simp [ends]

theorem pending_tool_iff (w : List Cue) :
    (∃ i, Pending (.tool i) w) ↔ Since (fun z => ∃ i, z = .call i) (· = .finish) w := by
  have hends : ∀ i, Pending (.tool i) w ↔ Since (· = .call i) (· = .finish) w := by
    intro i
    apply Since.congr
    · intro c
      cases c <;> simp [starts]
    · intro c
      cases c <;> simp [ends]
  rw [← exists_since]
  exact exists_congr hends

/-- A finish reason makes room. -/
theorem Alone.finish {w : List Cue} (h : Alone w) : Alone (w ++ [.finish]) := by
  intro k k' hk hk'
  rw [pending_snoc] at hk hk'
  simp only [starts, reduceCtorEq, false_or] at hk hk'
  exact h k k' hk.1 hk'.1

/-- A new item is the only one when its cue ends all others that are pending. -/
theorem alone_snoc_iff {w : List Cue} {c : Cue} {k₀ : ItemSlot} (h : c.starts = some k₀) :
    Alone (w ++ [c]) ↔ ∀ k, Pending k w → c.ends k = false → k = k₀ := by
  constructor
  · intro halone k hk hends
    exact halone k k₀ (pending_snoc.2 (Or.inr ⟨hk, hends⟩)) (pending_snoc.2 (Or.inl h))
  · intro hends k k' hk hk'
    have honly : ∀ k, Pending k (w ++ [c]) → k = k₀ := by
      intro k hk
      rcases pending_snoc.1 hk with hstarts | ⟨hpending, hnot⟩
      · exact Option.some.inj (hstarts.symm.trans h)
      · exact hends k hpending hnot
    rw [honly k hk, honly k' hk']

theorem alone_snoc_reasoning (w : List Cue) :
    Alone (w ++ [.reasoning]) ↔ ¬ Pending .text w ∧ ¬ ∃ i, Pending (.tool i) w := by
  rw [alone_snoc_iff (show starts .reasoning = some .thinking from rfl)]
  constructor
  · intro h
    refine ⟨fun htext => ?_, ?_⟩
    · cases h .text htext rfl
    · rintro ⟨i, hi⟩
      cases h (.tool i) hi rfl
  · rintro ⟨htext, htool⟩ k hk -
    cases k with
    | thinking => rfl
    | text => exact absurd hk htext
    | tool i => exact absurd ⟨i, hk⟩ htool

theorem alone_snoc_content (w : List Cue) :
    Alone (w ++ [.content]) ↔ ¬ ∃ i, Pending (.tool i) w := by
  rw [alone_snoc_iff (show starts .content = some .text from rfl)]
  constructor
  · rintro h ⟨i, hi⟩
    cases h (.tool i) hi rfl
  · intro htool k hk hends
    cases k with
    | thinking => cases hends
    | text => rfl
    | tool i => exact absurd ⟨i, hk⟩ htool

theorem alone_snoc_call {w : List Cue} {i : Nat} (hfresh : .call i ∉ w) :
    Alone (w ++ [.call i]) ↔ ¬ ∃ j, Pending (.tool j) w := by
  rw [alone_snoc_iff (show starts (.call i) = some (.tool i) from rfl)]
  constructor
  · rintro h ⟨j, hj⟩
    -- the pending call would be the new one, which has not been started before
    cases h (.tool j) hj rfl
    exact hfresh hj.call_mem
  · intro htool k hk hends
    cases k with
    | thinking => cases hends
    | text => cases hends
    | tool j => exact absurd ⟨j, hk⟩ htool

theorem reasoningAfterContent_snoc (w : List Cue) (c : Cue) :
    ReasoningAfterContent (w ++ [c]) ↔
      ReasoningAfterContent w ∨ (c = .reasoning ∧ Pending .text w) := by
  rw [ReasoningAfterContent, sometime_snoc, ← pending_text_iff]
  rfl

theorem moreAfterCall_snoc (w : List Cue) (c : Cue) :
    MoreAfterCall (w ++ [c]) ↔
      MoreAfterCall w ∨ (c ≠ .finish ∧ ∃ i, Pending (.tool i) w) := by
  rw [MoreAfterCall, sometime_snoc, ← pending_tool_iff]
  rfl

/-- No item is started while another one is pending that it does not end. -/
def Uncrowded (w : List Cue) : Prop := ¬ ReasoningAfterContent w ∧ ¬ MoreAfterCall w

/-- **One more cue.** The stream stays uncrowded when the new item is the only one. -/
theorem uncrowded_snoc {w : List Cue} {c : Cue} (hfresh : ∀ i, c = .call i → .call i ∉ w) :
    Uncrowded (w ++ [c]) ↔ Uncrowded w ∧ (c ≠ .finish → Alone (w ++ [c])) := by
  rw [Uncrowded, Uncrowded, reasoningAfterContent_snoc, moreAfterCall_snoc]
  cases c with
  | reasoning =>
      rw [alone_snoc_reasoning]
      simp only [ne_eq, reduceCtorEq, not_false_eq_true, true_and, forall_const]
      tauto
  | content =>
      rw [alone_snoc_content]
      simp only [ne_eq, reduceCtorEq, not_false_eq_true, true_and, false_and, or_false,
        forall_const]
      tauto
  | call i =>
      rw [alone_snoc_call (hfresh i rfl)]
      simp only [ne_eq, reduceCtorEq, not_false_eq_true, true_and, false_and, or_false,
        forall_const]
      tauto
  | finish => simp

end Cue

/-! ## Blocks and cues -/

section Stream

open AnthropicEmitter

variable (fromStr : String → Option Value)

/-- The blocks of an emitter follow the cues: those are open that are pending, and the
frames have had one open at a time exactly when the cues are not crowded. -/
structure BlocksFollow (e : AnthropicEmitter) (frames : List SseFrame) (started : List Nat)
    (w : List Cue) : Prop where
  follows : Follows e (frames.filterMap blockBracket)
  shows : Shows slots e w
  calls : ∀ i, .call i ∈ w → i ∈ started
  oneOpen : OneOpen (frames.filterMap blockBracket) ↔ Uncrowded w

namespace BlocksFollow

variable {fromStr} {e e' : AnthropicEmitter} {frames new : List SseFrame} {started : List Nat}
  {w w' : List Cue}

/-- One open block is one pending item. -/
theorem atMostOne_iff (hfollows : Follows e (frames.filterMap blockBracket))
    (hshows : Shows slots e w) : AtMostOne (frames.filterMap blockBracket) ↔ Alone w := by
  rw [InSlotsAs.atMostOne_iff hfollows]
  simp only [Alone, ← hshows _]

/-- Frames that close before they open, with the cues they bring about. -/
theorem oneOpen_append (h : BlocksFollow e frames started w)
    (hnew : ClosingFirst (new.filterMap blockBracket))
    (hfollows : Follows e' ((frames ++ new).filterMap blockBracket)) (hshows : Shows slots e' w') :
    OneOpen ((frames ++ new).filterMap blockBracket) ↔ Uncrowded w ∧ Alone w' := by
  have hone := atMostOne_iff hfollows hshows
  rw [List.filterMap_append] at hone ⊢
  rw [oneOpen_append_iff hnew, hone, h.oneOpen]

/-- The items of an uncrowded stream are pending one at a time. -/
theorem alone (h : BlocksFollow e frames started w) (hw : Uncrowded w) : Alone w :=
  (atMostOne_iff h.follows h.shows).1 (h.oneOpen.2 hw _ (List.prefix_refl _))

/-- An open tool has been started. -/
theorem started_of_open (h : BlocksFollow e frames started w) {i : Nat}
    (hi : e.slots (.tool i) ≠ none) : i ∈ started :=
  h.calls i ((h.shows (.tool i)).1 hi).call_mem

theorem free_of_fresh (h : BlocksFollow e frames started w) {ev : CanonicalEvent}
    (hfresh : ∀ i, startedIndex ev = some i → i ∉ started) :
    ∀ i, startedIndex ev = some i → e.slots (.tool i) = none := by
  intro i hi
  by_contra hne
  exact hfresh i hi (h.started_of_open hne)

/-- The frames of one event. -/
theorem follows_onEvent (fromStr : String → Option Value) (h : BlocksFollow e frames started w)
    (ev : CanonicalEvent) (hfree : ∀ i, startedIndex ev = some i → e.slots (.tool i) = none) :
    Follows (onEvent fromStr e ev).1
      ((frames ++ (onEvent fromStr e ev).2).filterMap blockBracket) := by
  rw [List.filterMap_append]
  apply Follows.onEvent fromStr h.follows ev
  intro i hi
  simpa [slots] using hfree i hi

end BlocksFollow

theorem blocksFollow_new : BlocksFollow .new [] [] [] where
  follows := InSlotsAs.nil.congr slots_new
  shows := shows_nil slots_new
  calls := by simp
  oneOpen := by
    refine iff_of_true ?_ ⟨not_sometime_nil _, not_sometime_nil _⟩
    intro before hbefore
    rw [List.filterMap_nil, List.prefix_nil] at hbefore
    subst hbefore
    exact Nat.zero_le _

/-- **The Anthropic emitter follows the cues.** -/
theorem followsCues_blocks : FollowsCues (onEvent fromStr) BlocksFollow where
  idle := by
    intro e frames started w ev h hev
    -- an event without a cue starts no call
    have hstart : startedIndex ev = none := by cases ev <;> first | rfl | cases hev
    have hfollows := h.follows_onEvent fromStr ev (by simp [hstart])
    have hshows := (keepsSlots fromStr).shows_idle hev h.shows
    refine ⟨hfollows, hshows, h.calls, ?_⟩
    rw [h.oneOpen_append (closingFirst_onEvent fromStr e ev) hfollows hshows]
    exact and_iff_left_of_imp h.alone
  cue := by
    intro e frames started w ev c h hcue hfresh
    have hfollows := h.follows_onEvent fromStr ev (h.free_of_fresh hfresh)
    have hshows := (keepsSlots fromStr).shows_cue hcue (h.free_of_fresh hfresh) h.shows
    -- a single event is never the end of all calls
    have hfinish : c ≠ .finish := by
      rintro rfl
      cases ev <;> cases hcue
    refine ⟨hfollows, hshows, calls_snoc h.calls hcue, ?_⟩
    rw [h.oneOpen_append (closingFirst_onEvent fromStr e ev) hfollows hshows, uncrowded_snoc]
    · simp [hfinish]
    · intro i hi hmem
      rw [hi] at hcue
      exact hfresh i (startedIndex_of_call hcue) (h.calls i hmem)
  finish := by
    intro e frames started w h
    have hfollows := Follows.dones fromStr h.follows (started.insertionSort (· ≤ ·))
    rw [← List.filterMap_append] at hfollows
    have hshows := (keepsSlots fromStr).shows_finish (fun i => h.started_of_open) h.shows
    have hclosing := closingFirst_of_opens
      (opens_dones fromStr e (started.insertionSort (· ≤ ·)))
    refine ⟨hfollows, hshows, calls_finish h.calls, ?_⟩
    rw [h.oneOpen_append hclosing hfollows hshows, uncrowded_snoc (fun i hi => by cases hi)]
    simp only [ne_eq, not_true_eq_false, false_imp_iff, and_true]
    exact and_iff_left_of_imp fun hw => (h.alone hw).finish

/-- **When content blocks follow each other.** For every stream of chunks the content
blocks of the Anthropic frames are strictly sequential exactly when no reasoning comes
after content before the next call starts, and nothing but finish reasons comes after
the start of a call before the next finish reason. -/
theorem blocks_sequential_iff (fromStr : String → Option Value) (responseId : String)
    (chunks : List Value) :
    Sequential ((messageFrames fromStr responseId chunks).filterMap blockBracket) ↔
      ¬ ReasoningAfterContent (streamCues [] chunks) ∧ ¬ MoreAfterCall (streamCues [] chunks) := by
  obtain ⟨hend, hnone⟩ := AnthropicEmitter.follows_stream fromStr responseId chunks
  have h := (followsCues_blocks fromStr).chunks chunks (p := new responseId) blocksFollow_new
  rw [messageFrames, InSlotsAs.sequential_iff hend hnone, streamEvents,
    Transducer.run_append_snd, Transducer.run_singleton, List.filterMap_append]
  rw [List.nil_append, List.nil_append] at h
  rw [oneOpen_append_iff (closingFirst_of_opens (opens_completed fromStr _)), h.oneOpen]
  apply and_iff_left_of_imp
  intro hw
  have hfollows := h.follows_onEvent fromStr .completed (fun i hi => by cases hi)
  rw [List.filterMap_append] at hfollows
  rw [InSlotsAs.atMostOne_iff hfollows]
  intro k k' hk
  exact absurd (slots_completed fromStr k) hk

/-- Two blocks are open at once. -/
theorem not_sequential_of_two {w before : List (Bracket Unit)} (hw : before <+: w)
    (htwo : (closes before).length + 1 < (opens before).length) : ¬ Sequential w := by
  intro h
  exact Nat.not_lt.2 (h.oneOpen before hw) htwo

/-- Two parallel calls, and reasoning after content: the second block opens while the
first one is open. -/
theorem not_blocks_sequential :
    ¬ Sequential ((messageFrames (fun _ => none) "r" [deltaChunk [("tool_calls",
        .array [.object [("index", .ofNat 0)], .object [("index", .ofNat 1)]])]]).filterMap
        blockBracket) ∧
      ¬ Sequential ((messageFrames (fun _ => none) "r" [deltaChunk [("content", .string "a")],
        deltaChunk [("reasoning_content", .string "b")]]).filterMap blockBracket) := by
  constructor
  · have hopen : [.opened 0 (), .opened 1 ()] <+: (messageFrames (fun _ => none) "r" [deltaChunk
        [("tool_calls", .array [.object [("index", .ofNat 0)],
          .object [("index", .ofNat 1)]])]]).filterMap blockBracket := by decide
    exact not_sequential_of_two hopen (by decide)
  · have hopen : [.opened 0 (), .touched 0 (), .opened 1 ()] <+: (messageFrames (fun _ => none) "r"
        [deltaChunk [("content", .string "a")],
          deltaChunk [("reasoning_content", .string "b")]]).filterMap blockBracket := by decide
    exact not_sequential_of_two hopen (by decide)

end Stream

end AiApiBridge
