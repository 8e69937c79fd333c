import AiApiBridge.Lib.Brackets
import AiApiBridge.Wire.AnthropicEmitter
import AiApiBridge.Wire.ChunkReading
import AiApiBridge.Wire.ItemMarks

/-!
# Bracketed items

The output items of a stream as numbered brackets, in both dialects. An emitter keeps
its open items in slots: one for reasoning, one for text, and one for every tool
index. The parser starts a tool index once, so no slot is filled twice, and the end
of the stream empties all of them (`FollowsBrackets.stream`). The frames name an item
by the low 32 bits of its number.
-/

set_option autoImplicit false

namespace AiApiBridge

open Brackets ChatStreamParser Chat

/-- Where an emitter keeps an open item. -/
inductive ItemSlot where
  | thinking
  | text
  | tool (i : Nat)
  deriving DecidableEq, Repr

/-- The tool index that an event starts. -/
def startedIndex : CanonicalEvent → Option Nat
  | .toolCallStart i _ _ => some i
  | _ => none

/-! ## Indices are started once -/

section Starts

theorem startIndex_eq (started : List Nat) (f : Value) :
    (onFragment started f).1 = started ++ (onFragment started f).2.filterMap startedIndex ∧
      (started.Nodup → (onFragment started f).1.Nodup) := by
  rw [onFragment_eq]
  have hargs : ((fragmentArgs f).map (CanonicalEvent.toolCallArgsDelta
      (fragmentIndex f))).toList.filterMap startedIndex = [] := by
    cases fragmentArgs f <;> rfl
  by_cases h : fragmentIndex f ∈ started
  · simp only [startIndex, if_pos h, List.nil_append, hargs, List.append_nil]
    exact ⟨trivial, id⟩
  · simp only [startIndex, if_neg h, List.filterMap_append, hargs, List.append_nil]
    refine ⟨rfl, fun hnd => ?_⟩
    exact List.nodup_append.2 ⟨hnd, List.nodup_singleton _, by
      rintro i hi j hj rfl
      rw [List.mem_singleton.1 hj] at hi
      exact h hi⟩

theorem run_onFragment_starts (started : List Nat) (fs : List Value) :
    (Transducer.run onFragment started fs).1 =
        started ++ (Transducer.run onFragment started fs).2.filterMap startedIndex ∧
      (started.Nodup → (Transducer.run onFragment started fs).1.Nodup) := by
  induction fs generalizing started with
  | nil => simp
  | cons f fs ih =>
      obtain ⟨hone, hnd⟩ := startIndex_eq started f
      obtain ⟨hrest, hndrest⟩ := ih (onFragment started f).1
      rw [Transducer.run_cons, List.filterMap_append, ← List.append_assoc, ← hone]
      exact ⟨hrest, fun h => hndrest (hnd h)⟩

/-- One chunk adds the indices it starts. -/
theorem onChunk_starts (p : ChatStreamParser) (c : Value) :
    (p.onChunk c).1.startedTools =
        p.startedTools ++ (p.onChunk c).2.filterMap startedIndex ∧
      (p.startedTools.Nodup → (p.onChunk c).1.startedTools.Nodup) := by
  by_cases hc : NoError c
  · obtain ⟨hstarts, hnd⟩ := run_onFragment_starts p.startedTools (chunkFragments c)
    -- only the tool fragments start tools, all other events have no index
    have hevents : (p.onChunk c).2.filterMap startedIndex =
        (fragmentRun p.startedTools c).2.filterMap startedIndex := by
      rw [filterMap_onChunk startedIndex (fun _ _ => rfl) (fun _ => rfl) (fun _ => rfl) p hc]
      simp [startedIndex]
    rw [hevents, onChunk_eq p hc]
    exact ⟨hstarts, hnd⟩
  · -- an error chunk leaves the parser as it is
    obtain ⟨err, herr⟩ := Option.ne_none_iff_exists'.1 hc
    rw [onChunk_error p herr]
    exact ⟨by simp [errorEvent, startedIndex], id⟩

/-- **A stream starts every tool index at most once.** -/
theorem nodup_startedIndex (p : ChatStreamParser) (hp : p.startedTools.Nodup)
    (chunks : List Value) :
    (p.startedTools ++ (Transducer.run onChunk p chunks).2.filterMap startedIndex).Nodup := by
  induction chunks generalizing p with
  | nil => simpa using hp
  | cons c chunks ih =>
      obtain ⟨hstarts, hnd⟩ := onChunk_starts p c
      have hrest := ih (p.onChunk c).1 (hnd hp)
      rw [hstarts, List.append_assoc] at hrest
      rwa [Transducer.run_cons, List.filterMap_append]

end Starts

/-! ## Emitters that keep items in slots -/

section Follows

variable {σ α : Type} (step : Transducer.Step σ CanonicalEvent SseFrame)
  (read : SseFrame → Option (Bracket α)) (next : σ → Nat)
  (slots : σ → ItemSlot → Option (Nat × α))

/-- An emitter whose frames are brackets about the items in its slots. A tool slot is
filled by the start of its index only, and the end of the stream empties all slots. -/
structure FollowsBrackets : Prop where
  event : ∀ s ev w, InSlotsAs asU32 w (next s) (slots s) →
    (∀ i, startedIndex ev = some i → slots s (.tool i) = none) →
    InSlotsAs asU32 (w ++ (step s ev).2.filterMap read) (next (step s ev).1) (slots (step s ev).1)
  tool : ∀ s ev i, slots (step s ev).1 (.tool i) ≠ none →
    slots s (.tool i) ≠ none ∨ startedIndex ev = some i
  completed : ∀ s k, slots (step s .completed).1 k = none

variable {step read next slots}

/-- A run of events that starts no index a second time. -/
theorem FollowsBrackets.run (hf : FollowsBrackets step read next slots)
    (evs : List CanonicalEvent) {s : σ} {w : List (Bracket α)} {used : List Nat}
    (hs : InSlotsAs asU32 w (next s) (slots s)) (hused : ∀ i, slots s (.tool i) ≠ none → i ∈ used)
    (hnd : (used ++ evs.filterMap startedIndex).Nodup) :
    InSlotsAs asU32 (w ++ (Transducer.run step s evs).2.filterMap read)
      (next (Transducer.run step s evs).1) (slots (Transducer.run step s evs).1) := by
  induction evs generalizing s w used with
  | nil => simpa using hs
  | cons ev evs ih =>
      have hevent := hf.event s ev w hs fun i hi => by
        -- a filled slot would have been used before
        by_contra hne
        rw [List.filterMap_cons, hi] at hnd
        exact (List.nodup_append.1 hnd).2.2 i (hused i hne) i (by simp) rfl
      have hused' : ∀ i, slots (step s ev).1 (.tool i) ≠ none →
          i ∈ used ++ (startedIndex ev).toList := by
        intro i hi
        rcases hf.tool s ev i hi with hold | hnew
        · exact List.mem_append_left _ (hused i hold)
        · exact List.mem_append_right _ (by simp [hnew])
      have hnd' : (used ++ (startedIndex ev).toList ++ evs.filterMap startedIndex).Nodup := by
        rw [List.append_assoc]
        cases h : startedIndex ev <;> simpa [h] using hnd
      rw [Transducer.run_cons, List.filterMap_append, ← List.append_assoc]
      exact ih hevent hused' hnd'

/-- **A stream of chunks and its end.** -/
theorem FollowsBrackets.stream (hf : FollowsBrackets step read next slots) {s : σ}
    (hnext : next s = 0) (hslots : ∀ k, slots s k = none) (responseId : String)
    (chunks : List Value) :
    let r := Transducer.run step s (streamEvents responseId chunks)
    InSlotsAs asU32 (r.2.filterMap read) (next r.1) (slots r.1) ∧ ∀ k, slots r.1 k = none := by
  have hstart : InSlotsAs asU32 [] (next s) (slots s) := by
    rw [hnext]
    exact InSlotsAs.nil.congr hslots
  have hnd : (([] : List Nat) ++ (streamEvents responseId chunks).filterMap startedIndex).Nodup := by
    have hend : [CanonicalEvent.completed].filterMap startedIndex = [] := rfl
    rw [streamEvents, List.filterMap_append, hend, List.append_nil]
    exact nodup_startedIndex (new responseId) List.nodup_nil chunks
  have hrun := hf.run (streamEvents responseId chunks) hstart
    (fun i hi => absurd (hslots _) hi) hnd
  rw [List.nil_append] at hrun
  refine ⟨hrun, fun k => ?_⟩
  rw [streamEvents, Transducer.run_append_fst, Transducer.run_singleton]
  exact hf.completed _ k

end Follows

/-! ### Tools in slots -/

section ToolSlots

variable {τ α : Type} {slots : ItemSlot → Option (Nat × α)} {tools : Std.ExtTreeMap Nat τ}
  {item : τ → Nat × α}

/-- A new tool fills its slot. -/
theorem slot_insert (hslots : ∀ j, slots (.tool j) = tools[j]?.map item) (i : Nat) (t : τ)
    (j : Nat) :
    (tools.insert i t)[j]?.map item =
      Function.update slots (.tool i) (some (item t)) (.tool j) := by
  by_cases hij : i = j
  · simp [hij]
  · have hji : ItemSlot.tool j ≠ .tool i := fun h => hij (ItemSlot.tool.inj h).symm
    rw [Function.update_of_ne hji, hslots, Std.ExtTreeMap.getElem?_insert]
    simp [hij]

/-- A changed tool stays in its slot. -/
theorem slot_modify (hslots : ∀ j, slots (.tool j) = tools[j]?.map item) {i : Nat} {t : τ}
    (hi : slots (.tool i) = some (item t)) (j : Nat) :
    (tools.insert i t)[j]?.map item = slots (.tool j) := by
  rw [slot_insert hslots, ← hi, Function.update_eq_self]

/-- An ended tool empties its slot. -/
theorem slot_erase (hslots : ∀ j, slots (.tool j) = tools[j]?.map item) (i j : Nat) :
    (tools.erase i)[j]?.map item = Function.update slots (.tool i) none (.tool j) := by
  by_cases hij : i = j
  · simp [hij]
  · have hji : ItemSlot.tool j ≠ .tool i := fun h => hij (ItemSlot.tool.inj h).symm
    rw [Function.update_of_ne hji, hslots, Std.ExtTreeMap.getElem?_erase]
    simp [hij]

end ToolSlots

/-! ## Output items -/

/-- The output index a frame carries. -/
def frameOutputIndex (fr : SseFrame) : Option Nat := (fr.get "output_index").bind Value.asU64

/-- What a frame says about output items. Every frame that names an item, other than
those that open or close one, refers to it. -/
def itemBracket (fr : SseFrame) : Option (Bracket String) :=
  (frameOutputIndex fr).bind fun n =>
    if fr.event = "response.output_item.added" then
      ((fr.get "item").bind itemId).map (Bracket.opened n)
    else if fr.event = "response.output_item.done" then
      ((fr.get "item").bind itemId).map (Bracket.closed n)
    else (frameItemId fr).map (Bracket.touched n)

namespace ResponsesEmitter

/-- The open items. -/
def slots (e : ResponsesEmitter) : ItemSlot → Option (Nat × String)
  | .thinking => e.reasoningItem.map fun item => (item.outputIndex, item.id)
  | .text => e.messageItem.map fun item => (item.outputIndex, item.id)
  | .tool i => e.tools[i]?.map fun t => (t.outputIndex, t.id)

theorem slots_new (k : ItemSlot) : new.slots k = none := by
  cases k <;> simp [slots, new]

section Frames

attribute [local simp] itemBracket frameOutputIndex frameItemId itemId

@[simp] theorem itemBracket_itemAdded (n : Nat) (item : Value) :
    itemBracket (itemAdded n item) = (itemId item).map (Bracket.opened (asU32 n)) := by
  simp [itemAdded]

@[simp] theorem itemBracket_itemDone (n : Nat) (item : Value) :
    itemBracket (itemDone n item) = (itemId item).map (Bracket.closed (asU32 n)) := by
  simp [itemDone]

@[simp] theorem itemBracket_reasoningDeltaFrame (item : OpenItem) (t : String) :
    itemBracket (reasoningDeltaFrame item t) = some (.touched (asU32 item.outputIndex) item.id) := by
  simp [reasoningDeltaFrame]

@[simp] theorem itemBracket_contentPartAdded (id : String) (n : Nat) :
    itemBracket (contentPartAdded id n) = some (.touched (asU32 n) id) := by
  simp [contentPartAdded]

@[simp] theorem itemBracket_textDeltaFrame (item : OpenItem) (t : String) :
    itemBracket (textDeltaFrame item t) = some (.touched (asU32 item.outputIndex) item.id) := by
  simp [textDeltaFrame]

@[simp] theorem itemBracket_outputTextDone (item : OpenItem) (t : String) :
    itemBracket (outputTextDone item t) = some (.touched (asU32 item.outputIndex) item.id) := by
  simp [outputTextDone]

@[simp] theorem itemBracket_contentPartDone (item : OpenItem) (t : String) :
    itemBracket (contentPartDone item t) = some (.touched (asU32 item.outputIndex) item.id) := by
  simp [contentPartDone]

@[simp] theorem itemBracket_argumentsDelta (t : ToolItem) (delta : String) :
    itemBracket (argumentsDelta t delta) = some (.touched (asU32 t.outputIndex) t.id) := by
  simp [argumentsDelta]

@[simp] theorem itemBracket_argumentsDone (t : ToolItem) :
    itemBracket (argumentsDone t) = some (.touched (asU32 t.outputIndex) t.id) := by
  simp [argumentsDone]

@[simp] theorem itemBracket_createdFrame (e : ResponsesEmitter) :
    itemBracket e.createdFrame = none := by
  simp [createdFrame]

@[simp] theorem itemBracket_completedFrame (e : ResponsesEmitter) :
    itemBracket e.completedFrame = none := by
  simp [completedFrame]

@[simp] theorem itemBracket_failedFrame (e : ResponsesEmitter) (message : String) (status : Nat) :
    itemBracket (e.failedFrame message status) = none := by
  simp [failedFrame]

@[simp] theorem itemId_reasoningItemJson (id text : String) :
    itemId (reasoningItemJson id text) = some id := by
  simp [reasoningItemJson]

@[simp] theorem itemId_messageItemJson (id text : String) :
    itemId (messageItemJson id text) = some id := by
  simp [messageItemJson]

@[simp] theorem itemId_toolJson (t : ToolItem) : itemId (toolJson t) = some t.id := by
  simp [toolJson, functionCallJson]

/-- Numbering does not hide an item. -/
theorem filterMap_itemBracket_number (seq : Nat) (frames : List SseFrame) :
    (number seq frames).filterMap itemBracket = frames.filterMap itemBracket := by
  have := flatMap_number (fun fr => (itemBracket fr).toList)
    (fun ev m n => by simp [SseFrame.get]) seq frames
  simpa [List.filterMap_eq_flatMap_toList] using this

end Frames

/-- What the frames written so far say about the open items. -/
abbrev Follows (e : ResponsesEmitter) (w : List (Bracket String)) : Prop :=
  InSlotsAs asU32 w e.nextOutputIndex e.slots

variable {e : ResponsesEmitter} {w : List (Bracket String)}

/-- A state with the same open items, after frames that say just this. -/
theorem Follows.frame {w' : List (Bracket String)} (h : Follows e w') {e' : ResponsesEmitter}
    {frames : List SseFrame} (hframes : w ++ frames.filterMap itemBracket = w')
    (hnext : e'.nextOutputIndex = e.nextOutputIndex) (hslots : ∀ k, e'.slots k = e.slots k) :
    Follows e' (w ++ frames.filterMap itemBracket) := by
  rw [hframes, Follows, hnext]
  exact InSlotsAs.congr h hslots

section Steps

variable (uuid : Nat → String)

theorem Follows.ensureReasoningOpen (h : Follows e w) :
    Follows (ensureReasoningOpen uuid e).1
      (w ++ (ensureReasoningOpen uuid e).2.filterMap itemBracket) := by
  cases hitem : e.reasoningItem with
  | some item => simpa [ResponsesEmitter.ensureReasoningOpen, hitem] using h
  | none =>
      have hslot : e.slots .thinking = none := by simp [slots, hitem]
      have := h.opened hslot (newId uuid "rs" e.drawn)
      simp only [ResponsesEmitter.ensureReasoningOpen, hitem, List.filterMap_cons,
        itemBracket_itemAdded, List.filterMap_nil]
      apply InSlotsAs.congr this
      rintro (_ | _ | i) <;> simp [slots, Function.update]

theorem Follows.closeReasoning (h : Follows e w) :
    Follows (closeReasoning e).1 (w ++ (closeReasoning e).2.filterMap itemBracket) := by
  cases hitem : e.reasoningItem with
  | none => simpa [ResponsesEmitter.closeReasoning, hitem] using h
  | some item =>
      have hslot : e.slots .thinking = some (item.outputIndex, item.id) := by simp [slots, hitem]
      have := h.closed hslot
      simp only [ResponsesEmitter.closeReasoning, hitem, List.filterMap_cons,
        itemBracket_itemDone, itemId_reasoningItemJson, Option.map_some, List.filterMap_nil]
      apply InSlotsAs.congr this
      rintro (_ | _ | i) <;> simp [slots, Function.update]

theorem Follows.ensureMessageOpen (h : Follows e w) :
    Follows (ensureMessageOpen uuid e).1
      (w ++ (ensureMessageOpen uuid e).2.filterMap itemBracket) := by
  cases hitem : e.messageItem with
  | some item => simpa [ResponsesEmitter.ensureMessageOpen, hitem] using h
  | none =>
      have hslot : e.slots .text = none := by simp [slots, hitem]
      have hopened := h.opened hslot (newId uuid "msg" e.drawn)
      have := hopened.touched (Function.update_self ..)
      simp only [ResponsesEmitter.ensureMessageOpen, hitem, List.filterMap_cons,
        itemBracket_itemAdded, itemBracket_contentPartAdded, List.filterMap_nil]
      rw [List.append_assoc] at this
      apply InSlotsAs.congr this
      rintro (_ | _ | i) <;> simp [slots, Function.update]

theorem Follows.closeMessage (h : Follows e w) :
    Follows (closeMessage e).1 (w ++ (closeMessage e).2.filterMap itemBracket) := by
  cases hitem : e.messageItem with
  | none => simpa [ResponsesEmitter.closeMessage, hitem] using h
  | some item =>
      have hslot : e.slots .text = some (item.outputIndex, item.id) := by simp [slots, hitem]
      have := ((h.touched hslot).touched hslot).closed hslot
      simp only [ResponsesEmitter.closeMessage, hitem, List.filterMap_cons,
        itemBracket_outputTextDone, itemBracket_contentPartDone, itemBracket_itemDone,
        itemId_messageItemJson, Option.map_some, List.filterMap_nil]
      rw [List.append_assoc, List.append_assoc] at this
      apply InSlotsAs.congr this
      rintro (_ | _ | i) <;> simp [slots, Function.update]

/-- A function call opens its item, when its index is not in use. -/
theorem Follows.toolCallStart (h : Follows e w) {i : Nat} (hi : e.tools[i]? = none)
    (id callId name : String) (drawn : Nat) (item : Value) (hitem : itemId item = some id) :
    Follows
      { e with
        nextOutputIndex := e.nextOutputIndex + 1
        drawn
        tools := e.tools.insert i ⟨id, e.nextOutputIndex, callId, name, ""⟩ }
      (w ++ [itemAdded e.nextOutputIndex item].filterMap itemBracket) := by
  have hslot : e.slots (.tool i) = none := by simp [slots, hi]
  have := h.opened hslot id
  simp only [List.filterMap_cons, itemBracket_itemAdded, hitem, Option.map_some, List.filterMap_nil]
  apply InSlotsAs.congr this
  rintro (_ | _ | j)
  · rfl
  · rfl
  · exact slot_insert (fun _ => rfl) i _ j

/-- Arguments refer to the open call. -/
theorem Follows.toolCallArgs (h : Follows e w) {i : Nat} {t : ToolItem} (hi : e.tools[i]? = some t)
    (delta : String) :
    Follows { e with tools := e.tools.insert i { t with args := t.args ++ delta } }
      (w ++ [argumentsDelta { t with args := t.args ++ delta } delta].filterMap itemBracket) := by
  have hslot : e.slots (.tool i) = some (t.outputIndex, t.id) := by simp [slots, hi]
  have := h.touched hslot
  simp only [List.filterMap_cons, itemBracket_argumentsDelta, List.filterMap_nil]
  apply InSlotsAs.congr this
  rintro (_ | _ | j)
  · rfl
  · rfl
  · have htools : ∀ j, e.slots (.tool j) = e.tools[j]?.map fun t => (t.outputIndex, t.id) :=
      fun _ => rfl
    exact slot_modify (t := { t with args := t.args ++ delta }) htools hslot j

/-- The end of a call. -/
theorem Follows.finishTool (h : Follows e w) {i : Nat} {t : ToolItem} (hi : e.tools[i]? = some t) :
    Follows (finishTool { e with tools := e.tools.erase i } t).1
      (w ++ (finishTool { e with tools := e.tools.erase i } t).2.filterMap itemBracket) := by
  have hslot : e.slots (.tool i) = some (t.outputIndex, t.id) := by simp [slots, hi]
  have := (h.touched hslot).closed hslot
  simp only [ResponsesEmitter.finishTool, List.filterMap_cons, itemBracket_argumentsDone,
    itemBracket_itemDone, itemId_toolJson, Option.map_some, List.filterMap_nil]
  rw [List.append_assoc] at this
  apply InSlotsAs.congr this
  rintro (_ | _ | j)
  · rfl
  · rfl
  · exact slot_erase (fun _ => rfl) i j

/-- A done event ends the call of its index, if there is one. -/
theorem Follows.toolCallDone (h : Follows e w) (i : Nat) :
    Follows (onEventCore uuid e (.toolCallDone i)).1
      (w ++ (onEventCore uuid e (.toolCallDone i)).2.filterMap itemBracket) := by
  cases hi : e.tools[i]? with
  | none => simpa [onEventCore, hi] using h
  | some t =>
      have := h.finishTool hi
      simpa only [onEventCore, hi] using this

include uuid in
theorem Follows.closeOpenTools (h : Follows e w) :
    Follows (closeOpenTools e).1 (w ++ (closeOpenTools e).2.filterMap itemBracket) := by
  rw [closeOpenTools_eq uuid]
  generalize e.tools.toList = entries
  induction entries generalizing e w with
  | nil => simpa using h
  | cons kt entries ih =>
      have := ih (h.toolCallDone uuid kt.1)
      rw [List.map_cons, Transducer.run_cons, List.filterMap_append, ← List.append_assoc]
      exact this

/-- Two actions, one after the other. -/
theorem Follows.andThen {r : Emission} (hr : Follows r.1 (w ++ r.2.filterMap itemBracket))
    {f : ResponsesEmitter → Emission}
    (hf : ∀ w', Follows r.1 w' → Follows (f r.1).1 (w' ++ (f r.1).2.filterMap itemBracket)) :
    Follows (Transducer.andThen r f).1
      (w ++ (Transducer.andThen r f).2.filterMap itemBracket) := by
  rw [Transducer.andThen_snd, List.filterMap_append, ← List.append_assoc]
  exact hf _ hr

@[simp] theorem tools_ensureReasoningOpen : (ensureReasoningOpen uuid e).1.tools = e.tools := by
  rw [ResponsesEmitter.ensureReasoningOpen]
  split <;> rfl

@[simp] theorem tools_ensureMessageOpen : (ensureMessageOpen uuid e).1.tools = e.tools := by
  rw [ResponsesEmitter.ensureMessageOpen]
  split <;> rfl

omit uuid in
@[simp] theorem tools_closeReasoning : (closeReasoning e).1.tools = e.tools := by
  rw [ResponsesEmitter.closeReasoning]
  split <;> rfl

omit uuid in
@[simp] theorem tools_closeMessage : (closeMessage e).1.tools = e.tools := by
  rw [ResponsesEmitter.closeMessage]
  split <;> rfl

/-- **One event.** -/
theorem Follows.onEventCore (h : Follows e w) (ev : CanonicalEvent)
    (hstart : ∀ i, startedIndex ev = some i → e.tools[i]? = none) :
    Follows (onEventCore uuid e ev).1
      (w ++ (onEventCore uuid e ev).2.filterMap itemBracket) := by
  cases ev with
  | created responseId model => exact h.frame (by simp [ResponsesEmitter.onEventCore]) rfl fun _ => rfl
  | usage counts => exact h.frame (by simp [ResponsesEmitter.onEventCore]) rfl fun _ => rfl
  | error message status => exact h.frame (by simp [ResponsesEmitter.onEventCore]) rfl fun _ => rfl
  | reasoningDelta text =>
      -- the reasoning item is open before the delta touches it
      apply (h.ensureReasoningOpen uuid).andThen
      intro w' h'
      generalize (ResponsesEmitter.ensureReasoningOpen uuid e).1 = e' at h' ⊢
      cases hitem : e'.reasoningItem with
      | none => exact h'.frame (by simp) rfl fun _ => by simp [slots, hitem]
      | some item =>
          have hslot : e'.slots .thinking = some (item.outputIndex, item.id) := by
            simp [slots, hitem]
          exact Follows.frame (h'.touched hslot) (by simp) rfl fun _ => by simp [slots, hitem]
  | textDelta text =>
      refine (h.closeReasoning.andThen fun w' h' => h'.ensureMessageOpen uuid).andThen
        fun w' h' => ?_
      generalize (Transducer.andThen (ResponsesEmitter.closeReasoning e)
        (ResponsesEmitter.ensureMessageOpen uuid)).1 = e' at h' ⊢
      cases hitem : e'.messageItem with
      | none => exact h'.frame (by simp) rfl fun _ => by simp [slots, hitem]
      | some item =>
          have hslot : e'.slots .text = some (item.outputIndex, item.id) := by simp [slots, hitem]
          exact Follows.frame (h'.touched hslot) (by simp) rfl fun _ => by simp [slots, hitem]
  | toolCallStart i callId name =>
      refine (h.closeReasoning.andThen fun w' h' => h'.closeMessage).andThen fun w' h' => ?_
      -- closing the texts leaves the tools alone, so the index is still free
      apply h'.toolCallStart
      · simpa using hstart i rfl
      · simp [itemId]
  | toolCallArgsDelta i delta =>
      cases hi : e.tools[i]? with
      | none => simpa [ResponsesEmitter.onEventCore, hi] using h
      | some t => simpa only [ResponsesEmitter.onEventCore, hi] using h.toolCallArgs hi delta
  | toolCallDone i => exact h.toolCallDone uuid i
  | completed =>
      -- three closings, and then a frame that is no bracket
      refine ((h.closeReasoning.andThen fun w' h' => h'.closeMessage).andThen
        fun w' h' => h'.closeOpenTools uuid).andThen fun w' h' => ?_
      exact h'.frame (by simp) rfl fun _ => rfl

theorem slots_run_finishTool (ts : List ToolItem) (e : ResponsesEmitter) (k : ItemSlot) :
    (Transducer.run ResponsesEmitter.finishTool e ts).1.slots k = e.slots k :=
  Transducer.run_keeps (fun e' => e'.slots k) (fun _ _ => rfl) e ts

/-- Nothing is open after the last event. -/
theorem slots_completed (k : ItemSlot) :
    (ResponsesEmitter.onEventCore uuid e .completed).1.slots k = none := by
  have hopen : (ResponsesEmitter.onEventCore uuid e .completed).1 =
      (ResponsesEmitter.closeOpenTools
        (ResponsesEmitter.closeMessage (ResponsesEmitter.closeReasoning e).1).1).1 := rfl
  rw [hopen, ResponsesEmitter.closeOpenTools, slots_run_finishTool]
  cases k with
  | thinking =>
      cases hr : e.reasoningItem <;>
        cases hm : e.messageItem <;>
          simp [slots, ResponsesEmitter.closeMessage, ResponsesEmitter.closeReasoning, hr, hm]
  | text =>
      cases hr : e.reasoningItem <;>
        cases hm : e.messageItem <;>
          simp [slots, ResponsesEmitter.closeMessage, ResponsesEmitter.closeReasoning, hr, hm]
  | tool i => simp [slots]

/-- The tool items after one event. -/
theorem tools_onEventCore (ev : CanonicalEvent) (i : Nat)
    (h : (ResponsesEmitter.onEventCore uuid e ev).1.tools[i]? ≠ none) :
    e.tools[i]? ≠ none ∨ startedIndex ev = some i := by
  cases ev with
  | toolCallStart j callId name =>
      rcases TreeMaps.mem_of_getElem?_insert h with hold | hnew
      · exact Or.inl (by simpa using hold)
      · exact Or.inr (congrArg some hnew)
  | toolCallArgsDelta j delta =>
      left
      cases hj : e.tools[j]? with
      | none => simpa [ResponsesEmitter.onEventCore, hj] using h
      | some t =>
          simp only [ResponsesEmitter.onEventCore, hj] at h
          rcases TreeMaps.mem_of_getElem?_insert h with hold | rfl
          · exact hold
          · rw [hj]
            exact Option.some_ne_none t
  | toolCallDone j =>
      left
      cases hj : e.tools[j]? with
      | none => simpa [ResponsesEmitter.onEventCore, hj] using h
      | some t =>
          simp only [ResponsesEmitter.onEventCore, hj] at h
          exact TreeMaps.mem_of_getElem?_erase h
  | completed =>
      -- no tool is open behind the last event
      refine absurd ?_ h
      have hempty : (ResponsesEmitter.onEventCore uuid e .completed).1.slots (.tool i) = none :=
        slots_completed uuid (.tool i)
      simpa [slots] using hempty
  | created responseId model => exact Or.inl h
  | usage counts => exact Or.inl h
  | error message status => exact Or.inl h
  | reasoningDelta text => exact Or.inl (by simpa [ResponsesEmitter.onEventCore] using h)
  | textDelta text => exact Or.inl (by simpa [ResponsesEmitter.onEventCore] using h)

end Steps

/-- **The Responses emitter keeps its output items in slots.** -/
theorem followsBrackets (uuid : Nat → String) :
    FollowsBrackets (onEvent uuid) itemBracket nextOutputIndex slots where
  event := by
    intro e ev w h hstart
    have hcore := Follows.onEventCore uuid h ev fun i hi => by
      simpa [slots] using hstart i hi
    rw [onEvent, filterMap_itemBracket_number]
    exact InSlotsAs.congr hcore fun _ => rfl
  tool := by
    intro e ev i h
    have hcore : (onEventCore uuid e ev).1.tools[i]? ≠ none := by
      intro hnone
      apply h
      change (onEventCore uuid e ev).1.tools[i]?.map _ = none
      rw [hnone]
      rfl
    exact (tools_onEventCore uuid ev i hcore).imp_left fun hne hnone => hne (by
      simpa [slots] using hnone)
  completed := fun e k => slots_completed uuid k

/-- A stream of chunks and its end. -/
theorem follows_stream (uuid : Nat → String) (responseId : String) (chunks : List Value) :
    let r := Transducer.run (onEvent uuid) .new (streamEvents responseId chunks)
    Follows r.1 (r.2.filterMap itemBracket) ∧ ∀ k, r.1.slots k = none := by
  exact (followsBrackets uuid).stream rfl slots_new responseId chunks

/-! ### Sequence numbers -/

/-- Frames whose payloads have members. -/
def HaveMembers (frames : List SseFrame) : Prop := ∀ fr ∈ frames, ∃ m, fr.data = .object m

theorem haveMembers_nil : HaveMembers [] := by simp [HaveMembers]

theorem haveMembers_cons {event : String} {m : Map} {frames : List SseFrame}
    (h : HaveMembers frames) : HaveMembers (frame event m :: frames) :=
  List.forall_mem_cons.2 ⟨⟨m, rfl⟩, h⟩

theorem HaveMembers.append {frames frames' : List SseFrame} (h : HaveMembers frames)
    (h' : HaveMembers frames') : HaveMembers (frames ++ frames') :=
  List.forall_mem_append.2 ⟨h, h'⟩

section Members

variable (uuid : Nat → String) (e : ResponsesEmitter)

theorem haveMembers_ensureReasoningOpen : HaveMembers (ensureReasoningOpen uuid e).2 := by
  rw [ensureReasoningOpen]
  split
  · exact haveMembers_nil
  · exact haveMembers_cons haveMembers_nil

theorem haveMembers_closeReasoning : HaveMembers (closeReasoning e).2 := by
  rw [closeReasoning]
  split
  · exact haveMembers_nil
  · exact haveMembers_cons haveMembers_nil

theorem haveMembers_ensureMessageOpen : HaveMembers (ensureMessageOpen uuid e).2 := by
  rw [ensureMessageOpen]
  split
  · exact haveMembers_nil
  · exact haveMembers_cons (haveMembers_cons haveMembers_nil)

theorem haveMembers_closeMessage : HaveMembers (closeMessage e).2 := by
  rw [closeMessage]
  split
  · exact haveMembers_nil
  · exact haveMembers_cons (haveMembers_cons (haveMembers_cons haveMembers_nil))

theorem haveMembers_run_finishTool (ts : List ToolItem) :
    HaveMembers (Transducer.run finishTool e ts).2 := by
  apply Transducer.forall_mem_run
  intro e t ht
  exact haveMembers_cons (haveMembers_cons haveMembers_nil)

/-- Every frame has a payload with members. -/
theorem haveMembers_onEventCore (ev : CanonicalEvent) :
    HaveMembers (onEventCore uuid e ev).2 := by
  cases ev with
  | created responseId model => exact haveMembers_cons haveMembers_nil
  | usage counts => exact haveMembers_nil
  | error message status => exact haveMembers_cons haveMembers_nil
  | reasoningDelta text =>
      apply (haveMembers_ensureReasoningOpen uuid e).append
      intro fr hfr
      -- a delta names the item it belongs to
      obtain ⟨item, -, rfl⟩ := List.mem_map.1 hfr
      exact ⟨_, rfl⟩
  | textDelta text =>
      apply ((haveMembers_closeReasoning e).append (haveMembers_ensureMessageOpen uuid _)).append
      intro fr hfr
      obtain ⟨item, -, rfl⟩ := List.mem_map.1 hfr
      exact ⟨_, rfl⟩
  | toolCallStart i callId name =>
      exact ((haveMembers_closeReasoning e).append (haveMembers_closeMessage _)).append
        (haveMembers_cons haveMembers_nil)
  | toolCallArgsDelta i delta =>
      simp only [onEventCore]
      split
      · exact haveMembers_cons haveMembers_nil
      · exact haveMembers_nil
  | toolCallDone i =>
      simp only [onEventCore]
      split
      · exact haveMembers_cons (haveMembers_cons haveMembers_nil)
      · exact haveMembers_nil
  | completed =>
      exact (((haveMembers_closeReasoning e).append (haveMembers_closeMessage _)).append
        (haveMembers_run_finishTool _ _)).append (haveMembers_cons haveMembers_nil)

end Members

/-- Frames numbered from `seq` on, as a `u64` counts. -/
def NumberedFrom (seq : Nat) (frames : List SseFrame) : Prop :=
  ∀ (n : Nat) (fr : SseFrame), frames[n]? = some fr →
    fr.get "sequence_number" = some (.ofNat ((seq + n) % 2 ^ 64))

theorem numberedFrom_number {frames : List SseFrame} (h : HaveMembers frames) (seq : Nat) :
    NumberedFrom seq (number seq frames) := by
  induction frames generalizing seq with
  | nil => simp [NumberedFrom, number]
  | cons fr frames ih =>
      obtain ⟨⟨m, hm⟩, hrest⟩ := List.forall_mem_cons.1 h
      rintro (_ | n) fr' hfr'
      · obtain rfl := Option.some.inj hfr'
        simp [SseFrame.get, hm]
      · have := ih hrest (seq + 1) n fr' hfr'
        rwa [show seq + 1 + n = seq + (n + 1) by omega] at this

/-- **The frames of a run are numbered in order.** -/
theorem numberedFrom_run (uuid : Nat → String) (evs : List CanonicalEvent) (e : ResponsesEmitter) :
    NumberedFrom e.seq (Transducer.run (onEvent uuid) e evs).2 := by
  induction evs generalizing e with
  | nil => simp [NumberedFrom]
  | cons ev evs ih =>
      have hfirst := numberedFrom_number (haveMembers_onEventCore uuid e ev) e.seq
      have hlength : ∀ (seq : Nat) (frames : List SseFrame),
          (number seq frames).length = frames.length := by
        intro seq frames
        induction frames generalizing seq with
        | nil => rfl
        | cons fr frames ihf => rw [number, List.length_cons, ihf, List.length_cons]
      intro n fr hfr
      rw [Transducer.run_cons] at hfr
      -- the frame is one of the first event, or of a later one
      rcases Nat.lt_or_ge n (onEvent uuid e ev).2.length with hn | hn
      · rw [List.getElem?_append_left hn] at hfr
        exact hfirst n fr hfr
      · rw [List.getElem?_append_right hn] at hfr
        have hseq : (onEvent uuid e ev).1.seq = e.seq + (onEvent uuid e ev).2.length := by
          rw [onEvent, hlength]
        have := ih (onEvent uuid e ev).1 _ fr hfr
        rwa [hseq, show e.seq + (onEvent uuid e ev).2.length +
          (n - (onEvent uuid e ev).2.length) = e.seq + n by omega] at this

end ResponsesEmitter

end AiApiBridge
