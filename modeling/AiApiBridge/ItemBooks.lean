import AiApiBridge.StreamCues

/-!
# The books of the output items

What the Responses emitter closes and opens with each event, and how the numbers of its
open items compare. Every item that opens takes the next output index and an id drawn
for it, and every item that closes joins the final items (`books_onEvent`). The open
items stay numbered calls first, then the message, then the reasoning (`Ranked.event`).
-/

set_option autoImplicit false

namespace AiApiBridge

open Brackets

namespace ResponsesEmitter

/-! ## The slots of the Responses emitter -/

section Slots

variable (uuid : Nat → String)

theorem slots_ensureReasoningOpen (e : ResponsesEmitter) (k : ItemSlot) :
    (ensureReasoningOpen uuid e).1.slots k =
      if k = .thinking then
        some ((e.slots .thinking).getD (e.nextOutputIndex, newId uuid "rs" e.drawn))
      else e.slots k := by
  cases h : e.reasoningItem <;> cases k <;> simp [ensureReasoningOpen, slots, h]

theorem slots_closeReasoning (e : ResponsesEmitter) (k : ItemSlot) :
    (closeReasoning e).1.slots k = if k = .thinking then none else e.slots k := by
  cases h : e.reasoningItem <;> cases k <;> simp [closeReasoning, slots, h]

theorem slots_ensureMessageOpen (e : ResponsesEmitter) (k : ItemSlot) :
    (ensureMessageOpen uuid e).1.slots k =
      if k = .text then
        some ((e.slots .text).getD (e.nextOutputIndex, newId uuid "msg" e.drawn))
      else e.slots k := by
  cases h : e.messageItem <;> cases k <;> simp [ensureMessageOpen, slots, h]

theorem slots_closeMessage (e : ResponsesEmitter) (k : ItemSlot) :
    (closeMessage e).1.slots k = if k = .text then none else e.slots k := by
  cases h : e.messageItem <;> cases k <;> simp [closeMessage, slots, h]

@[simp] theorem nextOutputIndex_closeReasoning (e : ResponsesEmitter) :
    (closeReasoning e).1.nextOutputIndex = e.nextOutputIndex := by
  cases h : e.reasoningItem <;> simp [closeReasoning, h]

@[simp] theorem nextOutputIndex_closeMessage (e : ResponsesEmitter) :
    (closeMessage e).1.nextOutputIndex = e.nextOutputIndex := by
  cases h : e.messageItem <;> simp [closeMessage, h]

theorem slots_toolCallStart (e : ResponsesEmitter) (i : Nat) (callId name : String)
    (k : ItemSlot) :
    ∃ id, (onEventCore uuid e (.toolCallStart i callId name)).1.slots k =
      if k = .tool i then some (e.nextOutputIndex, id)
      else if k = .thinking ∨ k = .text then none else e.slots k := by
  have hclosed : ∀ k, (closeMessage (closeReasoning e).1).1.slots k =
      if k = .thinking ∨ k = .text then none else e.slots k := by
    intro k
    rw [slots_closeMessage, slots_closeReasoning]
    cases k <;> rfl
  refine ⟨newId uuid "fc" (closeMessage (closeReasoning e).1).1.drawn, ?_⟩
  cases k with
  | thinking => exact hclosed .thinking
  | text => exact hclosed .text
  | tool j =>
      by_cases hij : j = i
      · simp [onEventCore, slots, hij]
      · have hji : i ≠ j := fun h => hij h.symm
        simp [onEventCore, slots, hij, hji, Std.ExtTreeMap.getElem?_insert]

theorem slots_toolCallArgsDelta (e : ResponsesEmitter) (i : Nat) (delta : String)
    (k : ItemSlot) :
    (onEventCore uuid e (.toolCallArgsDelta i delta)).1.slots k = e.slots k := by
  cases hi : e.tools[i]? with
  | none => simp [onEventCore, hi]
  | some t =>
      simp only [onEventCore, hi]
      cases k with
      | thinking => rfl
      | text => rfl
      | tool j =>
          -- the call keeps its item
          by_cases hij : i = j
          · subst hij
            simp [slots, hi]
          · simp [slots, hij, Std.ExtTreeMap.getElem?_insert]

theorem slots_toolCallDone (e : ResponsesEmitter) (i : Nat) (k : ItemSlot) :
    (onEventCore uuid e (.toolCallDone i)).1.slots k =
      if k = .tool i then none else e.slots k := by
  cases hi : e.tools[i]? with
  | none =>
      have hslot : e.slots (.tool i) = none := by simp [slots, hi]
      by_cases hk : k = .tool i
      · simp [onEventCore, hi, hk, hslot]
      · simp [onEventCore, hi, hk]
  | some t =>
      simp only [onEventCore, hi]
      cases k with
      | thinking => rfl
      | text => rfl
      | tool j =>
          by_cases hij : i = j
          · subst hij
            simp [finishTool, slots]
          · have hji : j ≠ i := fun h => hij h.symm
            simp [finishTool, slots, hij, hji, Std.ExtTreeMap.getElem?_erase]

theorem slots_textDelta (e : ResponsesEmitter) (t : String) (k : ItemSlot) :
    ∃ id, (onEventCore uuid e (.textDelta t)).1.slots k =
      if k = .text then some ((e.slots .text).getD (e.nextOutputIndex, id))
      else if k = .thinking then none else e.slots k := by
  refine ⟨newId uuid "msg" (closeReasoning e).1.drawn, ?_⟩
  have := slots_ensureMessageOpen uuid (closeReasoning e).1 k
  simp only [slots_closeReasoning, nextOutputIndex_closeReasoning, reduceCtorEq, if_false] at this
  rw [← this]
  cases k <;> rfl

/-- **The events of the Responses emitter and its slots.** -/
theorem keepsSlots : KeepsSlots (onEvent uuid) nextOutputIndex slots := by
  intro e ev k hfresh
  change ∃ id, (onEventCore uuid e ev).1.slots k = _
  cases ev with
  | created responseId model => exact ⟨"", rfl⟩
  | reasoningDelta t =>
      -- only the opening of an item can change a slot, not its text
      have hkeep : (onEventCore uuid e (.reasoningDelta t)).1.slots k =
          (ensureReasoningOpen uuid e).1.slots k := by cases k <;> rfl
      refine ⟨newId uuid "rs" e.drawn, ?_⟩
      rw [hkeep, slots_ensureReasoningOpen]
      cases k <;> rfl
  | textDelta t =>
      obtain ⟨id, hid⟩ := slots_textDelta uuid e t k
      refine ⟨id, ?_⟩
      rw [hid]
      cases k <;> rfl
  | toolCallStart i callId name =>
      obtain ⟨id, hid⟩ := slots_toolCallStart uuid e i callId name k
      refine ⟨id, ?_⟩
      rw [hid, slotEffect_toolCallStart]
      by_cases hk : k = .tool i
      · rw [if_pos hk, if_pos hk, hk, hfresh i rfl, Option.getD_none]
      · rw [if_neg hk, if_neg hk]
  | toolCallArgsDelta i delta => exact ⟨"", slots_toolCallArgsDelta uuid e i delta k⟩
  | toolCallDone i =>
      refine ⟨"", ?_⟩
      rw [slots_toolCallDone, slotEffect_toolCallDone]
  | usage counts => exact ⟨"", rfl⟩
  | error message status => exact ⟨"", rfl⟩
  | completed => exact ⟨"", slots_completed uuid k⟩

end Slots

/-! ## What an action closes and opens -/

/-- An item as the frames name it, by the low 32 bits of its number. -/
def framed (x : Nat × String) : Nat × String := (asU32 x.1, x.2)

@[simp] theorem framed_mk (n : Nat) (id : String) : framed (n, id) = (asU32 n, id) := rfl

@[simp] theorem framed_snd (x : Nat × String) : (framed x).2 = x.2 := rfl

/-- The items an action closes and opens, in the order of its frames. A closed item
joins the final items, and an opened one takes a number and an id. -/
structure Books (e : ResponsesEmitter) (r : Emission) (closed opened : List (Nat × String)) :
    Prop where
  closes : closes (r.2.filterMap itemBracket) = closed.map framed
  opens : opens (r.2.filterMap itemBracket) = opened.map framed
  items : r.1.finalItems.map itemId = e.finalItems.map itemId ++ closed.map fun x => some x.2
  next : r.1.nextOutputIndex = e.nextOutputIndex + opened.length
  drawn : r.1.drawn = e.drawn + opened.length

theorem Books.andThen {e : ResponsesEmitter} {r : Emission}
    {closed opened closed' opened' : List (Nat × String)} (hr : Books e r closed opened)
    {f : ResponsesEmitter → Emission} (hf : Books r.1 (f r.1) closed' opened') :
    Books e (Transducer.andThen r f) (closed ++ closed') (opened ++ opened') where
  closes := by
    rw [Transducer.andThen_snd, List.filterMap_append, closes_append, hr.closes, hf.closes,
      List.map_append]
  opens := by
    rw [Transducer.andThen_snd, List.filterMap_append, opens_append, hr.opens, hf.opens,
      List.map_append]
  items := by
    rw [Transducer.andThen_fst, hf.items, hr.items, List.map_append, List.append_assoc]
  next := by
    rw [Transducer.andThen_fst, hf.next, hr.next, List.length_append, Nat.add_assoc]
  drawn := by
    rw [Transducer.andThen_fst, hf.drawn, hr.drawn, List.length_append, Nat.add_assoc]

theorem Books.of_closed {e : ResponsesEmitter} {r : Emission}
    {closed opened : List (Nat × String)} (h : Books e r closed opened)
    {closed' : List (Nat × String)} (heq : closed = closed') : Books e r closed' opened :=
  heq ▸ h

/-- Numbering the frames keeps the books. -/
theorem Books.number {e : ResponsesEmitter} {r : Emission} {closed opened : List (Nat × String)}
    (h : Books e r closed opened) (seq seq' : Nat) :
    Books e ({ r.1 with seq := seq' }, ResponsesEmitter.number seq r.2) closed opened where
  closes := by rw [filterMap_itemBracket_number, h.closes]
  opens := by rw [filterMap_itemBracket_number, h.opens]
  items := h.items
  next := h.next
  drawn := h.drawn

section Actions

attribute [local simp] opens_cons closes_cons

variable (uuid : Nat → String) (e : ResponsesEmitter)

/-- The items in some slots. -/
def itemsIn (ks : List ItemSlot) : List (Nat × String) := ks.flatMap fun k => (e.slots k).toList

theorem itemsIn_congr {e e' : ResponsesEmitter} {ks : List ItemSlot}
    (h : ∀ k ∈ ks, e'.slots k = e.slots k) : itemsIn e' ks = itemsIn e ks :=
  List.flatMap_congr fun k hk => by rw [h k hk]

theorem books_ensureReasoningOpen :
    Books e (ensureReasoningOpen uuid e) []
      (if e.slots .thinking = none then [(e.nextOutputIndex, newId uuid "rs" e.drawn)]
        else []) := by
  cases h : e.reasoningItem <;> constructor <;> simp [ensureReasoningOpen, slots, h, itemId]

theorem books_closeReasoning :
    Books e (closeReasoning e) (e.slots .thinking).toList [] := by
  cases h : e.reasoningItem <;> constructor <;> simp [closeReasoning, slots, h]

theorem books_ensureMessageOpen :
    Books e (ensureMessageOpen uuid e) []
      (if e.slots .text = none then [(e.nextOutputIndex, newId uuid "msg" e.drawn)] else []) := by
  cases h : e.messageItem <;> constructor <;> simp [ensureMessageOpen, slots, h, itemId]

theorem books_closeMessage :
    Books e (closeMessage e) (e.slots .text).toList [] := by
  cases h : e.messageItem <;> constructor <;> simp [closeMessage, slots, h]

/-- A call ends what the assistant was thinking and saying. -/
theorem books_closeTexts :
    Books e (Transducer.andThen (closeReasoning e) closeMessage) (itemsIn e [.thinking, .text])
      [] := by
  have := (books_closeReasoning e).andThen (books_closeMessage _)
  rw [slots_closeReasoning] at this
  exact this.of_closed (by simp [itemsIn])

theorem books_toolCallDone (i : Nat) :
    Books e (onEventCore uuid e (.toolCallDone i)) (e.slots (.tool i)).toList [] := by
  cases h : e.tools[i]? <;> constructor <;> simp [onEventCore, finishTool, slots, h]

/-- Done events for different indices, with their frames numbered or not. -/
theorem books_dones {step : ResponsesEmitter → CanonicalEvent → Emission}
    (hstep : ∀ e i, Books e (step e (.toolCallDone i)) (e.slots (.tool i)).toList [])
    (hslots : ∀ e i k, (step e (.toolCallDone i)).1.slots k =
      if k = .tool i then none else e.slots k)
    {is : List Nat} (hnd : is.Nodup) :
    Books e (Transducer.run step e (is.map .toolCallDone)) (itemsIn e (is.map .tool)) [] := by
  induction is generalizing e with
  | nil => constructor <;> simp [itemsIn]
  | cons i is ih =>
      rw [List.nodup_cons] at hnd
      -- the calls of the other indices stay open
      have hrest : itemsIn (step e (.toolCallDone i)).1 (is.map .tool) =
          itemsIn e (is.map .tool) := by
        apply itemsIn_congr
        rw [List.forall_mem_map]
        intro j hj
        rw [hslots, if_neg]
        rintro ⟨⟩
        exact hnd.1 hj
      have hlater := ih (step e (.toolCallDone i)).1 hnd.2
      rw [hrest] at hlater
      exact Books.andThen (f := fun e => Transducer.run step e (is.map .toolCallDone))
        (hstep e i) hlater

/-- An action that leaves the items alone. -/
theorem books_frames {e' : ResponsesEmitter} {frames : List SseFrame}
    (hframes : frames.filterMap itemBracket = [] ∨
      ∃ n id, frames.filterMap itemBracket = [.touched n id])
    (hitems : e'.finalItems = e.finalItems) (hnext : e'.nextOutputIndex = e.nextOutputIndex)
    (hdrawn : e'.drawn = e.drawn) : Books e (e', frames) [] [] := by
  rcases hframes with h | ⟨n, id, h⟩ <;> constructor <;> simp [h, hitems, hnext, hdrawn]

/-- A delta for the open item. -/
theorem books_delta {e' : ResponsesEmitter} {item : Option OpenItem} {delta : OpenItem → SseFrame}
    (hdelta : ∀ item, itemBracket (delta item) =
      some (.touched (asU32 item.outputIndex) item.id))
    (hitems : e'.finalItems = e.finalItems) (hnext : e'.nextOutputIndex = e.nextOutputIndex)
    (hdrawn : e'.drawn = e.drawn) : Books e (e', item.toList.map delta) [] [] := by
  apply books_frames e _ hitems hnext hdrawn
  cases item with
  | none => exact Or.inl rfl
  | some item => exact Or.inr ⟨asU32 item.outputIndex, item.id, by simp [hdelta]⟩

/-- A call opens its item. -/
theorem books_openCall (tools : Std.ExtTreeMap Nat ToolItem) {item : Value}
    (hitem : itemId item = some (newId uuid "fc" e.drawn)) :
    Books e
      ({ e with nextOutputIndex := e.nextOutputIndex + 1, drawn := e.drawn + 1, tools },
        [itemAdded e.nextOutputIndex item])
      [] [(e.nextOutputIndex, newId uuid "fc" e.drawn)] := by
  constructor <;> simp [hitem]

/-- The indices of the open tools. -/
def openIndices : List Nat := e.tools.toList.map Prod.fst

theorem nodup_openIndices : e.openIndices.Nodup := TreeMaps.nodup_keys_toList e.tools

/-- Closing the open tools is done events for their indices. -/
theorem books_closeOpenTools :
    Books e (closeOpenTools e) (itemsIn e (e.openIndices.map .tool)) [] := by
  have heq : closeOpenTools e =
      Transducer.run (onEventCore (fun _ => "")) e (e.openIndices.map .toolCallDone) := by
    rw [closeOpenTools_eq (fun _ => ""), openIndices, List.map_map]
    rfl
  rw [heq]
  exact books_dones e (books_toolCallDone _) (slots_toolCallDone _) (nodup_openIndices e)

/-- The slots an event closes, in this order. -/
def closedSlots : CanonicalEvent → List ItemSlot
  | .textDelta _ => [.thinking]
  | .toolCallStart _ _ _ => [.thinking, .text]
  | .toolCallDone i => [.tool i]
  | .completed => .thinking :: .text :: e.openIndices.map .tool
  | _ => []

/-- The prefix of the ids of a slot. -/
def slotPrefix : ItemSlot → String
  | .thinking => "rs"
  | .text => "msg"
  | .tool _ => "fc"

/-- An item has the next number and an id drawn for it. -/
def NextItem (opened : List (Nat × String)) : Prop :=
  opened = [] ∨ ∃ k, opened = [(e.nextOutputIndex, newId uuid (slotPrefix k) e.drawn)]

theorem nextItem_opened (k : ItemSlot) :
    NextItem uuid e
      (if e.slots k = none then [(e.nextOutputIndex, newId uuid (slotPrefix k) e.drawn)]
        else []) := by
  split
  · exact Or.inr ⟨k, rfl⟩
  · exact Or.inl rfl

theorem books_reasoningDelta (t : String) :
    Books e (onEventCore uuid e (.reasoningDelta t)) []
      (if e.slots .thinking = none then [(e.nextOutputIndex, newId uuid "rs" e.drawn)]
        else []) := by
  have := (books_ensureReasoningOpen uuid e).andThen
    (f := fun e => ({ e with reasoningText := e.reasoningText ++ t },
      e.reasoningItem.toList.map fun item => reasoningDeltaFrame item t))
    (books_delta _ (fun item => itemBracket_reasoningDeltaFrame item t) rfl rfl rfl)
  rw [List.append_nil, List.append_nil] at this
  exact this

theorem books_textDelta (t : String) :
    Books e (onEventCore uuid e (.textDelta t)) (itemsIn e [.thinking])
      (if e.slots .text = none then [(e.nextOutputIndex, newId uuid "msg" e.drawn)] else []) := by
  have hclose := books_closeReasoning e
  have := (hclose.andThen (books_ensureMessageOpen uuid _)).andThen
    (f := fun e => ({ e with messageText := e.messageText ++ t },
      e.messageItem.toList.map fun item => textDeltaFrame item t))
    (books_delta _ (fun item => itemBracket_textDeltaFrame item t) rfl rfl rfl)
  have htext : (closeReasoning e).1.slots .text = e.slots .text := slots_closeReasoning e .text
  rw [List.append_nil, List.append_nil, List.append_nil, List.nil_append, hclose.next,
    hclose.drawn, htext] at this
  exact this.of_closed (by simp [itemsIn])

theorem books_toolCallStart (i : Nat) (callId name : String) :
    Books e (onEventCore uuid e (.toolCallStart i callId name)) (itemsIn e [.thinking, .text])
      [(e.nextOutputIndex, newId uuid "fc" e.drawn)] := by
  have hclose := books_closeTexts e
  have := hclose.andThen
    (f := fun e => ({ e with
        nextOutputIndex := e.nextOutputIndex + 1
        drawn := e.drawn + 1
        tools := e.tools.insert i ⟨newId uuid "fc" e.drawn, e.nextOutputIndex, callId, name, ""⟩ },
      [itemAdded e.nextOutputIndex (.object [("type", .string "function_call"),
        ("id", .string (newId uuid "fc" e.drawn)), ("call_id", .string callId),
        ("name", .string name), ("arguments", .string ""),
        ("status", .string "in_progress")])]))
    (books_openCall uuid _ _ (by simp [itemId]))
  rw [List.append_nil, hclose.next, hclose.drawn] at this
  exact this

theorem books_toolCallArgsDelta (i : Nat) (delta : String) :
    Books e (onEventCore uuid e (.toolCallArgsDelta i delta)) [] [] := by
  cases hi : e.tools[i]? with
  | none =>
      simp only [onEventCore, hi]
      exact books_frames e (Or.inl rfl) rfl rfl rfl
  | some t =>
      simp only [onEventCore, hi]
      exact books_frames e (Or.inr ⟨asU32 t.outputIndex, t.id, by simp⟩) rfl rfl rfl

/-- The end of the stream closes all items. -/
theorem books_completed :
    Books e (onEventCore uuid e .completed)
      (itemsIn e (.thinking :: .text :: e.openIndices.map .tool)) [] := by
  -- closing the texts leaves the calls alone
  have hindices : (Transducer.andThen (closeReasoning e) closeMessage).1.openIndices =
      e.openIndices := by simp [openIndices]
  have hitems : itemsIn (Transducer.andThen (closeReasoning e) closeMessage).1
      (e.openIndices.map .tool) = itemsIn e (e.openIndices.map .tool) := by
    apply itemsIn_congr
    rw [List.forall_mem_map]
    intro i _
    rw [Transducer.andThen_fst, slots_closeMessage, slots_closeReasoning]
    rfl
  have := ((books_closeTexts e).andThen (books_closeOpenTools _)).andThen
    (f := fun e => (e, [e.completedFrame])) (books_frames _ (Or.inl (by simp)) rfl rfl rfl)
  rw [hindices, hitems, List.append_nil] at this
  exact this.of_closed List.flatMap_append.symm

/-- **What one event closes and opens.** -/
theorem books_onEventCore (ev : CanonicalEvent) :
    ∃ opened, Books e (onEventCore uuid e ev) (itemsIn e (closedSlots e ev)) opened ∧
      NextItem uuid e opened := by
  cases ev with
  | created responseId model =>
      exact ⟨[], books_frames e (Or.inl (by simp)) rfl rfl rfl, Or.inl rfl⟩
  | usage counts => exact ⟨[], books_frames e (Or.inl rfl) rfl rfl rfl, Or.inl rfl⟩
  | error message status =>
      exact ⟨[], books_frames e (Or.inl (by simp)) rfl rfl rfl, Or.inl rfl⟩
  | reasoningDelta t => exact ⟨_, books_reasoningDelta uuid e t, nextItem_opened uuid e .thinking⟩
  | textDelta t => exact ⟨_, books_textDelta uuid e t, nextItem_opened uuid e .text⟩
  | toolCallStart i callId name =>
      exact ⟨_, books_toolCallStart uuid e i callId name, Or.inr ⟨.tool i, rfl⟩⟩
  | toolCallArgsDelta i delta => exact ⟨[], books_toolCallArgsDelta uuid e i delta, Or.inl rfl⟩
  | toolCallDone i =>
      have hitems : (e.slots (.tool i)).toList = itemsIn e (closedSlots e (.toolCallDone i)) := by
        simp [itemsIn, closedSlots]
      exact ⟨[], (books_toolCallDone uuid e i).of_closed hitems, Or.inl rfl⟩
  | completed => exact ⟨[], books_completed uuid e, Or.inl rfl⟩

/-- The books of an event with its frames numbered. -/
theorem books_onEvent (ev : CanonicalEvent) :
    ∃ opened, Books e (onEvent uuid e ev) (itemsIn e (closedSlots e ev)) opened ∧
      NextItem uuid e opened := by
  obtain ⟨opened, hbooks, hnext⟩ := books_onEventCore uuid e ev
  exact ⟨opened, hbooks.number _ _, hnext⟩

/-- **The Responses emitter counts its items.** -/
theorem countsItems : CountsItems (onEvent uuid) nextOutputIndex slots := by
  intro e ev hfresh
  cases ev with
  | created responseId model => rfl
  | usage counts => rfl
  | error message status => rfl
  | reasoningDelta t =>
      rw [onEvent, (books_reasoningDelta uuid e t).next]
      by_cases h : e.slots .thinking = none <;> simp [openedBy, cueOf, Cue.starts, h]
  | textDelta t =>
      rw [onEvent, (books_textDelta uuid e t).next]
      by_cases h : e.slots .text = none <;> simp [openedBy, cueOf, Cue.starts, h]
  | toolCallStart i callId name =>
      -- the slot of a call that starts is empty
      have hfree := hfresh i rfl
      rw [onEvent, (books_toolCallStart uuid e i callId name).next]
      simp [openedBy, cueOf, Cue.starts, hfree]
  | toolCallArgsDelta i delta =>
      rw [onEvent, (books_toolCallArgsDelta uuid e i delta).next]
      rfl
  | toolCallDone i =>
      rw [onEvent, (books_toolCallDone uuid e i).next]
      rfl
  | completed =>
      rw [onEvent, (books_completed uuid e).next]
      rfl

/-- The books of a finish reason. -/
theorem books_finish {is : List Nat} (hnd : is.Nodup) :
    Books e (Transducer.run (onEvent uuid) e (is.map .toolCallDone)) (itemsIn e (is.map .tool))
      [] := by
  apply books_dones e _ _ hnd
  · exact fun e i => (books_toolCallDone uuid e i).number _ _
  · exact fun e i k => (keepsSlots uuid).slots_done i k

end Actions

/-! ## The numbers of open items -/

/-- The open items are numbered in this order: the calls as they were started, then
the message, then the reasoning. -/
structure Ranked (e : ResponsesEmitter) (started : List Nat) : Prop where
  callFirst : ∀ i k, k = .text ∨ k = .thinking → Precedes e.slots (.tool i) k
  textFirst : Precedes e.slots .text .thinking
  calls : started.Pairwise fun i j => Precedes e.slots (.tool i) (.tool j)

namespace Ranked

variable {e e' : ResponsesEmitter} {started : List Nat}

/-- Closing items leaves the order of the others. -/
theorem of_subset (h : Ranked e started)
    (hsub : ∀ k x, e'.slots k = some x → e.slots k = some x) : Ranked e' started where
  callFirst := fun i k hk x y hx hy => h.callFirst i k hk x y (hsub _ x hx) (hsub k y hy)
  textFirst := fun x y hx hy => h.textFirst x y (hsub _ x hx) (hsub _ y hy)
  calls := h.calls.imp fun hij x y hx hy => hij x y (hsub _ x hx) (hsub _ y hy)

/-- An opened item comes last. -/
theorem event (uuid : Nat → String) {w : List (Bracket String)} (hfollows : Follows e w)
    (h : Ranked e started) (ev : CanonicalEvent)
    (hfresh : ∀ i, startedIndex ev = some i → i ∉ started ∧ e.slots (.tool i) = none) :
    Ranked (onEvent uuid e ev).1 (started ++ (startedIndex ev).toList) := by
  have hfree : ∀ i, startedIndex ev = some i → e.slots (.tool i) = none :=
    fun i hi => (hfresh i hi).2
  have hnone : ∀ {k}, slotEffect ev k = .clear →
      (ResponsesEmitter.onEvent uuid e ev).1.slots k = none :=
    (keepsSlots uuid).slots_cleared hfree
  have hprecedes : ∀ {k k'}, slotEffect ev k ≠ .fill → Precedes e.slots k k' →
      Precedes (ResponsesEmitter.onEvent uuid e ev).1.slots k k' :=
    (keepsSlots uuid).precedes hfree fun k x => InSlotsAs.lt_next hfollows
  refine ⟨?_, ?_, ?_⟩
  · intro i k hk
    by_cases hfill : slotEffect ev (.tool i) = .fill
    · -- a call that starts closes both texts
      apply precedes_of_none_right
      obtain ⟨-, hthinking, htext⟩ := fills_tool hfill
      rcases hk with rfl | rfl
      · exact hnone htext
      · exact hnone hthinking
    · exact hprecedes hfill (h.callFirst i k hk)
  · by_cases hfill : slotEffect ev .text = .fill
    · -- a message that opens closes the reasoning
      exact precedes_of_none_right (hnone (fills_text hfill))
    · exact hprecedes hfill h.textFirst
  · have hold : ∀ i ∈ started, slotEffect ev (.tool i) ≠ .fill := by
      intro i hi hfill
      exact (hfresh i (fills_tool hfill).1).1 hi
    rw [List.pairwise_append]
    refine ⟨?_, ?_, ?_⟩
    · apply h.calls.imp_of_mem
      intro i j hi _
      exact hprecedes (hold i hi)
    · cases startedIndex ev <;> simp
    · intro i hi j hj
      apply hprecedes (hold i hi)
      exact precedes_of_none_right (hfree j (Option.mem_toList.1 hj))

/-- Closing the open calls by index is closing them in turn when they were started by
index. -/
theorem calls_iff (h : Ranked e started) {is : List Nat} (his : is.Pairwise (· < ·))
    (hin : ∀ i, e.slots (.tool i) ≠ none → i ∈ is ∧ i ∈ started) :
    (is.Pairwise fun i j => Precedes e.slots (.tool i) (.tool j)) ↔
      started.Pairwise fun i j => e.slots (.tool i) ≠ none → e.slots (.tool j) ≠ none → i < j := by
  -- pairs by index and pairs by slot are the same, since the indices are sorted
  have hindex : (is.Pairwise fun i j => Precedes e.slots (.tool i) (.tool j)) ↔
      ∀ i j, e.slots (.tool i) ≠ none → e.slots (.tool j) ≠ none → i < j →
        Precedes e.slots (.tool i) (.tool j) := by
    constructor
    · intro hp i j hi hj
      apply List.Pairwise.forall_of_forall_of_flip
        (R := fun i j => i < j → Precedes e.slots (.tool i) (.tool j)) _ _ _
        (hin i hi).1 (hin j hj).1
      · exact fun k _ hk => absurd hk (Nat.lt_irrefl k)
      · apply hp.imp
        intro k l hkl _
        exact hkl
      · exact his.imp fun hkl hlk => absurd hkl (Nat.lt_asymm hlk)
    · intro hall
      apply his.imp
      intro i j hij x y hx hy
      exact hall i j (by simp [hx]) (by simp [hy]) hij x y hx hy
  rw [hindex]
  constructor
  · intro hall
    apply h.calls.imp
    intro i j hij hi hj
    -- a call with the larger index that was started first would have the smaller slot
    by_contra hji
    rcases Nat.lt_or_eq_of_le (Nat.le_of_not_lt hji) with hlt | rfl
    · exact hij.reverse_iff.1 (hall j i hj hi hlt) ⟨hj, hi⟩
    · exact hij.reverse_iff.1 hij ⟨hi, hi⟩
  · intro hs i j hi hj
    apply List.Pairwise.forall_of_forall_of_flip
      (R := fun i j => e.slots (.tool i) ≠ none → e.slots (.tool j) ≠ none → i < j →
        Precedes e.slots (.tool i) (.tool j)) _ _ _ (hin i hi).2 (hin j hj).2 hi hj
    · exact fun k _ _ _ hk => absurd hk (Nat.lt_irrefl k)
    · apply h.calls.imp
      intro k l hkl _ _ _
      exact hkl
    · exact hs.imp fun hkl hl hk hlk => absurd (hkl hk hl) (Nat.lt_asymm hlk)

end Ranked

end ResponsesEmitter

end AiApiBridge
