import AiApiBridge.ItemBrackets
import AiApiBridge.Lib.Since

/-!
# What opens and closes items

The chunks of a stream as cues: reasoning, content, the start of a call, a finish
reason. Each cue starts an item of some slot and ends those of others, and an emitter
that keeps its items in slots has those open which the cues have started and not ended
(`Shows`). `FollowsCues.chunks` carries a relation between an emitter and the cues
through a stream; the number of items an emitter has opened is one that the cues tell
(`CountsItems.stream`).
-/

set_option autoImplicit false

namespace AiApiBridge

open Brackets ChatStreamParser Chat

/-! ## Cues -/

inductive Cue where
  | reasoning
  | content
  | call (i : Nat)
  | finish
  deriving DecidableEq, Repr

/-- The cues of tool fragments: the first fragment of an index starts its call. -/
def callCues (seen : List Nat) : List Value → List Cue
  | [] => []
  | f :: fs =>
      if fragmentIndex f ∈ seen then callCues seen fs
      else .call (fragmentIndex f) :: callCues (seen ++ [fragmentIndex f]) fs

/-- The cues of a chunk, in the order in which the parser reads them. A chunk with an
in-band error has none. -/
def chunkCues (seen : List Nat) (c : Value) : List Cue :=
  if NoError c then
    (chunkReasoning c).toList.map (fun _ => .reasoning) ++
      (chunkContent c).toList.map (fun _ => .content) ++ callCues seen (chunkFragments c) ++
      if finishes c then [.finish] else []
  else []

/-- The indices that have been started after a chunk. -/
def startedAfter (seen : List Nat) (c : Value) : List Nat :=
  if NoError c then ((chunkFragments c).map fragmentIndex).foldl startIndex seen else seen

/-- The cues of a stream, when the indices in `seen` have been started. -/
def streamCues (seen : List Nat) : List Value → List Cue
  | [] => []
  | c :: cs => chunkCues seen c ++ streamCues (startedAfter seen c) cs

theorem startedTools_onChunk (p : ChatStreamParser) (c : Value) :
    (p.onChunk c).1.startedTools = startedAfter p.startedTools c := by
  by_cases hc : NoError c
  · rw [onChunk_eq p hc, startedAfter, if_pos hc, ← fragmentRun_fst]
  · obtain ⟨err, herr⟩ := Option.ne_none_iff_exists'.1 hc
    rw [onChunk_error p herr, startedAfter, if_neg hc]

/-- The cue an event is. A finish reason is several events. -/
def cueOf : CanonicalEvent → Option Cue
  | .reasoningDelta _ => some .reasoning
  | .textDelta _ => some .content
  | .toolCallStart i _ _ => some (.call i)
  | _ => none

/-- An event that opens and closes nothing. -/
def IsIdle : CanonicalEvent → Prop
  | .created _ _ => True
  | .toolCallArgsDelta _ _ => True
  | .usage _ => True
  | .error _ _ => True
  | _ => False

namespace Cue

/-- The slot whose item a cue starts. -/
def starts : Cue → Option ItemSlot
  | reasoning => some .thinking
  | content => some .text
  | call i => some (.tool i)
  | finish => none

/-- Whether a cue ends the item of a slot. -/
def ends : Cue → ItemSlot → Bool
  | content, .thinking => true
  | call _, .thinking => true
  | call _, .text => true
  | finish, .tool _ => true
  | _, _ => false

/-- An item of this slot has been started and not been ended. -/
def Pending (k : ItemSlot) (w : List Cue) : Prop :=
  Since (fun c => c.starts = some k) (fun c => c.ends k = true) w

instance (k : ItemSlot) (w : List Cue) : Decidable (Pending k w) :=
  inferInstanceAs (Decidable (Since _ _ _))

@[simp] theorem not_pending_nil (k : ItemSlot) : ¬ Pending k [] := not_since_nil _ _

theorem pending_snoc {k : ItemSlot} {w : List Cue} {c : Cue} :
    Pending k (w ++ [c]) ↔ c.starts = some k ∨ (Pending k w ∧ c.ends k = false) := by
  rw [Pending, since_snoc, Bool.not_eq_true]
  rfl

/-- How many items a cue opens: one, when it starts an item and none of that slot is
pending. -/
def newItems (before : List Cue) (c : Cue) : Nat :=
  match c.starts with
  | some k => if Pending k before then 0 else 1
  | none => 0

/-- How many items the cues open, after those before them. -/
def itemsOpened (before : List Cue) : List Cue → Nat
  | [] => 0
  | c :: w => newItems before c + itemsOpened (before ++ [c]) w

theorem itemsOpened_snoc (before w : List Cue) (c : Cue) :
    itemsOpened before (w ++ [c]) = itemsOpened before w + newItems (before ++ w) c := by
  induction w generalizing before with
  | nil => simp [itemsOpened]
  | cons z w ih =>
      rw [List.cons_append, itemsOpened, itemsOpened, ih, List.append_assoc, Nat.add_assoc]
      rfl

/-- A pending call has been started. -/
theorem Pending.call_mem {i : Nat} {w : List Cue} (h : Pending (.tool i) w) : call i ∈ w := by
  obtain ⟨c, hc, hstarts⟩ := h.exists_mem
  cases c with
  | call j =>
      cases hstarts
      exact hc
  | reasoning => cases hstarts
  | content => cases hstarts
  | finish => cases hstarts

/-- The cue of an event that starts a call. -/
theorem startedIndex_of_call {ev : CanonicalEvent} {i : Nat} (h : cueOf ev = some (.call i)) :
    startedIndex ev = some i := by
  cases ev <;> cases h
  rfl

/-- All calls among the cues have been started. -/
theorem calls_snoc {started : List Nat} {w : List Cue} (h : ∀ i, .call i ∈ w → i ∈ started)
    {ev : CanonicalEvent} {c : Cue} (hcue : cueOf ev = some c) :
    ∀ i, .call i ∈ w ++ [c] → i ∈ started ++ (startedIndex ev).toList := by
  intro i hi
  rcases List.mem_append.1 hi with hold | hnew
  · exact List.mem_append_left _ (h i hold)
  · rw [← List.mem_singleton.1 hnew] at hcue
    rw [startedIndex_of_call hcue]
    exact List.mem_append_right _ List.mem_cons_self

/-- A finish reason starts no call. -/
theorem calls_finish {started : List Nat} {w : List Cue} (h : ∀ i, .call i ∈ w → i ∈ started) :
    ∀ i, .call i ∈ w ++ [.finish] → i ∈ started := by
  intro i hi
  rcases List.mem_append.1 hi with hold | hnew
  · exact h i hold
  · cases List.mem_singleton.1 hnew

end Cue

open Cue

/-! ## Emitters and cues -/

section Follows

variable {σ : Type} (step : Transducer.Step σ CanonicalEvent SseFrame)
  (R : σ → List SseFrame → List Nat → List Cue → Prop)

/-- A relation between an emitter, its frames, the started indices and the cues, kept by
the events that a parser puts together. -/
structure FollowsCues : Prop where
  idle : ∀ s frames started w ev, R s frames started w → IsIdle ev →
    R (step s ev).1 (frames ++ (step s ev).2) started w
  cue : ∀ s frames started w ev c, R s frames started w → cueOf ev = some c →
    (∀ i, startedIndex ev = some i → i ∉ started) →
    R (step s ev).1 (frames ++ (step s ev).2) (started ++ (startedIndex ev).toList) (w ++ [c])
  finish : ∀ s frames started w, R s frames started w →
    R (Transducer.run step s ((started.insertionSort (· ≤ ·)).map .toolCallDone)).1
      (frames ++ (Transducer.run step s ((started.insertionSort (· ≤ ·)).map .toolCallDone)).2)
      started (w ++ [.finish])

variable {step R}

namespace FollowsCues

variable (hf : FollowsCues step R)

include hf

theorem idles {evs : List CanonicalEvent} (h : ∀ ev ∈ evs, IsIdle ev) {s : σ}
    {frames : List SseFrame} {started : List Nat} {w : List Cue} (hR : R s frames started w) :
    R (Transducer.run step s evs).1 (frames ++ (Transducer.run step s evs).2) started w := by
  induction evs generalizing s frames with
  | nil => simpa using hR
  | cons ev evs ih =>
      rw [Transducer.run_cons, ← List.append_assoc]
      exact ih (fun ev' hev' => h ev' (by simp [hev']))
        (hf.idle s frames started w ev hR (h ev (by simp)))

/-- One piece of text, if there is one. -/
theorem piece (event : String → CanonicalEvent) {c : Cue} (hcue : ∀ t, cueOf (event t) = some c)
    (hstarts : ∀ t, startedIndex (event t) = none) (piece : Option String) {s : σ}
    {frames : List SseFrame} {started : List Nat} {w : List Cue} (hR : R s frames started w) :
    R (Transducer.run step s (piece.map event).toList).1
      (frames ++ (Transducer.run step s (piece.map event).toList).2) started
      (w ++ piece.toList.map fun _ => c) := by
  cases piece with
  | none => simpa using hR
  | some t =>
      have := hf.cue s frames started w (event t) c hR (hcue t) (by simp [hstarts])
      simpa [hstarts] using this

/-- The fragments of a chunk. -/
theorem fragments (fs : List Value) {s : σ} {frames : List SseFrame} {started : List Nat}
    {w : List Cue} (hR : R s frames started w) :
    R (Transducer.run step s (Transducer.run onFragment started fs).2).1
      (frames ++ (Transducer.run step s (Transducer.run onFragment started fs).2).2)
      (Transducer.run onFragment started fs).1 (w ++ callCues started fs) := by
  induction fs generalizing s frames started w with
  | nil => simpa [callCues] using hR
  | cons f fs ih =>
      -- the arguments of a fragment open and close nothing
      have hargs : ∀ ev ∈ ((fragmentArgs f).map
          (CanonicalEvent.toolCallArgsDelta (fragmentIndex f))).toList, IsIdle ev := by
        intro ev hev
        obtain ⟨args, -, rfl⟩ := Option.map_eq_some_iff.1 (Option.mem_toList.1 hev)
        trivial
      rw [Transducer.run_cons, onFragment_eq]
      by_cases hmem : fragmentIndex f ∈ started
      · have := ih (hf.idles hargs hR)
        simpa [callCues, startIndex, hmem, Transducer.run_append] using this
      · have hstart := hf.cue s frames started w
          (.toolCallStart (fragmentIndex f) (strOr f "id" "") ((functionStr f "name").getD ""))
          (.call (fragmentIndex f)) hR rfl (by rintro i ⟨⟩; exact hmem)
        have := ih (hf.idles hargs hstart)
        simpa [callCues, startIndex, hmem, Transducer.run_append, Transducer.run_cons,
          startedIndex] using this

/-- **One chunk.** -/
theorem chunk {p : ChatStreamParser} (c : Value) {s : σ} {frames : List SseFrame} {w : List Cue}
    (hR : R s frames p.startedTools w) :
    R (Transducer.run step s (p.onChunk c).2).1
      (frames ++ (Transducer.run step s (p.onChunk c).2).2) (p.onChunk c).1.startedTools
      (w ++ chunkCues p.startedTools c) := by
  by_cases hc : NoError c
  · have hopening : ∀ ev ∈ openingEvents p c, IsIdle ev := by
      intro ev hev
      obtain ⟨-, model, rfl⟩ := mem_openingEvents hev
      trivial
    have husage : ∀ ev ∈ ((chunkUsage c).map usageEvent).toList, IsIdle ev := by
      intro ev hev
      obtain ⟨u, -, rfl⟩ := Option.map_eq_some_iff.1 (Option.mem_toList.1 hev)
      trivial
    have hreasoning := hf.piece .reasoningDelta (fun _ => rfl) (fun _ => rfl)
      (chunkReasoning c) (hf.idles hopening hR)
    have hcontent := hf.piece .textDelta (fun _ => rfl) (fun _ => rfl)
      (chunkContent c) hreasoning
    have hcalls := hf.fragments (chunkFragments c) hcontent
    rw [onChunk_eq p hc, chunkCues, if_pos hc]
    by_cases hfin : finishes c
    · have := hf.idles husage (hf.finish _ _ _ _ hcalls)
      simpa [finishEvents, hfin, fragmentRun, Transducer.run_append] using this
    · have := hf.idles husage hcalls
      simpa [finishEvents, hfin, fragmentRun, Transducer.run_append] using this
  · -- a chunk with an error is one idle event
    obtain ⟨err, herr⟩ := Option.ne_none_iff_exists'.1 hc
    have := hf.idle s frames p.startedTools w (errorEvent err) hR trivial
    simpa [onChunk_error p herr, chunkCues, hc] using this

/-- **A stream of chunks.** -/
theorem chunks (cs : List Value) {p : ChatStreamParser} {s : σ} {frames : List SseFrame}
    {w : List Cue} (hR : R s frames p.startedTools w) :
    R (Transducer.run step s (Transducer.run onChunk p cs).2).1
      (frames ++ (Transducer.run step s (Transducer.run onChunk p cs).2).2)
      (Transducer.run onChunk p cs).1.startedTools (w ++ streamCues p.startedTools cs) := by
  induction cs generalizing p s frames w with
  | nil => simpa [streamCues] using hR
  | cons c cs ih =>
      have := ih (hf.chunk c hR)
      rw [startedTools_onChunk p c] at this
      simpa [streamCues, Transducer.run_cons, Transducer.run_append] using this

end FollowsCues

end Follows

/-! ## Slots and cues -/

/-- What happens to the item of a slot. -/
inductive SlotEffect where
  | keep
  | fill
  | clear
  deriving DecidableEq, Repr

/-- The item of a slot afterwards. One that fills it is the item at hand, if there is
none in it. -/
def SlotEffect.apply {ι : Type} (atHand : ι) (held : Option ι) : SlotEffect → Option ι
  | keep => held
  | fill => some (held.getD atHand)
  | clear => none

/-- What an event does to a slot. -/
def slotEffect : CanonicalEvent → ItemSlot → SlotEffect
  | .reasoningDelta _, .thinking => .fill
  | .textDelta _, .thinking => .clear
  | .textDelta _, .text => .fill
  | .toolCallStart _ _ _, .thinking => .clear
  | .toolCallStart _ _ _, .text => .clear
  | .toolCallStart i _ _, .tool j => if i = j then .fill else .keep
  | .toolCallDone i, .tool j => if i = j then .clear else .keep
  | .completed, _ => .clear
  | _, _ => .keep

theorem slotEffect_idle {ev : CanonicalEvent} (h : IsIdle ev) (k : ItemSlot) :
    slotEffect ev k = .keep := by
  cases ev <;> first | rfl | cases h

/-- A cue fills the slot it starts and clears the slots it ends. -/
theorem slotEffect_cue {ev : CanonicalEvent} {c : Cue} (h : cueOf ev = some c) (k : ItemSlot) :
    slotEffect ev k =
      if c.starts = some k then .fill else if c.ends k then .clear else .keep := by
  cases ev <;> cases h <;> cases k <;> simp [slotEffect, starts, ends]

/-- Only the start of a call fills its slot. It closes both texts. -/
theorem fills_tool {ev : CanonicalEvent} {i : Nat} (h : slotEffect ev (.tool i) = .fill) :
    startedIndex ev = some i ∧ slotEffect ev .thinking = .clear ∧
      slotEffect ev .text = .clear := by
  cases ev with
  | toolCallStart j callId name =>
      by_cases hj : j = i
      · exact ⟨congrArg some hj, rfl, rfl⟩
      · simp [slotEffect, hj] at h
  | toolCallDone j => by_cases hj : j = i <;> simp [slotEffect, hj] at h
  | _ => cases h

/-- Content fills the text slot. It closes the reasoning. -/
theorem fills_text {ev : CanonicalEvent} (h : slotEffect ev .text = .fill) :
    slotEffect ev .thinking = .clear := by
  cases ev <;> first | rfl | cases h

theorem slotEffect_toolCallDone {ι : Type} (i : Nat) (k : ItemSlot) (atHand : ι)
    (held : Option ι) :
    (slotEffect (.toolCallDone i) k).apply atHand held = if k = .tool i then none else held := by
  cases k with
  | thinking => rfl
  | text => rfl
  | tool j =>
      by_cases hij : i = j
      · simp [slotEffect, SlotEffect.apply, hij]
      · have hji : j ≠ i := fun heq => hij heq.symm
        simp [slotEffect, SlotEffect.apply, hij, hji]

theorem slotEffect_toolCallStart {ι : Type} (i : Nat) (callId name : String) (k : ItemSlot)
    (atHand : ι) (held : Option ι) :
    (slotEffect (.toolCallStart i callId name) k).apply atHand held =
      if k = .tool i then some (held.getD atHand)
      else if k = .thinking ∨ k = .text then none else held := by
  cases k with
  | thinking => rfl
  | text => rfl
  | tool j =>
      by_cases hij : i = j
      · simp [slotEffect, SlotEffect.apply, hij]
      · have hji : j ≠ i := fun heq => hij heq.symm
        simp [slotEffect, SlotEffect.apply, hij, hji]

section Slots

variable {σ α : Type} (step : Transducer.Step σ CanonicalEvent SseFrame) (next : σ → Nat)
  (slots : σ → ItemSlot → Option (Nat × α))

/-- An emitter whose events do to its slots what `slotEffect` says. An item that fills
a slot has the next number. -/
def KeepsSlots : Prop :=
  ∀ s ev k, (∀ i, startedIndex ev = some i → slots s (.tool i) = none) →
    ∃ a, slots (step s ev).1 k = (slotEffect ev k).apply (next s, a) (slots s k)

/-- The slots that are filled are those whose items are pending. -/
def Shows (s : σ) (w : List Cue) : Prop := ∀ k, slots s k ≠ none ↔ Pending k w

variable {step next slots}

/-- Before the first cue nothing is open. -/
theorem shows_nil {s : σ} (h : ∀ k, slots s k = none) : Shows slots s [] := by
  intro k
  simp [h k]

namespace KeepsSlots

variable (hk : KeepsSlots step next slots) {s : σ} {w : List Cue}

include hk

theorem shows_idle {ev : CanonicalEvent} (hev : IsIdle ev) (h : Shows slots s w) :
    Shows slots (step s ev).1 w := by
  intro k
  have hstart : startedIndex ev = none := by cases ev <;> first | rfl | cases hev
  obtain ⟨a, ha⟩ := hk s ev k (by simp [hstart])
  rw [ha, slotEffect_idle hev k]
  exact h k

theorem shows_cue {ev : CanonicalEvent} {c : Cue} (hcue : cueOf ev = some c)
    (hfresh : ∀ i, startedIndex ev = some i → slots s (.tool i) = none) (h : Shows slots s w) :
    Shows slots (step s ev).1 (w ++ [c]) := by
  intro k
  obtain ⟨a, ha⟩ := hk s ev k hfresh
  rw [ha, slotEffect_cue hcue k, pending_snoc, ← h k]
  by_cases hstarts : c.starts = some k
  · simp [hstarts, SlotEffect.apply]
  · cases hends : c.ends k <;> simp [hstarts, SlotEffect.apply]

/-- What is in a slot was in it before, or fills it with the next number. -/
theorem slots_some {ev : CanonicalEvent}
    (hfresh : ∀ i, startedIndex ev = some i → slots s (.tool i) = none) {k : ItemSlot}
    {x : Nat × α} (hx : slots (step s ev).1 k = some x) :
    slots s k = some x ∨ (slotEffect ev k = .fill ∧ x.1 = next s) := by
  obtain ⟨a, ha⟩ := hk s ev k hfresh
  rw [ha] at hx
  cases heffect : slotEffect ev k with
  | keep => exact Or.inl (by simpa [heffect, SlotEffect.apply] using hx)
  | clear => simp [heffect, SlotEffect.apply] at hx
  | fill =>
      cases hold : slots s k with
      | some y => exact Or.inl (by simpa [heffect, SlotEffect.apply, hold] using hx)
      | none =>
          right
          have : (next s, a) = x := by simpa [heffect, SlotEffect.apply, hold] using hx
          exact ⟨rfl, this ▸ rfl⟩

theorem slots_cleared {ev : CanonicalEvent}
    (hfresh : ∀ i, startedIndex ev = some i → slots s (.tool i) = none) {k : ItemSlot}
    (hclear : slotEffect ev k = .clear) : slots (step s ev).1 k = none := by
  obtain ⟨a, ha⟩ := hk s ev k hfresh
  rw [ha, hclear]
  rfl

/-- An item that is not new still comes first. -/
theorem precedes {ev : CanonicalEvent}
    (hfresh : ∀ i, startedIndex ev = some i → slots s (.tool i) = none)
    (hlt : ∀ k x, slots s k = some x → x.1 < next s) {k k' : ItemSlot}
    (hold : slotEffect ev k ≠ .fill) (h : Precedes (slots s) k k') :
    Precedes (slots (step s ev).1) k k' := by
  intro x y hx hy
  have hx' := (hk.slots_some hfresh hx).resolve_right fun hfill => hold hfill.1
  rcases hk.slots_some hfresh hy with hy' | ⟨-, hy'⟩
  · exact h x y hx' hy'
  · rw [hy']
    exact hlt k x hx'

theorem slots_done (i : Nat) (k : ItemSlot) :
    slots (step s (.toolCallDone i)).1 k = if k = .tool i then none else slots s k := by
  obtain ⟨a, ha⟩ := hk s (.toolCallDone i) k (fun j hj => by cases hj)
  rw [ha, slotEffect_toolCallDone]

/-- Done events clear the tool slots of their indices. -/
theorem slots_dones (is : List Nat) (k : ItemSlot) :
    slots (Transducer.run step s (is.map .toolCallDone)).1 k =
      if ∃ i ∈ is, k = .tool i then none else slots s k := by
  induction is generalizing s with
  | nil => simp
  | cons i is ih =>
      rw [List.map_cons, Transducer.run_cons, ih, hk.slots_done]
      by_cases hnow : k = .tool i <;> by_cases hlater : ∃ j ∈ is, k = .tool j <;>
        simp [hnow, hlater]

/-- A finish reason clears all tool slots when every open tool has been started. -/
theorem shows_finish {started : List Nat} (hstarted : ∀ i, slots s (.tool i) ≠ none → i ∈ started)
    (h : Shows slots s w) :
    Shows slots (Transducer.run step s ((started.insertionSort (· ≤ ·)).map .toolCallDone)).1
      (w ++ [.finish]) := by
  intro k
  rw [hk.slots_dones, pending_snoc, ← h k]
  cases k with
  | thinking => simp [starts, ends]
  | text => simp [starts, ends]
  | tool i =>
      have := hstarted i
      by_cases hi : i ∈ started <;> simp_all [starts, ends]

end KeepsSlots

/-! ## Counting items -/

/-- The items an event opens: one, when its slot is empty. -/
def openedBy (slots : ItemSlot → Option (Nat × α)) (ev : CanonicalEvent) : Nat :=
  match (cueOf ev).bind starts with
  | some k => if slots k = none then 1 else 0
  | none => 0

variable (step next slots) in
/-- An emitter that counts the items its events open. -/
def CountsItems : Prop :=
  ∀ s ev, (∀ i, startedIndex ev = some i → slots s (.tool i) = none) →
    next (step s ev).1 = next s + openedBy (slots s) ev

variable (slots next) in
/-- The open items are the pending ones, and all of them have been counted. -/
structure Counted (s : σ) (started : List Nat) (w : List Cue) : Prop where
  shows : Shows slots s w
  calls : ∀ i, .call i ∈ w → i ∈ started
  count : next s = itemsOpened [] w

theorem openedBy_cue {s : σ} {w : List Cue} (h : Shows slots s w) {ev : CanonicalEvent} {c : Cue}
    (hcue : cueOf ev = some c) : openedBy (slots s) ev = newItems w c := by
  rw [openedBy, hcue, Option.bind_some, newItems]
  cases c.starts with
  | none => rfl
  | some k =>
      simp only [← h k, ne_eq]
      by_cases hk : slots s k = none <;> simp [hk]

/-- Events that are no cues open nothing. -/
theorem CountsItems.next_quiet (hc : CountsItems step next slots) {evs : List CanonicalEvent}
    (h : ∀ ev ∈ evs, cueOf ev = none) (s : σ) : next (Transducer.run step s evs).1 = next s := by
  induction evs generalizing s with
  | nil => rfl
  | cons ev evs ih =>
      have hcue := h ev List.mem_cons_self
      have hstart : startedIndex ev = none := by cases ev <;> first | rfl | cases hcue
      rw [Transducer.run_cons, ih fun ev' hev' => h ev' (List.mem_cons_of_mem ev hev'),
        hc s ev (by simp [hstart]), openedBy, hcue]
      rfl

theorem CountsItems.next_dones (hc : CountsItems step next slots) (is : List Nat) (s : σ) :
    next (Transducer.run step s (is.map .toolCallDone)).1 = next s := by
  apply hc.next_quiet
  intro ev hev
  obtain ⟨i, -, rfl⟩ := List.mem_map.1 hev
  rfl

/-- The count follows the cues. -/
theorem CountsItems.followsCues (hc : CountsItems step next slots)
    (hk : KeepsSlots step next slots) :
    FollowsCues step fun s _ started w => Counted next slots s started w where
  idle := by
    intro s frames started w ev h hev
    have hstart : startedIndex ev = none := by cases ev <;> first | rfl | cases hev
    have hcue : cueOf ev = none := by cases ev <;> first | rfl | cases hev
    refine ⟨hk.shows_idle hev h.shows, h.calls, ?_⟩
    rw [hc s ev (by simp [hstart]), openedBy, hcue, h.count]
    rfl
  cue := by
    intro s frames started w ev c h hcue hfresh
    have hfree : ∀ i, startedIndex ev = some i → slots s (.tool i) = none := by
      intro i hi
      -- an open call has been started
      by_contra hne
      exact hfresh i hi (h.calls i ((h.shows (.tool i)).1 hne).call_mem)
    refine ⟨hk.shows_cue hcue hfree h.shows, calls_snoc h.calls hcue, ?_⟩
    rw [hc s ev hfree, openedBy_cue h.shows hcue, h.count, itemsOpened_snoc]
    rfl
  finish := by
    intro s frames started w h
    have hstarted : ∀ i, slots s (.tool i) ≠ none → i ∈ started :=
      fun i hi => h.calls i ((h.shows (.tool i)).1 hi).call_mem
    refine ⟨hk.shows_finish hstarted h.shows, calls_finish h.calls, ?_⟩
    rw [hc.next_dones, h.count, itemsOpened_snoc]
    rfl

/-- How many items the events of some chunks open. -/
theorem CountsItems.chunks (hc : CountsItems step next slots) (hk : KeepsSlots step next slots)
    {s : σ} (hnext : next s = 0) (hslots : ∀ k, slots s k = none) (responseId : String)
    (chunks : List Value) :
    next (Transducer.run step s (Transducer.run onChunk (new responseId) chunks).2).1 =
      itemsOpened [] (streamCues [] chunks) := by
  have hnew : Counted next slots s [] [] := ⟨shows_nil hslots, by simp, hnext⟩
  have h := @FollowsCues.chunks σ step _ (hc.followsCues hk) chunks (new responseId) s [] [] hnew
  exact h.count

/-- **How many items a stream opens.** -/
theorem CountsItems.stream (hc : CountsItems step next slots) (hk : KeepsSlots step next slots)
    {s : σ} (hnext : next s = 0) (hslots : ∀ k, slots s k = none) (responseId : String)
    (chunks : List Value) :
    next (Transducer.run step s (streamEvents responseId chunks)).1 =
      itemsOpened [] (streamCues [] chunks) := by
  have hend : ∀ ev ∈ [CanonicalEvent.completed], cueOf ev = none := by
    intro ev hev
    rw [List.mem_singleton.1 hev]
    rfl
  rw [streamEvents, Transducer.run_append_fst, hc.next_quiet hend,
    hc.chunks hk hnext hslots responseId chunks]

end Slots

end AiApiBridge
