import AiApiBridge.Wire.ItemMarks
import AiApiBridge.Wire.StreamFrames
import AiApiBridge.Lib.Channel

/-!
# The texts of streamed items

Whether the closing frames of a reasoning or message item carry the text that was
delivered under its id (`ItemTextsAgree`). The emitter keeps one buffer for each
kind of item and never clears it, so each kind is a `Channel` with a shared
buffer (`Carries`), and the texts agree exactly when the stream opens at most one
item of each kind (`itemTextsAgree_streamFrames_iff`).
-/

set_option autoImplicit false

namespace AiApiBridge

open Transducer (andThen)

namespace TextKind

def idPrefix : TextKind → String
  | reasoning => "rs"
  | message => "msg"

/-- The id of the item opened with the `n`-th UUID. -/
def idOf (uuid : Nat → String) (k : TextKind) (n : Nat) : String := newId uuid k.idPrefix n

/-- The open item of a kind. -/
def openItem : TextKind → ResponsesEmitter → Option OpenItem
  | reasoning, e => e.reasoningItem
  | message, e => e.messageItem

/-- The text buffer of a kind. -/
def buffer : TextKind → ResponsesEmitter → String
  | reasoning, e => e.reasoningText
  | message, e => e.messageText

/-- The frames that close an item, before the final response. -/
def doneEvents : TextKind → List String
  | reasoning => ["response.output_item.done"]
  | message => ["response.output_text.done", "response.content_part.done",
      "response.output_item.done"]

/-- Everything that closes an item: its frames and its entry in the final
response. -/
def closingEvents (k : TextKind) : List String := k.doneEvents ++ ["response.completed"]

end TextKind

/-! ## The property -/

/-- The text delivered under an id. -/
def deltaText (i : String) (ms : List ItemMark) : String :=
  String.join (ms.filterMap (ItemMark.deltaOf i))

/-- For every text item the stream opens, each of its closing frames is there
once and carries the concatenation of the deltas that carried its id. -/
def ItemTextsAgree (frames : List SseFrame) : Prop :=
  ∀ k i, .opened k i ∈ marks frames →
    (marks frames).filterMap (ItemMark.closingOf i) =
      k.closingEvents.map fun ev => (ev, deltaText i (marks frames))

/-! ## The emitter as two channels -/

section Channels

variable (uuid : Nat → String) (k : TextKind)

/-- The marks of an open segment. -/
def openMarks (s : Segment Nat) : List ItemMark :=
  .opened k (k.idOf uuid s.tag) :: s.parts.map (.delta k (k.idOf uuid s.tag))

/-- The marks of a closed segment. -/
def closedMarks (s : ClosedSegment Nat) : List ItemMark :=
  openMarks uuid k s.toSegment ++
    k.doneEvents.map fun ev => .closing k (k.idOf uuid s.tag) ev s.closing

/-- The entry of a closed segment in the final response. -/
def entryMark (s : ClosedSegment Nat) : ItemMark :=
  .closing k (k.idOf uuid s.tag) "response.completed" s.closing

/-- The entries of one kind in the final response. -/
def entryMarks (e : ResponsesEmitter) : List ItemMark :=
  (e.finalItems.filterMap (closedMark "response.completed")).filter fun m => m.kind = k

/-- The emitter, having emitted frames with these marks, is in the state of the
channel. A segment's tag is the number of its item's UUID. -/
structure Carries (e : ResponsesEmitter) (c : Channel Nat) (ms : List ItemMark) : Prop where
  log : ms.filter (fun m => m.kind = k) =
    c.closed.flatMap (closedMarks uuid k) ++ c.current.toList.flatMap (openMarks uuid k)
  item : (k.openItem e).map OpenItem.id = c.current.map fun s => k.idOf uuid s.tag
  buffer : k.buffer e = c.buffer
  entries : entryMarks k e = c.closed.map (entryMark uuid k)
  drawn : ∀ s ∈ c.segments, s.tag < e.drawn
  nodup : (c.segments.map Segment.tag).Nodup

variable {uuid k}

theorem carries_new : Carries uuid k ResponsesEmitter.new Channel.new [] := by
  cases k <;> constructor <;> simp [Channel.new, Channel.segments, TextKind.openItem,
    TextKind.buffer, ResponsesEmitter.new, entryMarks]

/-- What an action may do without touching a channel. -/
theorem Carries.frame {e : ResponsesEmitter} {c : Channel Nat} {ms : List ItemMark}
    (h : Carries uuid k e c ms) (e' : ResponsesEmitter) (new : List ItemMark)
    (hitem : k.openItem e' = k.openItem e) (hbuf : k.buffer e' = k.buffer e) (hent : entryMarks k e' = entryMarks k e)
    (hdrawn : e.drawn ≤ e'.drawn) (hnew : new.filter (fun m => m.kind = k) = []) :
    Carries uuid k e' c (ms ++ new) where
  log := by rw [List.filter_append, h.log, hnew, List.append_nil]
  item := by rw [hitem, h.item]
  buffer := by rw [hbuf, h.buffer]
  entries := by rw [hent, h.entries]
  drawn := fun s hs => Nat.lt_of_lt_of_le (h.drawn s hs) hdrawn
  nodup := h.nodup

/-- The close action of a kind. -/
def closeItem : TextKind → ResponsesEmitter → ResponsesEmitter.Emission
  | .reasoning => ResponsesEmitter.closeReasoning
  | .message => ResponsesEmitter.closeMessage

/-- The delivery of a piece of text of a kind. -/
def deliverText (uuid : Nat → String) (k : TextKind) (t : String) (e : ResponsesEmitter) :
    ResponsesEmitter.Emission :=
  match k with
  | .reasoning => andThen (e.ensureReasoningOpen uuid) fun e =>
      ({ e with reasoningText := e.reasoningText ++ t },
        e.reasoningItem.toList.map fun item => ResponsesEmitter.reasoningDeltaFrame item t)
  | .message => andThen (e.ensureMessageOpen uuid) fun e =>
      ({ e with messageText := e.messageText ++ t },
        e.messageItem.toList.map fun item => ResponsesEmitter.textDeltaFrame item t)

/-- Closing an item closes the channel. -/
theorem Carries.close {e : ResponsesEmitter} {c : Channel Nat} {ms : List ItemMark}
    (h : Carries uuid k e c ms) :
    Carries uuid k (closeItem k e).1 c.close (ms ++ marks (closeItem k e).2) := by
  rcases h with ⟨hlog, hitem, hbuf, hent, hdrawn, hnodup⟩
  cases hc : c.current with
  | none =>
      have hnone : k.openItem e = none := by simpa [hc] using hitem
      have hact : closeItem k e = (e, []) := by
        cases k <;> simp_all [closeItem, TextKind.openItem, ResponsesEmitter.closeReasoning,
          ResponsesEmitter.closeMessage]
      simp only [hact, marks_nil, List.append_nil, Channel.close, hc]
      exact ⟨hlog, hitem, hbuf, hent, hdrawn, hnodup⟩
  | some s =>
      obtain ⟨item, hopen, hid⟩ : ∃ item, k.openItem e = some item ∧
          item.id = k.idOf uuid s.tag := by
        simpa [hc] using hitem
      -- the segment moves from the open one to the closed ones
      have hseg : c.close.segments = c.segments := by simp [Channel.close, Channel.segments, hc]
      refine ⟨?_, ?_, ?_, ?_, ?_, by rw [hseg]; exact hnodup⟩
      · rw [List.filter_append, hlog]
        cases k <;> simp_all [Channel.close, closeItem, TextKind.openItem, TextKind.buffer,
          ResponsesEmitter.closeReasoning, ResponsesEmitter.closeMessage, closedMarks,
          TextKind.doneEvents, ResponsesEmitter.frameMarks_itemDone]
      · cases k <;> simp_all [Channel.close, closeItem, TextKind.openItem,
          ResponsesEmitter.closeReasoning, ResponsesEmitter.closeMessage]
      · cases k <;> simp_all [Channel.close, closeItem, TextKind.openItem, TextKind.buffer,
          ResponsesEmitter.closeReasoning, ResponsesEmitter.closeMessage]
      · cases k <;> simp_all [Channel.close, closeItem, TextKind.openItem, TextKind.buffer,
          ResponsesEmitter.closeReasoning, ResponsesEmitter.closeMessage, entryMarks, entryMark]
      · rw [hseg]
        cases k <;> simp_all [closeItem, TextKind.openItem, ResponsesEmitter.closeReasoning,
          ResponsesEmitter.closeMessage]

/-- The first text opens an item under a new number. -/
theorem Carries.deliver_first {e : ResponsesEmitter} {c : Channel Nat} {ms : List ItemMark}
    (h : Carries uuid k e c ms) (hc : c.current = none) (t : String) :
    Carries uuid k (deliverText uuid k t e).1 (c.deliver e.drawn t)
      (ms ++ marks (deliverText uuid k t e).2) := by
  rcases h with ⟨hlog, hitem, hbuf, hent, hdrawn, hnodup⟩
  have hnone : k.openItem e = none := by simpa [hc] using hitem
  -- a new segment, tagged with the number of its item
  have hseg : (c.deliver e.drawn t).segments = c.segments ++ [⟨e.drawn, [t]⟩] := by
    simp [Channel.deliver, Channel.segments, hc]
  refine ⟨?_, ?_, ?_, ?_, ?_, ?_⟩
  · rw [List.filter_append, hlog]
    cases k <;> simp_all [Channel.deliver, deliverText, TextKind.openItem, TextKind.buffer,
      ResponsesEmitter.ensureReasoningOpen, ResponsesEmitter.ensureMessageOpen, openMarks,
      ResponsesEmitter.frameMarks_itemAdded, openedMark, textKindOf, itemId,
      TextKind.idOf, TextKind.idPrefix]
  · cases k <;> simp_all [Channel.deliver, deliverText, TextKind.openItem,
      ResponsesEmitter.ensureReasoningOpen, ResponsesEmitter.ensureMessageOpen,
      TextKind.idOf, TextKind.idPrefix]
  · cases k <;> simp_all [Channel.deliver, deliverText, TextKind.openItem, TextKind.buffer,
      ResponsesEmitter.ensureReasoningOpen, ResponsesEmitter.ensureMessageOpen]
  · cases k <;> simp_all [Channel.deliver, deliverText, TextKind.openItem,
      ResponsesEmitter.ensureReasoningOpen, ResponsesEmitter.ensureMessageOpen, entryMarks]
  · have hnext : (deliverText uuid k t e).1.drawn = e.drawn + 1 := by
      cases k <;> simp_all [deliverText, TextKind.openItem,
        ResponsesEmitter.ensureReasoningOpen, ResponsesEmitter.ensureMessageOpen]
    rw [hseg, hnext]
    intro s hs
    rcases List.mem_append.1 hs with hs | hs
    · exact Nat.lt_succ_of_lt (hdrawn s hs)
    · rw [List.mem_singleton.1 hs]
      exact Nat.lt_succ_self _
  · rw [hseg, List.map_append, List.nodup_append]
    refine ⟨hnodup, by simp, ?_⟩
    intro n hn m hm
    obtain ⟨s, hs, rfl⟩ := List.mem_map.1 hn
    have := hdrawn s hs
    simp only [List.map_cons, List.map_nil, List.mem_singleton] at hm
    omega

/-- More text goes to the open item. -/
theorem Carries.deliver_more {e : ResponsesEmitter} {c : Channel Nat} {ms : List ItemMark}
    (h : Carries uuid k e c ms) {s : Segment Nat} (hc : c.current = some s) (t : String) :
    Carries uuid k (deliverText uuid k t e).1 (c.deliver e.drawn t)
      (ms ++ marks (deliverText uuid k t e).2) := by
  rcases h with ⟨hlog, hitem, hbuf, hent, hdrawn, hnodup⟩
  obtain ⟨item, hopen, hid⟩ : ∃ item, k.openItem e = some item ∧
      item.id = k.idOf uuid s.tag := by
    simpa [hc] using hitem
  -- the open segment grows and no tag changes
  have htags : (c.deliver e.drawn t).segments.map Segment.tag =
      c.segments.map Segment.tag := by
    simp [Channel.deliver, Channel.segments, hc]
  refine ⟨?_, ?_, ?_, ?_, ?_, by rw [htags]; exact hnodup⟩
  · rw [List.filter_append, hlog]
    cases k <;> simp_all [Channel.deliver, deliverText, TextKind.openItem,
      ResponsesEmitter.ensureReasoningOpen, ResponsesEmitter.ensureMessageOpen, openMarks]
  · cases k <;> simp_all [Channel.deliver, deliverText, TextKind.openItem,
      ResponsesEmitter.ensureReasoningOpen, ResponsesEmitter.ensureMessageOpen]
  · cases k <;> simp_all [Channel.deliver, deliverText, TextKind.openItem, TextKind.buffer,
      ResponsesEmitter.ensureReasoningOpen, ResponsesEmitter.ensureMessageOpen]
  · cases k <;> simp_all [Channel.deliver, deliverText, TextKind.openItem,
      ResponsesEmitter.ensureReasoningOpen, ResponsesEmitter.ensureMessageOpen, entryMarks]
  · have hsame : (deliverText uuid k t e).1.drawn = e.drawn := by
      cases k <;> simp_all [deliverText, TextKind.openItem,
        ResponsesEmitter.ensureReasoningOpen, ResponsesEmitter.ensureMessageOpen]
    rw [hsame]
    intro s' hs'
    have : s'.tag ∈ c.segments.map Segment.tag := by
      rw [← htags]
      exact List.mem_map_of_mem hs'
    obtain ⟨s'', hs'', heq⟩ := List.mem_map.1 this
    rw [← heq]
    exact hdrawn s'' hs''

/-- Delivering text is delivering it to the channel. -/
theorem Carries.deliver {e : ResponsesEmitter} {c : Channel Nat} {ms : List ItemMark}
    (h : Carries uuid k e c ms) (t : String) :
    Carries uuid k (deliverText uuid k t e).1 (c.deliver e.drawn t)
      (ms ++ marks (deliverText uuid k t e).2) := by
  cases hc : c.current with
  | none => exact h.deliver_first hc t
  | some s => exact h.deliver_more hc t

/-- Closing the other kind leaves a channel alone. -/
theorem Carries.closeOther {e : ResponsesEmitter} {c : Channel Nat} {ms : List ItemMark}
    (h : Carries uuid k e c ms) (k' : TextKind) (hk : k' ≠ k) :
    Carries uuid k (closeItem k' e).1 c (ms ++ marks (closeItem k' e).2) := by
  cases k' with
  | reasoning =>
      obtain rfl : k = .message := by cases k <;> simp_all
      cases hi : e.reasoningItem <;>
        exact h.frame _ _ (by simp [closeItem, ResponsesEmitter.closeReasoning, hi, TextKind.openItem])
          (by simp [closeItem, ResponsesEmitter.closeReasoning, hi, TextKind.buffer])
          (by simp [closeItem, ResponsesEmitter.closeReasoning, hi, entryMarks])
          (by simp [closeItem, ResponsesEmitter.closeReasoning, hi])
          (by simp [closeItem, ResponsesEmitter.closeReasoning, hi,
            ResponsesEmitter.frameMarks_itemDone])
  | message =>
      obtain rfl : k = .reasoning := by cases k <;> simp_all
      cases hi : e.messageItem <;>
        exact h.frame _ _ (by simp [closeItem, ResponsesEmitter.closeMessage, hi, TextKind.openItem])
          (by simp [closeItem, ResponsesEmitter.closeMessage, hi, TextKind.buffer])
          (by simp [closeItem, ResponsesEmitter.closeMessage, hi, entryMarks])
          (by simp [closeItem, ResponsesEmitter.closeMessage, hi])
          (by simp [closeItem, ResponsesEmitter.closeMessage, hi,
            ResponsesEmitter.frameMarks_itemDone])

/-- Delivering text of the other kind leaves a channel alone. -/
theorem Carries.deliverOther {e : ResponsesEmitter} {c : Channel Nat} {ms : List ItemMark}
    (h : Carries uuid k e c ms) (k' : TextKind) (hk : k' ≠ k) (t : String) :
    Carries uuid k (deliverText uuid k' t e).1 c (ms ++ marks (deliverText uuid k' t e).2) := by
  cases k' with
  | reasoning =>
      -- there are two kinds, so the other one is the message
      obtain rfl : k = .message := by cases k <;> simp_all
      cases hi : e.reasoningItem <;>
        exact h.frame _ _
          (by simp [deliverText, ResponsesEmitter.ensureReasoningOpen, hi, TextKind.openItem])
          (by simp [deliverText, ResponsesEmitter.ensureReasoningOpen, hi, TextKind.buffer])
          (by simp [deliverText, ResponsesEmitter.ensureReasoningOpen, hi, entryMarks])
          (by simp [deliverText, ResponsesEmitter.ensureReasoningOpen, hi])
          (by simp [deliverText, ResponsesEmitter.ensureReasoningOpen, hi, openedMark, textKindOf,
            itemId, ResponsesEmitter.frameMarks_itemAdded])
  | message =>
      obtain rfl : k = .reasoning := by cases k <;> simp_all
      cases hi : e.messageItem <;>
        exact h.frame _ _
          (by simp [deliverText, ResponsesEmitter.ensureMessageOpen, hi, TextKind.openItem])
          (by simp [deliverText, ResponsesEmitter.ensureMessageOpen, hi, TextKind.buffer])
          (by simp [deliverText, ResponsesEmitter.ensureMessageOpen, hi, entryMarks])
          (by simp [deliverText, ResponsesEmitter.ensureMessageOpen, hi])
          (by simp [deliverText, ResponsesEmitter.ensureMessageOpen, hi, openedMark, textKindOf,
            itemId, ResponsesEmitter.frameMarks_itemAdded])

/-- Closing both kinds closes every channel. -/
theorem Carries.closeBoth {e : ResponsesEmitter} {c : Channel Nat} {ms : List ItemMark}
    (h : Carries uuid k e c ms) :
    Carries uuid k (andThen (closeItem .reasoning e) (closeItem .message)).1 c.close
      (ms ++ marks (andThen (closeItem .reasoning e) (closeItem .message)).2) := by
  simp only [Transducer.andThen_fst, Transducer.andThen_snd, marks_append, ← List.append_assoc]
  cases k with
  | reasoning => exact h.close.closeOther .message (by decide)
  | message => exact (h.closeOther .reasoning (by decide)).close

/-- Finishing tools leaves a channel alone. -/
theorem Carries.finishTools {e : ResponsesEmitter} {c : Channel Nat} {ms : List ItemMark}
    (h : Carries uuid k e c ms) (ts : List ToolItem) :
    Carries uuid k (Transducer.run ResponsesEmitter.finishTool e ts).1 c
      (ms ++ marks (Transducer.run ResponsesEmitter.finishTool e ts).2) := by
  induction ts generalizing e ms with
  | nil => simpa using h
  | cons t ts ih =>
      have hstep : Carries uuid k (e.finishTool t).1 c (ms ++ marks (e.finishTool t).2) :=
        h.frame _ _ (by cases k <;> rfl) (by cases k <;> rfl)
          (by simp [ResponsesEmitter.finishTool, entryMarks]) (Nat.le_refl _)
          (by simp [ResponsesEmitter.finishTool, ResponsesEmitter.frameMarks_itemDone])
      simpa [Transducer.run_cons] using ih hstep

/-! ## One event -/

/-- What an event is to the channel of a kind. -/
def eventRole : TextKind → CanonicalEvent → Role
  | .reasoning, .reasoningDelta _ => .text
  | .reasoning, .textDelta _ => .brk
  | .message, .textDelta _ => .text
  | _, .toolCallStart _ _ _ => .brk
  | _, .completed => .brk
  | _, _ => .idle

/-- The text an event delivers. -/
def eventText : CanonicalEvent → String
  | .reasoningDelta t => t
  | .textDelta t => t
  | _ => ""

/-- The channel of a kind after an event. -/
def stepChannel (k : TextKind) (tag : Nat) (c : Channel Nat) (ev : CanonicalEvent) : Channel Nat :=
  match eventRole k ev with
  | .text => c.deliver tag (eventText ev)
  | .brk => c.close
  | .idle => c

/-- Content closes the reasoning first. -/
theorem Carries.textDelta {e : ResponsesEmitter} {c : Channel Nat} {ms : List ItemMark}
    (h : Carries uuid k e c ms) (t : String) :
    Carries uuid k (e.onEventCore uuid (.textDelta t)).1 (stepChannel k e.drawn c (.textDelta t))
      (ms ++ marks (e.onEventCore uuid (.textDelta t)).2) := by
  have hact : e.onEventCore uuid (.textDelta t) =
      andThen (closeItem .reasoning e) (deliverText uuid .message t) := by
    simp [ResponsesEmitter.onEventCore, closeItem, deliverText, andThen]
  -- closing draws no number
  have hdrawn : (closeItem .reasoning e).1.drawn = e.drawn := by
    cases hi : e.reasoningItem <;> simp [closeItem, ResponsesEmitter.closeReasoning, hi]
  rw [hact]
  simp only [Transducer.andThen_fst, Transducer.andThen_snd, marks_append, ← List.append_assoc]
  cases k with
  | reasoning => exact h.close.deliverOther .message (by decide) t
  | message =>
      have := (h.closeOther .reasoning (by decide)).deliver t
      rwa [hdrawn] at this

/-- A call closes both texts, and its own frame is of neither kind. -/
theorem Carries.toolCallStart {e : ResponsesEmitter} {c : Channel Nat} {ms : List ItemMark}
    (h : Carries uuid k e c ms) (index : Nat) (callId name : String) :
    Carries uuid k (e.onEventCore uuid (.toolCallStart index callId name)).1
      (stepChannel k e.drawn c (.toolCallStart index callId name))
      (ms ++ marks (e.onEventCore uuid (.toolCallStart index callId name)).2) := by
  have hclosed := h.closeBoth
  have := hclosed.frame (e.onEventCore uuid (.toolCallStart index callId name)).1
    (marks ((e.onEventCore uuid (.toolCallStart index callId name)).2.drop
      (andThen (closeItem .reasoning e) (closeItem .message)).2.length))
    (by cases k <;> rfl) (by cases k <;> rfl) rfl (Nat.le_succ _)
    (by simp [ResponsesEmitter.onEventCore, closeItem, ResponsesEmitter.frameMarks_itemAdded,
      openedMark, textKindOf])
  simpa [ResponsesEmitter.onEventCore, closeItem, stepChannel, eventRole] using this

/-- **One event, except the last.** The emitter does to a channel what the event
says. -/
theorem Carries.event {e : ResponsesEmitter} {c : Channel Nat} {ms : List ItemMark}
    (h : Carries uuid k e c ms) (ev : CanonicalEvent) (hev : ev ≠ .completed) :
    Carries uuid k (e.onEventCore uuid ev).1 (stepChannel k e.drawn c ev)
      (ms ++ marks (e.onEventCore uuid ev).2) := by
  cases ev with
  | created responseId model =>
      cases k <;>
        exact h.frame (e.onEventCore uuid (.created responseId model)).1
          (marks (e.onEventCore uuid (.created responseId model)).2) rfl rfl rfl (Nat.le_refl _)
          (by simp [ResponsesEmitter.onEventCore])
  | reasoningDelta t =>
      cases k with
      | reasoning => exact h.deliver t
      | message => exact h.deliverOther .reasoning (by decide) t
  | textDelta t => exact h.textDelta t
  | toolCallStart index callId name => exact h.toolCallStart index callId name
  | toolCallArgsDelta index delta =>
      -- arguments of a call that is not open are dropped
      cases ht : e.tools[index]? with
      | none => simpa [ResponsesEmitter.onEventCore, ht, stepChannel, eventRole] using h
      | some t =>
          have := h.frame (e.onEventCore uuid (.toolCallArgsDelta index delta)).1 []
            (by cases k <;> simp [ResponsesEmitter.onEventCore, ht, TextKind.openItem])
            (by cases k <;> simp [ResponsesEmitter.onEventCore, ht, TextKind.buffer])
            (by simp [ResponsesEmitter.onEventCore, ht, entryMarks])
            (by simp [ResponsesEmitter.onEventCore, ht]) rfl
          simpa [ResponsesEmitter.onEventCore, ht, stepChannel, eventRole] using this
  | toolCallDone index =>
      cases ht : e.tools[index]? with
      | none => simpa [ResponsesEmitter.onEventCore, ht, stepChannel, eventRole] using h
      | some t =>
          -- the call is taken out, and its item is finished
          have := (h.frame { e with tools := e.tools.erase index } []
            (by cases k <;> rfl) (by cases k <;> rfl) rfl (Nat.le_refl _) rfl).finishTools [t]
          simpa [ResponsesEmitter.onEventCore, ht, stepChannel, eventRole] using this
  | usage counts =>
      cases k <;>
        exact h.frame (e.onEventCore uuid (.usage counts)).1
          (marks (e.onEventCore uuid (.usage counts)).2) rfl rfl rfl (Nat.le_refl _)
          (by simp [ResponsesEmitter.onEventCore])
  | completed => exact absurd rfl hev
  | error message status =>
      cases k <;>
        exact h.frame (e.onEventCore uuid (.error message status)).1
          (marks (e.onEventCore uuid (.error message status)).2) rfl rfl rfl (Nat.le_refl _)
          (by simp [ResponsesEmitter.onEventCore])

/-! ## A whole stream -/

/-- The words a channel reads: no end of stream, and no empty text. -/
def Delivers (ev : CanonicalEvent) : Prop :=
  ev ≠ .completed ∧ ∀ k, eventRole k ev = .text → eventText ev ≠ ""

variable (uuid k) in
/-- What a run of the emitter keeps. -/
def CarriesSome (evs : List CanonicalEvent) (frames : List SseFrame) (e : ResponsesEmitter) :
    Prop :=
  ∃ c, Carries uuid k e c (marks frames) ∧ c.Wf ∧
    c.Counts (SegmentCount.after (eventRole k) ⟨0, false⟩ evs)

theorem carriesSome_run (evs : List CanonicalEvent) (h : ∀ ev ∈ evs, Delivers ev) :
    CarriesSome uuid k evs (Transducer.run (ResponsesEmitter.onEvent uuid) .new evs).2
      (Transducer.run (ResponsesEmitter.onEvent uuid) .new evs).1 := by
  refine Transducer.run_invariant (ResponsesEmitter.onEvent uuid)
    (fun evs frames e => (∀ ev ∈ evs, Delivers ev) → CarriesSome uuid k evs frames e) ?_ ?_ evs h
  · exact fun _ => ⟨Channel.new, carries_new, Channel.new_wf, rfl, rfl⟩
  · intro evs frames e ev ih hevs
    obtain ⟨c, hc, hwf, hcount⟩ := ih fun ev' hev' => hevs ev' (List.mem_append_left _ hev')
    obtain ⟨hne, htext⟩ := hevs ev (by simp)
    refine ⟨stepChannel k e.drawn c ev, ?_, ?_, ?_⟩
    · -- the sequence numbers change neither the marks nor what the channel sees
      obtain ⟨h1, h2, h3, h4, h5, h6⟩ := hc.event ev hne
      rw [marks_append]
      refine ⟨by simpa [ResponsesEmitter.onEvent] using h1, ?_, ?_, h4, h5, h6⟩
      · cases k <;> exact h2
      · cases k <;> exact h3
    · cases hr : eventRole k ev with
      | text => simpa [stepChannel, hr] using hwf.deliver e.drawn (htext k hr)
      | brk => simpa [stepChannel, hr] using hwf.close
      | idle => simpa [stepChannel, hr] using hwf
    · rw [SegmentCount.after_append]
      cases hr : eventRole k ev with
      | text => simpa [stepChannel, hr] using hcount.deliver e.drawn (eventText ev)
      | brk => simpa [stepChannel, hr] using hcount.close
      | idle => simpa [stepChannel, hr, SegmentCount.step] using hcount

variable (uuid k) in
/-- The marks of one kind in a complete stream whose channel ends as `c`. -/
def streamMarks (c : Channel Nat) : List ItemMark :=
  c.closed.flatMap (closedMarks uuid k) ++ c.closed.map (entryMark uuid k)

variable (uuid) in
/-- The frames of a complete stream of events. -/
def completedFrames (evs : List CanonicalEvent) : List SseFrame :=
  (Transducer.run (ResponsesEmitter.onEvent uuid) .new (evs ++ [.completed])).2

/-- The last event closes the channel and lists its segments. -/
theorem marks_completedFrames (k : TextKind) (evs : List CanonicalEvent)
    (h : ∀ ev ∈ evs, Delivers ev) :
    ∃ c : Channel Nat, (marks (completedFrames uuid evs)).filter (fun m => m.kind = k) =
        streamMarks uuid k c ∧ (c.closed.map fun s => s.tag).Nodup ∧
      ((∀ s ∈ c.closed, s.closing = s.toSegment.text) ↔
        (SegmentCount.after (eventRole k) ⟨0, false⟩ evs).segments ≤ 1) := by
  obtain ⟨c, hc, hwf, hcount⟩ : CarriesSome uuid k evs _ _ := carriesSome_run evs h
  refine ⟨c.close, ?_, ?_, ?_⟩
  · rw [completedFrames, Transducer.run_append_snd, Transducer.run_singleton]
    generalize Transducer.run (ResponsesEmitter.onEvent uuid) .new evs = r at hc
    -- the last event closes both texts and then the tools
    have hclosed := (hc.closeBoth.frame
      { (andThen (closeItem .reasoning r.1) (closeItem .message)).1 with tools := ∅ } []
      (by cases k <;> rfl) (by cases k <;> rfl) rfl (Nat.le_refl _) rfl).finishTools
      ((andThen (closeItem .reasoning r.1) (closeItem .message)).1.tools.toList.map Prod.snd)
    have hcur : c.close.current = none := by
      cases hcc : c.current <;> simp [Channel.close, hcc]
    have hlog := hclosed.log
    have hent := hclosed.entries
    rw [hcur] at hlog
    simp only [Option.toList_none, List.flatMap_nil, List.append_nil, List.filter_append,
      closeItem] at hlog hent
    simp only [ResponsesEmitter.onEvent, ResponsesEmitter.onEventCore, marks_append,
      ResponsesEmitter.marks_number, Transducer.andThen_snd, Transducer.andThen_fst,
      ResponsesEmitter.closeOpenTools, marks_cons, marks_nil, List.append_nil,
      ResponsesEmitter.frameMarks_completedFrame, List.filter_append, streamMarks, ← hent, ← hlog,
      entryMarks, List.append_assoc]
  · have hseg : c.close.segments = c.segments := by
      cases hcc : c.current <;> simp [Channel.close, Channel.segments, hcc]
    have hnd := hc.nodup
    rw [← hseg, Channel.segments, List.map_append, List.nodup_append] at hnd
    simpa [Function.comp_def] using hnd.1
  · have hlen : c.close.closed.length = c.segments.length := by
      cases hcc : c.current <;> simp [Channel.close, Channel.segments, hcc]
    rw [hwf.close.closings_agree_iff, hlen, hcount.1]

/-! ## Reading one item -/

theorem kind_of_mem_streamMarks {c : Channel Nat} {m : ItemMark}
    (h : m ∈ streamMarks uuid k c) : ∃ n, m.id = k.idOf uuid n := by
  rcases List.mem_append.1 h with h | h
  · obtain ⟨s, -, hm⟩ := List.mem_flatMap.1 h
    simp only [closedMarks, openMarks, List.mem_append, List.mem_cons, List.mem_map] at hm
    refine ⟨s.tag, ?_⟩
    rcases hm with (rfl | ⟨t, -, rfl⟩) | ⟨ev, -, rfl⟩ <;> rfl
  · obtain ⟨s, -, rfl⟩ := List.mem_map.1 h
    exact ⟨s.tag, rfl⟩

/-- Ids of different kinds differ. -/
theorem idOf_ne {k' : TextKind} (hk : k ≠ k') (n n' : Nat) : k.idOf uuid n ≠ k'.idOf uuid n' := by
  have hr : TextKind.reasoning.idPrefix.toList = ['r', 's'] := rfl
  have hm : TextKind.message.idPrefix.toList = ['m', 's', 'g'] := rfl
  refine newId_ne n n' ?_ ?_ ?_ <;> cases k <;> cases k' <;> simp_all

/-- The marks of one item are those of its segment. -/
theorem filter_id_streamMarks (hu : Function.Injective uuid) {c : Channel Nat}
    (hnd : (c.closed.map fun s => s.tag).Nodup) {s : ClosedSegment Nat} (hs : s ∈ c.closed) :
    (streamMarks uuid k c).filter (fun m => m.id = k.idOf uuid s.tag) =
      closedMarks uuid k s ++ [entryMark uuid k s] := by
  have hids : (c.closed.map fun s => k.idOf uuid s.tag).Nodup := by
    have := hnd.map (newId_injective hu k.idPrefix)
    rwa [List.map_map] at this
  have hclosed : (c.closed.flatMap (closedMarks uuid k)).filter
      (fun m => m.id = k.idOf uuid s.tag) = closedMarks uuid k s := by
    refine filter_flatMap_of_nodup (closedMarks uuid k) (fun s => k.idOf uuid s.tag) ItemMark.id
      ?_ hids hs
    intro s m hm
    simp only [closedMarks, openMarks, List.mem_append, List.mem_cons, List.mem_map] at hm
    rcases hm with (rfl | ⟨t, -, rfl⟩) | ⟨ev, -, rfl⟩ <;> rfl
  have hentry : (c.closed.map (entryMark uuid k)).filter
      (fun m => m.id = k.idOf uuid s.tag) = [entryMark uuid k s] := by
    have := filter_flatMap_of_nodup (fun s => [entryMark uuid k s])
      (fun s => k.idOf uuid s.tag) ItemMark.id (by simp [entryMark]) hids hs
    rwa [← List.map_eq_flatMap] at this
  rw [streamMarks, List.filter_append, hclosed, hentry]

theorem filterMap_closingOf_filter (i : String) (ms : List ItemMark) :
    (ms.filter fun m => m.id = i).filterMap (ItemMark.closingOf i) =
      ms.filterMap (ItemMark.closingOf i) := by
  rw [List.filterMap_filter]
  apply List.filterMap_congr
  intro m _
  by_cases h : m.id = i
  · simp [h]
  · simp [h, ItemMark.closingOf_of_ne h]

theorem deltaText_filter (i : String) (ms : List ItemMark) :
    deltaText i (ms.filter fun m => m.id = i) = deltaText i ms := by
  rw [deltaText]
  rw [List.filterMap_filter]
  congr 1
  apply List.filterMap_congr
  intro m _
  by_cases h : m.id = i
  · simp [h]
  · simp [h, ItemMark.deltaOf_of_ne h]

theorem filterMap_closingOf_segment (s : ClosedSegment Nat) :
    (closedMarks uuid k s ++ [entryMark uuid k s]).filterMap
      (ItemMark.closingOf (k.idOf uuid s.tag)) = k.closingEvents.map fun ev => (ev, s.closing) := by
  simp [closedMarks, openMarks, entryMark, TextKind.closingEvents, List.filterMap_cons,
    List.filterMap_map, Function.comp_def]

theorem deltaText_segment (s : ClosedSegment Nat) :
    deltaText (k.idOf uuid s.tag) (closedMarks uuid k s ++ [entryMark uuid k s]) =
      s.toSegment.text := by
  simp [deltaText, closedMarks, openMarks, entryMark, List.filterMap_cons, List.filterMap_map,
    Function.comp_def, Segment.text]

theorem closingEvents_map_inj {a b : String} :
    (k.closingEvents.map fun ev => (ev, a)) = (k.closingEvents.map fun ev => (ev, b)) ↔ a = b := by
  cases k <;> simp [TextKind.closingEvents, TextKind.doneEvents]

/-- **The texts of a stream of events.** They agree exactly when no kind of text
is resumed after a break. -/
theorem itemTextsAgree_completedFrames_iff (hu : Function.Injective uuid)
    (evs : List CanonicalEvent) (h : ∀ ev ∈ evs, Delivers ev) :
    ItemTextsAgree (completedFrames uuid evs) ↔
      ∀ k, ¬ SegmentCount.Interrupted (eventRole k) evs := by
  have hkinds : ∀ k, _ := fun k => @marks_completedFrames uuid k evs h
  choose c hfilter hnd hagree using hkinds
  -- the kind of a mark can be told from its id
  have hkind : ∀ k n, ∀ m ∈ marks (completedFrames uuid evs), m.id = k.idOf uuid n →
      m.kind = k := by
    intro k n m hm hid
    by_contra hne
    have hmem : m ∈ streamMarks uuid m.kind (c m.kind) := by
      rw [← hfilter]
      exact List.mem_filter.2 ⟨hm, by simp⟩
    obtain ⟨n', hn'⟩ := kind_of_mem_streamMarks hmem
    exact idOf_ne hne n' n (hn'.symm.trans hid)
  have hitem : ∀ k, ∀ s ∈ (c k).closed,
      (marks (completedFrames uuid evs)).filter (fun m => m.id = k.idOf uuid s.tag) =
        closedMarks uuid k s ++ [entryMark uuid k s] := by
    intro k s hs
    rw [← filter_id_streamMarks hu (hnd k) hs, ← hfilter k, List.filter_filter]
    apply List.filter_congr
    intro m hm
    by_cases hid : m.id = k.idOf uuid s.tag
    · simp [hid, hkind k s.tag m hm hid]
    · simp [hid]
  have hopened : ∀ k i, .opened k i ∈ marks (completedFrames uuid evs) ↔
      ∃ s ∈ (c k).closed, i = k.idOf uuid s.tag := by
    intro k i
    have hfil : .opened k i ∈ marks (completedFrames uuid evs) ↔
        ItemMark.opened k i ∈ streamMarks uuid k (c k) := by
      rw [← hfilter k, List.mem_filter]
      simp
    rw [hfil]
    simp [streamMarks, closedMarks, openMarks, entryMark]
  have hcond : ItemTextsAgree (completedFrames uuid evs) ↔
      ∀ k, ∀ s ∈ (c k).closed, s.closing = s.toSegment.text := by
    rw [ItemTextsAgree]
    apply forall_congr'
    intro k
    constructor
    · intro hall s hs
      have := hall _ ((hopened k _).2 ⟨s, hs, rfl⟩)
      rw [← filterMap_closingOf_filter, ← deltaText_filter, hitem k s hs,
        filterMap_closingOf_segment, deltaText_segment, closingEvents_map_inj] at this
      exact this
    · intro hall i hi
      obtain ⟨s, hs, rfl⟩ := (hopened k i).1 hi
      rw [← filterMap_closingOf_filter, ← deltaText_filter, hitem k s hs,
        filterMap_closingOf_segment, deltaText_segment, closingEvents_map_inj]
      exact hall s hs
  rw [hcond]
  exact forall_congr' fun k => (hagree k).trans (SegmentCount.segments_le_one_iff evs)

end Channels

/-! ## A stream of chunks -/

section Stream

open ChatStreamParser Chat

/-- Text of one kind is resumed after something that closed its item: reasoning
after content or a new tool call, or content after a new tool call. -/
def TextResumed (chunks : List Value) : Prop :=
  [.reasoning, .content, .reasoning].Sublist (streamParts [] chunks) ∨
    [.reasoning, .call, .reasoning].Sublist (streamParts [] chunks) ∨
    [.content, .call, .content].Sublist (streamParts [] chunks)

instance (chunks : List Value) : Decidable (TextResumed chunks) :=
  inferInstanceAs (Decidable (_ ∨ _ ∨ _))

/-- What a part of the stream is to the channel of a kind. -/
def partRole : TextKind → StreamPart → Role
  | .reasoning, .reasoning => .text
  | .reasoning, .content => .brk
  | .message, .reasoning => .idle
  | .message, .content => .text
  | _, .call => .brk

theorem interrupted_partRole (parts : List StreamPart) :
    (∃ k, SegmentCount.Interrupted (partRole k) parts) ↔
      [.reasoning, .content, .reasoning].Sublist parts ∨
        [.reasoning, .call, .reasoning].Sublist parts ∨
        [.content, .call, .content].Sublist parts := by
  constructor
  · rintro ⟨k, a, b, c, ha, hb, hc, h⟩
    cases k <;> cases a <;> cases b <;> cases c <;>
      simp only [partRole, reduceCtorEq] at ha hb hc <;> tauto
  · rintro (h | h | h)
    · exact ⟨.reasoning, _, _, _, rfl, rfl, rfl, h⟩
    · exact ⟨.reasoning, _, _, _, rfl, rfl, rfl, h⟩
    · exact ⟨.message, _, _, _, rfl, rfl, rfl, h⟩

/-- The parser's events deliver no empty text and do not end the stream. -/
theorem delivers_onChunk {p : ChatStreamParser} {c : Value} (h : NoError c) {ev : CanonicalEvent}
    (hev : ev ∈ (p.onChunk c).2) : Delivers ev := by
  rcases mem_onChunk h hev with ⟨m, rfl⟩ | ⟨t, ht, rfl⟩ | ⟨t, ht, rfl⟩ | htool | ⟨i, rfl⟩ | ⟨u, rfl⟩
  · exact ⟨by simp, by simp [eventRole]⟩
  · exact ⟨by simp, fun k _ => ht⟩
  · exact ⟨by simp, fun k _ => ht⟩
  · cases ev <;> simp_all [IsToolEvent, Delivers, eventRole]
  · exact ⟨by simp, by simp [eventRole]⟩
  · exact ⟨by simp, by simp [eventRole]⟩

/-- **When streamed texts agree.** In a stream without an in-band error every
text item is closed under the text delivered under its id exactly when no text
is resumed. -/
theorem itemTextsAgree_streamFrames_iff (uuid : Nat → String) (hu : Function.Injective uuid)
    (responseId : String) (chunks : List Value) (h : ∀ c ∈ chunks, NoError c) :
    ItemTextsAgree (streamFrames uuid responseId chunks) ↔ ¬ TextResumed chunks := by
  have hdel : ∀ ev ∈ (Transducer.run onChunk (new responseId) chunks).2, Delivers ev :=
    mem_run_onChunk (fun p c hc ev hev => delivers_onChunk (h c hc) hev) _
  have hrole : ∀ k, SegmentCount.Interrupted (eventRole k)
      (Transducer.run onChunk (new responseId) chunks).2 ↔
        SegmentCount.Interrupted (partRole k) (streamParts [] chunks) := by
    intro k
    rw [← not_iff_not, ← SegmentCount.segments_le_one_iff, ← SegmentCount.segments_le_one_iff,
      show streamParts [] chunks = _ from (filterMap_partOf_run (new responseId) chunks h).symm,
      SegmentCount.after_filterMap partOf]
    intro ev hev
    cases ev with
    | completed => exact absurd rfl (hdel _ hev).1
    | _ => cases k <;> rfl
  change ItemTextsAgree (completedFrames uuid _) ↔ _
  rw [itemTextsAgree_completedFrames_iff hu _ hdel, TextResumed, ← interrupted_partRole, not_exists]
  exact forall_congr' fun k => not_congr (hrole k)

/-- Reasoning, then content, each in two pieces. -/
theorem itemTextsAgree_streamFrames_iff_thenContent :
    ItemTextsAgree (streamFrames unaryId "r"
        [deltaChunk [("reasoning", .string "a")], deltaChunk [("reasoning", .string "b")],
          deltaChunk [("content", .string "c")], deltaChunk [("content", .string "d")]]) ↔
      ¬ TextResumed [deltaChunk [("reasoning", .string "a")], deltaChunk [("reasoning", .string "b")],
          deltaChunk [("content", .string "c")], deltaChunk [("content", .string "d")]] :=
  itemTextsAgree_streamFrames_iff unaryId unaryId_injective "r"
    [deltaChunk [("reasoning", .string "a")], deltaChunk [("reasoning", .string "b")],
      deltaChunk [("content", .string "c")], deltaChunk [("content", .string "d")]]
    (by decide)

/-- Reasoning resumed after content: the second reasoning item closes under the
text of the first as well. -/
theorem not_itemTextsAgree_resumedReasoning :
    let chunks := [deltaChunk [("reasoning", .string "a")], deltaChunk [("content", .string "b")],
      deltaChunk [("reasoning", .string "c")]]
    (∀ c ∈ chunks, NoError c) ∧ ¬ ItemTextsAgree (streamFrames unaryId "r" chunks) := by
  refine ⟨by decide, fun h => ?_⟩
  have hsecond := h .reasoning (newId unaryId "rs" 2) (by decide)
  exact absurd hsecond (by decide)

end Stream

end AiApiBridge
