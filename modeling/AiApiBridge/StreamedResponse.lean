import AiApiBridge.Fragmentation
import AiApiBridge.ItemTexts

/-!
# The streamed response object

The response object of `response.completed` against the one the non-streaming
path answers with. The Responses emitter shows the draft of the events it has
seen (`ShowsDraft`), and both paths draft the same message, so the two objects
are the same up to the generated item ids
(`streamedResponse_eq_finalResponse`).
-/

set_option autoImplicit false

namespace AiApiBridge

open Chat ChatStreamParser ResponsesEmitter
open Transducer (andThen)

/-! ## Responses up to item ids -/

/-- An item without its id. -/
def withoutId : Value → Value
  | .object m => .object (Map.remove m "id")
  | v => v

/-- A response object whose output items have lost their ids. -/
def withoutItemIds : Value → Value
  | .object m => .object (m.map fun kv => match kv with
      | ("output", .array items) => ("output", .array (items.map withoutId))
      | kv => kv)
  | v => v

/-- The response objects that `response.completed` frames carry. -/
def completedResponses (frames : List SseFrame) : List Value :=
  frames.filterMap fun fr => if fr.event = "response.completed" then fr.get "response" else none

/-- The reasoning item of a message, if it has one. -/
def reasoningItems (text : String) : List Value :=
  if text = "" then [] else [withoutId (reasoningItemJson "" text)]

/-- The message item of a message, if it has one. -/
def messageItems (text : String) : List Value :=
  if text = "" then [] else [withoutId (messageItemJson "" text)]

/-- The item of a call. -/
def callItem (c : ToolCall) : Value := withoutId (functionCallJson "" c.callId c.name c.arguments)

@[simp] theorem withoutId_reasoningItemJson (i text : String) :
    withoutId (reasoningItemJson i text) = withoutId (reasoningItemJson "" text) := by
  simp [withoutId, reasoningItemJson, Map.remove]

@[simp] theorem withoutId_messageItemJson (i text : String) :
    withoutId (messageItemJson i text) = withoutId (messageItemJson "" text) := by
  simp [withoutId, messageItemJson, Map.remove]

theorem withoutId_toolJson (t : ToolItem) :
    withoutId (ResponsesEmitter.toolJson t) = callItem ⟨t.callId, t.name, t.args⟩ := by
  simp [withoutId, ResponsesEmitter.toolJson, callItem, functionCallJson, Map.remove]

theorem completedResponses_append (a b : List SseFrame) :
    completedResponses (a ++ b) = completedResponses a ++ completedResponses b := by
  simp [completedResponses]

theorem completedResponses_number (seq : Nat) (frames : List SseFrame) :
    completedResponses (number seq frames) = completedResponses frames := by
  simp only [completedResponses]
  rw [List.filterMap_eq_flatMap_toList, List.filterMap_eq_flatMap_toList]
  refine flatMap_number _ (fun ev m n => ?_) seq frames
  simp [SseFrame.get]

/-- Response objects are equal up to item ids when they show the same. -/
theorem withoutItemIds_completedResponse {e e' : ResponsesEmitter}
    (hid : e.responseId = e'.responseId) (hmodel : e.model = e'.model) (husage : e.usage = e'.usage)
    (hitems : e.finalItems.map withoutId = e'.finalItems.map withoutId) :
    withoutItemIds e.completedResponse = withoutItemIds e'.completedResponse := by
  simp [withoutItemIds, completedResponse, hid, hmodel, husage, hitems]

/-! ## The emitter shows the draft -/

/-- A tool item as a call. -/
def shownCall (t : ToolItem) : ToolCall := ⟨t.callId, t.name, t.args⟩

/-- What the emitter has to show for a draft. Reasoning is open until content or
a call comes, content until a call comes. -/
structure ShowsDraft (e : ResponsesEmitter) (frames : List SseFrame) (d : Draft) : Prop where
  ids : d.opened = true → e.responseId = d.responseId ∧ e.model = d.model
  reasoningText : e.reasoningText = d.reasoning
  messageText : e.messageText = d.content
  onReasoning : d.calls = [] → d.content = "" →
    e.finalItems = [] ∧ e.messageItem = none ∧ (e.reasoningItem.isSome ↔ d.reasoning ≠ "")
  onContent : d.calls = [] → d.content ≠ "" →
    e.finalItems.map withoutId = reasoningItems d.reasoning ∧ e.messageItem.isSome ∧
      e.reasoningItem = none
  onCalls : d.calls ≠ [] →
    e.finalItems.map withoutId =
        reasoningItems d.reasoning ++ messageItems d.content ++ d.closed.map callItem ∧
      e.messageItem = none ∧ e.reasoningItem = none
  closed : d.calls = [] → d.closed = []
  tools : ∀ i, e.tools[i]?.map shownCall = d.openCall i
  usage : e.usage = d.usage
  noResponse : completedResponses frames = []

theorem showsDraft_new : ShowsDraft .new [] .new := by
  constructor <;> simp [ResponsesEmitter.new, Draft.new, Draft.openCall, completedResponses]

theorem completedResponses_closeItem (k : TextKind) (e : ResponsesEmitter) :
    completedResponses (closeItem k e).2 = [] := by
  cases k with
  | reasoning =>
      cases hi : e.reasoningItem <;>
        simp [closeItem, closeReasoning, hi, completedResponses, itemDone]
  | message =>
      cases hi : e.messageItem <;>
        simp [closeItem, closeMessage, hi, completedResponses, itemDone, outputTextDone,
          contentPartDone]

theorem completedResponses_deliverText (uuid : Nat → String) (k : TextKind) (t : String)
    (e : ResponsesEmitter) : completedResponses (deliverText uuid k t e).2 = [] := by
  cases k with
  | reasoning =>
      cases hi : e.reasoningItem <;>
        simp [deliverText, ensureReasoningOpen, hi, completedResponses, itemAdded,
          reasoningDeltaFrame]
  | message =>
      cases hi : e.messageItem <;>
        simp [deliverText, ensureMessageOpen, hi, completedResponses, itemAdded, textDeltaFrame,
          contentPartAdded]

theorem completedResponses_closeTexts (e : ResponsesEmitter) :
    completedResponses (andThen (closeReasoning e) closeMessage).2 = [] := by
  rw [Transducer.andThen_snd, completedResponses_append]
  exact List.append_eq_nil_iff.2
    ⟨completedResponses_closeItem .reasoning e, completedResponses_closeItem .message _⟩

/-- The frames of every event but the last carry no response object of a
completed response. -/
theorem completedResponses_onEventCore (uuid : Nat → String) (e : ResponsesEmitter)
    {ev : CanonicalEvent} (h : ev ≠ .completed) :
    completedResponses (e.onEventCore uuid ev).2 = [] := by
  cases ev with
  | created responseId model => simp [onEventCore, completedResponses, createdFrame]
  | reasoningDelta t => exact completedResponses_deliverText uuid .reasoning t e
  | textDelta t =>
      -- items may be closed and opened, and none of their frames is a response
      have hclose := completedResponses_closeItem .reasoning e
      have hdeliver := completedResponses_deliverText uuid .message t (closeReasoning e).1
      simp_all [onEventCore, closeItem, deliverText, completedResponses_append]
  | toolCallStart i callId name =>
      have hclose := completedResponses_closeTexts e
      simp_all [onEventCore, completedResponses, itemAdded]
  | toolCallArgsDelta i delta =>
      cases ht : e.tools[i]? <;>
        simp [onEventCore, ht, completedResponses, argumentsDelta]
  | toolCallDone i =>
      cases ht : e.tools[i]? <;>
        simp [onEventCore, ht, completedResponses, finishTool, argumentsDone, itemDone]
  | usage counts => rfl
  | completed => exact absurd rfl h
  | error message status => simp [onEventCore, completedResponses, failedFrame]

theorem closeTexts_of_none {e : ResponsesEmitter} (hr : e.reasoningItem = none)
    (hm : e.messageItem = none) :
    (andThen (closeReasoning e) closeMessage).1 =
      { e with reasoningItem := none, messageItem := none } := by
  cases e
  simp_all [closeReasoning, closeMessage]

/-- Closing the texts leaves both of their items. -/
theorem ShowsDraft.closeTexts {e : ResponsesEmitter} {frames : List SseFrame} {d : Draft}
    (h : ShowsDraft e frames d) :
    ∃ items, (andThen (closeReasoning e) closeMessage).1 =
        { e with reasoningItem := none, messageItem := none, finalItems := items } ∧
      items.map withoutId =
        reasoningItems d.reasoning ++ messageItems d.content ++ d.closed.map callItem := by
  by_cases hcalls : d.calls = []
  · have hclosed := h.closed hcalls
    by_cases hcontent : d.content = ""
    · obtain ⟨hitems, hmessage, hreasoning⟩ := h.onReasoning hcalls hcontent
      -- only reasoning so far, or nothing
      cases hr : e.reasoningItem with
      | none =>
          have hnone : d.reasoning = "" := by simpa [hr] using hreasoning
          refine ⟨e.finalItems, ?_, ?_⟩
          · exact closeTexts_of_none hr hmessage
          · simp [hitems, reasoningItems, messageItems, hnone, hcontent, hclosed]
      | some item =>
          have hsome : d.reasoning ≠ "" := by simpa [hr] using hreasoning
          refine ⟨e.finalItems ++ [reasoningItemJson item.id e.reasoningText], ?_, ?_⟩
          · simp [closeReasoning, closeMessage, hr, hmessage]
          · simp [hitems, reasoningItems, messageItems, hsome, hcontent, hclosed, h.reasoningText]
    · obtain ⟨hitems, hmessage, hreasoning⟩ := h.onContent hcalls hcontent
      -- the reasoning was closed when the content began
      obtain ⟨item, hm⟩ := Option.isSome_iff_exists.1 hmessage
      refine ⟨e.finalItems ++ [messageItemJson item.id e.messageText], ?_, ?_⟩
      · simp [closeReasoning, closeMessage, hreasoning, hm]
      · simp [hitems, messageItems, hcontent, hclosed, h.messageText]
  · obtain ⟨hitems, hmessage, hreasoning⟩ := h.onCalls hcalls
    -- both were closed when the first call began
    exact ⟨e.finalItems, closeTexts_of_none hreasoning hmessage, hitems⟩

/-- Closing reasoning before any call leaves its item. -/
theorem ShowsDraft.closeReasoning_eq {e : ResponsesEmitter} {frames : List SseFrame} {d : Draft}
    (h : ShowsDraft e frames d) (hcalls : d.calls = []) :
    ∃ items, (closeReasoning e).1 = { e with reasoningItem := none, finalItems := items } ∧
      items.map withoutId = reasoningItems d.reasoning ∧
      (e.messageItem.isSome ↔ d.content ≠ "") := by
  by_cases hcontent : d.content = ""
  · obtain ⟨hitems, hmessage, hreasoning⟩ := h.onReasoning hcalls hcontent
    cases hr : e.reasoningItem with
    | none =>
        have hnone : d.reasoning = "" := by simpa [hr] using hreasoning
        refine ⟨e.finalItems, ?_, by simp [hitems, reasoningItems, hnone],
          by simp [hmessage, hcontent]⟩
        cases e
        simp_all [closeReasoning]
    | some item =>
        -- an open item is the one of the reasoning so far
        have hsome : d.reasoning ≠ "" := by simpa [hr] using hreasoning
        refine ⟨e.finalItems ++ [reasoningItemJson item.id e.reasoningText], ?_, ?_,
          by simp [hmessage, hcontent]⟩
        · simp [closeReasoning, hr]
        · simp [hitems, reasoningItems, hsome, h.reasoningText]
  · obtain ⟨hitems, hmessage, hreasoning⟩ := h.onContent hcalls hcontent
    refine ⟨e.finalItems, ?_, hitems, by simp [hmessage, hcontent]⟩
    cases e
    simp_all [closeReasoning]

theorem ensureReasoningOpen_fst (uuid : Nat → String) (e : ResponsesEmitter) :
    ∃ item n k, (ensureReasoningOpen uuid e).1 =
      { e with reasoningItem := some item, nextOutputIndex := n, drawn := k } := by
  cases hr : e.reasoningItem with
  | none => exact ⟨_, _, _, by simp [ensureReasoningOpen, hr]; exact ⟨rfl, rfl, rfl⟩⟩
  | some item =>
      refine ⟨item, e.nextOutputIndex, e.drawn, ?_⟩
      cases e
      simp_all [ensureReasoningOpen]

theorem ensureMessageOpen_fst (uuid : Nat → String) (e : ResponsesEmitter) :
    ∃ item n k, (ensureMessageOpen uuid e).1 =
      { e with messageItem := some item, nextOutputIndex := n, drawn := k } := by
  cases hm : e.messageItem with
  | none => exact ⟨_, _, _, by simp [ensureMessageOpen, hm]; exact ⟨rfl, rfl, rfl⟩⟩
  | some item =>
      refine ⟨item, e.nextOutputIndex, e.drawn, ?_⟩
      cases e
      simp_all [ensureMessageOpen]

theorem append_ne_empty {s t : String} (ht : t ≠ "") : s ++ t ≠ "" := by
  simp [ht]

/-- Calls that change without being closed. -/
theorem ShowsDraft.withTools {e : ResponsesEmitter} {frames : List SseFrame} {d : Draft}
    (h : ShowsDraft e frames d) {tools : Std.ExtTreeMap Nat ToolItem} {calls : List DraftCall}
    (hcalls : calls = [] ↔ d.calls = [])
    (htools : ∀ i, tools[i]?.map shownCall = ({ d with calls } : Draft).openCall i)
    {frames' : List SseFrame} (hframes : completedResponses frames' = []) :
    ShowsDraft { e with tools } frames' { d with calls } :=
  ⟨h.ids, h.reasoningText, h.messageText, fun hnil => h.onReasoning (hcalls.1 hnil),
    fun hnil => h.onContent (hcalls.1 hnil), fun hne => h.onCalls (mt hcalls.2 hne),
    fun hnil => h.closed (hcalls.1 hnil), htools, h.usage, hframes⟩

/-! ### One event

Each event is followed by frames that carry no completed response. -/

section Events

variable (uuid : Nat → String) {e : ResponsesEmitter} {frames frames' : List SseFrame} {d : Draft}

theorem ShowsDraft.reasoningDelta (h : ShowsDraft e frames d) {t : String} (ht : t ≠ "")
    (hcontent : d.content = "") (hcalls : d.calls = [])
    (hframes : completedResponses frames' = []) :
    ShowsDraft (onEventCore uuid e (.reasoningDelta t)).1 frames' (d.step (.reasoningDelta t)) := by
  obtain ⟨hitems, hmessage, -⟩ := h.onReasoning hcalls hcontent
  obtain ⟨item, n, k, hopen⟩ := ensureReasoningOpen_fst uuid e
  simp only [onEventCore, Transducer.andThen_fst, hopen]
  refine ⟨h.ids, ?_, h.messageText, fun _ _ => ⟨hitems, hmessage, ?_⟩,
    fun _ hne => absurd hcontent hne, fun hne => absurd hcalls hne, h.closed, h.tools, h.usage,
    hframes⟩
  · simp [Draft.step, h.reasoningText]
  · simp [Draft.step, ht]

theorem ShowsDraft.textDelta (h : ShowsDraft e frames d) {t : String} (ht : t ≠ "")
    (hcalls : d.calls = []) (hframes : completedResponses frames' = []) :
    ShowsDraft (onEventCore uuid e (.textDelta t)).1 frames' (d.step (.textDelta t)) := by
  -- content ends the reasoning item, if there is one
  obtain ⟨items, hclose, hitems, -⟩ := h.closeReasoning_eq hcalls
  obtain ⟨item, n, k, hopen⟩ := ensureMessageOpen_fst uuid (closeReasoning e).1
  rw [hclose] at hopen
  simp only [onEventCore, Transducer.andThen_fst, hclose, hopen]
  refine ⟨h.ids, h.reasoningText, ?_, fun _ hempty => ?_, fun _ _ => ⟨hitems, rfl, rfl⟩,
    fun hne => absurd hcalls hne, h.closed, h.tools, h.usage, hframes⟩
  · simp [Draft.step, h.messageText]
  · exact absurd hempty (append_ne_empty ht)

theorem ShowsDraft.toolCallStart (h : ShowsDraft e frames d) {i : Nat}
    (hnone : d.openCall i = none) (callId name : String)
    (hframes : completedResponses frames' = []) :
    ShowsDraft (onEventCore uuid e (.toolCallStart i callId name)).1 frames'
      (d.step (.toolCallStart i callId name)) := by
  -- a call ends both text items
  obtain ⟨items, hclose, hitems⟩ := h.closeTexts
  have hne : (d.step (.toolCallStart i callId name)).calls ≠ [] := by simp [Draft.step]
  rw [Transducer.andThen_fst] at hclose
  simp only [onEventCore, Transducer.andThen_fst, hclose]
  refine ⟨h.ids, h.reasoningText, h.messageText, fun hnil => absurd hnil hne,
    fun hnil => absurd hnil hne, fun _ => ⟨hitems, rfl, rfl⟩, fun hnil => absurd hnil hne,
    fun j => ?_, h.usage, hframes⟩
  rw [Draft.openCall_start, Std.ExtTreeMap.getElem?_insert]
  by_cases hij : i = j
  · subst hij
    simp [hnone, shownCall]
  · simp [hij, h.tools j]

theorem ShowsDraft.toolCallArgsDelta (h : ShowsDraft e frames d) (i : Nat) (args : String)
    (hframes : completedResponses frames' = []) :
    ShowsDraft (onEventCore uuid e (.toolCallArgsDelta i args)).1 frames'
      (d.step (.toolCallArgsDelta i args)) := by
  have hopen := h.tools i
  cases ht : e.tools[i]? with
  | none =>
      -- no call of this index is open, neither in the emitter nor in the draft
      rw [ht] at hopen
      simp only [onEventCore, ht]
      refine h.withTools (by simp) (fun j => ?_) hframes
      rw [h.tools j]
      refine Eq.trans ?_ (d.openCall_args i j args).symm
      by_cases hij : i = j
      · subst hij
        simp [← hopen]
      · simp [hij]
  | some tool =>
      rw [ht] at hopen
      simp only [onEventCore, ht]
      refine h.withTools (by simp) (fun j => ?_) hframes
      refine Eq.trans ?_ (d.openCall_args i j args).symm
      rw [Std.ExtTreeMap.getElem?_insert]
      by_cases hij : i = j
      · subst hij
        simp [← hopen, shownCall]
      · simp [hij, h.tools j]

theorem ShowsDraft.toolCallDone (h : ShowsDraft e frames d) (i : Nat)
    (hframes : completedResponses frames' = []) :
    ShowsDraft (onEventCore uuid e (.toolCallDone i)).1 frames' (d.step (.toolCallDone i)) := by
  have hopen := h.tools i
  cases ht : e.tools[i]? with
  | none =>
      -- a second end of the same call changes nothing
      rw [ht] at hopen
      simp only [onEventCore, ht, Draft.step, ← hopen]
      simp only [Option.map_none, Option.toList_none, List.append_nil]
      refine h.withTools (by simp) (fun j => ?_) hframes
      rw [h.tools j]
      refine Eq.trans ?_ (d.openCall_done i j).symm
      by_cases hij : i = j
      · subst hij
        simp [← hopen]
      · simp [hij]
  | some tool =>
      rw [ht] at hopen
      have hcalls : d.calls ≠ [] := by
        intro hnil
        simp [Draft.openCall, hnil] at hopen
      have hne : (d.step (.toolCallDone i)).calls ≠ [] := by simp [Draft.step, hcalls]
      obtain ⟨hitems, hmessage, hreasoning⟩ := h.onCalls hcalls
      simp only [onEventCore, ht, finishTool]
      refine ⟨h.ids, h.reasoningText, h.messageText, fun hnil => absurd hnil hne,
        fun hnil => absurd hnil hne, fun _ => ⟨?_, hmessage, hreasoning⟩,
        fun hnil => absurd hnil hne, fun j => ?_, h.usage, hframes⟩
      · simp [Draft.step, hitems, ← hopen, withoutId_toolJson, shownCall]
      · rw [Draft.openCall_done, Std.ExtTreeMap.getElem?_erase]
        by_cases hij : i = j
        · simp [hij]
        · simp [hij, h.tools j]

end Events

/-- **The emitter shows the draft of the events it has seen.** -/
theorem followsDraft_onEventCore (uuid : Nat → String) :
    FollowsDraft (onEventCore uuid) ShowsDraft := by
  intro e frames d ev h hallows
  have hframes : completedResponses (frames ++ (onEventCore uuid e ev).2) = [] := by
    have hev : ev ≠ .completed := by
      rintro rfl
      exact hallows
    rw [completedResponses_append, h.noResponse, completedResponses_onEventCore uuid e hev]
    rfl
  cases ev with
  | created responseId model =>
      exact ⟨fun _ => ⟨rfl, rfl⟩, h.reasoningText, h.messageText, h.onReasoning, h.onContent,
        h.onCalls, h.closed, h.tools, h.usage, hframes⟩
  | reasoningDelta t =>
      rcases hallows with ⟨-, ht, hcontent, hcalls⟩
      exact h.reasoningDelta uuid ht hcontent hcalls hframes
  | textDelta t =>
      rcases hallows with ⟨-, ht, hcalls⟩
      exact h.textDelta uuid ht hcalls hframes
  | toolCallStart i callId name => exact h.toolCallStart uuid hallows.2 callId name hframes
  | toolCallArgsDelta i args => exact h.toolCallArgsDelta uuid i args hframes
  | toolCallDone i => exact h.toolCallDone uuid i hframes
  | usage counts =>
      exact ⟨h.ids, h.reasoningText, h.messageText, h.onReasoning, h.onContent, h.onCalls,
        h.closed, h.tools, rfl, hframes⟩
  -- the draft allows neither
  | completed => exact absurd hallows id
  | error message status => exact absurd hallows id

/-- The sequence number plays no part. -/
theorem ShowsDraft.withSeq {e : ResponsesEmitter} {frames : List SseFrame} {d : Draft}
    (h : ShowsDraft e frames d) (seq : Nat) : ShowsDraft { e with seq } frames d :=
  ⟨h.ids, h.reasoningText, h.messageText, h.onReasoning, h.onContent, h.onCalls, h.closed, h.tools,
    h.usage, h.noResponse⟩

/-- Frames that carry no completed response play no part either. -/
theorem ShowsDraft.withFrames {e : ResponsesEmitter} {frames frames' : List SseFrame} {d : Draft}
    (h : ShowsDraft e frames d) (hframes : completedResponses frames' = []) :
    ShowsDraft e frames' d :=
  ⟨h.ids, h.reasoningText, h.messageText, h.onReasoning, h.onContent, h.onCalls, h.closed, h.tools,
    h.usage, hframes⟩

/-- The same with numbered frames. -/
theorem followsDraft_onEvent (uuid : Nat → String) :
    FollowsDraft (ResponsesEmitter.onEvent uuid) ShowsDraft := by
  intro e frames d ev h hallows
  have hstep := followsDraft_onEventCore uuid e frames d ev h hallows
  apply (hstep.withSeq _).withFrames
  have hnumber : completedResponses (ResponsesEmitter.onEvent uuid e ev).2 =
      completedResponses (onEventCore uuid e ev).2 := completedResponses_number _ _
  rw [completedResponses_append, hnumber, ← completedResponses_append]
  exact hstep.noResponse

/-! ## The end of the response -/

/-- The emitter has finished a completion. -/
structure ShowsCompletion (responseId : String) (m : Completion) (e : ResponsesEmitter) : Prop where
  responseId_eq : e.responseId = responseId
  model_eq : e.model = m.model
  usage_eq : e.usage = m.usage.map usageCounts
  items_eq : e.finalItems.map withoutId =
    reasoningItems m.reasoning ++ messageItems m.content ++ m.calls.map callItem

/-- **The last event.** What was drafted is shown, and one frame carries it. -/
theorem ShowsDraft.complete {e : ResponsesEmitter} {frames : List SseFrame} {d : Draft}
    {responseId : String} {m : Completion} (uuid : Nat → String) (h : ShowsDraft e frames d)
    (hd : Drafted responseId m d) :
    ShowsCompletion responseId m (ResponsesEmitter.onEvent uuid e .completed).1 ∧
      completedResponses (frames ++ (ResponsesEmitter.onEvent uuid e .completed).2) =
        [(ResponsesEmitter.onEvent uuid e .completed).1.finalResponse] := by
  obtain ⟨items, hclose, hitems⟩ := h.closeTexts
  have htools : e.tools = ∅ := by
    refine Std.ExtTreeMap.ext_getElem? fun {i} => ?_
    have := h.tools i
    rw [Draft.openCall_eq_none_of_dead hd.dead, Option.map_eq_none_iff] at this
    rw [this, Std.ExtTreeMap.getElem?_empty]
  -- no tool is open, so the texts are all there is to close
  obtain ⟨closed, hclosed⟩ : ∃ closed, closed =
      { e with reasoningItem := none, messageItem := none, finalItems := items } := ⟨_, rfl⟩
  have hcore : onEventCore uuid e .completed =
      (closed, (andThen (closeReasoning e) closeMessage).2 ++ [closed.completedFrame]) := by
    have htools' : closeOpenTools closed = (closed, []) :=
      closeOpenTools_of_empty (by rw [hclosed, htools])
    rw [onEventCore, andThen, andThen, hclose, ← hclosed, htools', List.append_nil]
  have hevent : (ResponsesEmitter.onEvent uuid e .completed).1 = { closed with
      seq := e.seq + (onEventCore uuid e .completed).2.length } := by
    rw [ResponsesEmitter.onEvent, hcore]
  obtain ⟨hid, hmodel⟩ := h.ids hd.opened
  rw [hevent]
  refine ⟨⟨?_, ?_, ?_, ?_⟩, ?_⟩
  · rw [hclosed, ← hd.responseId_eq]
    exact hid
  · rw [hclosed, ← hd.model_eq]
    exact hmodel
  · rw [hclosed, ← hd.usage_eq]
    exact h.usage
  · rw [hclosed, ← hd.reasoning_eq, ← hd.content_eq, ← hd.closed_eq]
    exact hitems
  · rw [ResponsesEmitter.onEvent, completedResponses_append, completedResponses_number, hcore,
      completedResponses_append, h.noResponse, completedResponses_closeTexts]
    simp [completedResponses, completedFrame, finalResponse, completedResponse]

/-- Two emitters that have finished the same completion show the same response. -/
theorem ShowsCompletion.finalResponse_eq {e e' : ResponsesEmitter} {responseId : String}
    {m : Completion} (h : ShowsCompletion responseId m e) (h' : ShowsCompletion responseId m e') :
    withoutItemIds e.finalResponse = withoutItemIds e'.finalResponse :=
  withoutItemIds_completedResponse (h.responseId_eq.trans h'.responseId_eq.symm)
    (h.model_eq.trans h'.model_eq.symm) (h.usage_eq.trans h'.usage_eq.symm)
    (h.items_eq.trans h'.items_eq.symm)

/-! ## Both paths -/

/-- The emitter behind the non-streaming path. -/
def answered (uuid : Nat → String) (responseId : String) (resp : Value) : ResponsesEmitter :=
  (Transducer.run (ResponsesEmitter.onEvent uuid) .new (completionToEvents resp responseId)).1

/-- Orderly events that add up to a completion, and the end. -/
theorem shows_run (uuid : Nat → String) {responseId : String} {m : Completion}
    {evs : List CanonicalEvent} (ho : Draft.new.Orderly evs)
    (hd : Drafted responseId m (Draft.new.after evs)) :
    ∃ e, ShowsCompletion responseId m e ∧
      (Transducer.run (ResponsesEmitter.onEvent uuid) .new (evs ++ [.completed])).1 = e ∧
      completedResponses
        (Transducer.run (ResponsesEmitter.onEvent uuid) .new (evs ++ [.completed])).2 =
          [e.finalResponse] := by
  have hrun := (followsDraft_onEvent uuid).run showsDraft_new ho
  obtain ⟨hshow, hframes⟩ := hrun.complete uuid hd
  rw [List.nil_append] at hframes
  rw [Transducer.run_append, Transducer.run_singleton]
  exact ⟨_, hshow, rfl, hframes⟩

/-- The non-streaming path answers with what the completion says. -/
theorem showsCompletion_answered (uuid : Nat → String) (responseId : String) (resp : Value) :
    ShowsCompletion responseId (completionOf resp) (answered uuid responseId resp) := by
  obtain ⟨ho, hd, -⟩ := orderly_completionEvents responseId (completionOf resp)
  obtain ⟨e, hshow, hrun, -⟩ := shows_run uuid ho hd
  rw [answered, completionToEvents_eq, hrun]
  exact hshow

/-- The streaming path sends one response object, with what the completion says. -/
theorem showsCompletion_streamFrames (uuid : Nat → String) (responseId : String)
    {chunks : List Value} {m : Completion} (h : Fragments chunks m)
    (hlen : m.calls.length ≤ 2 ^ 32) :
    ∃ e, ShowsCompletion responseId m e ∧
      completedResponses (streamFrames uuid responseId chunks) = [e.finalResponse] := by
  obtain ⟨ho, hd, -⟩ := orderly_streamEvents responseId h hlen
  obtain ⟨e, hshow, -, hframes⟩ := shows_run uuid ho hd
  exact ⟨e, hshow, hframes⟩

/-- **One response object, whole or streamed.** However a message of at most
`2 ^ 32` tool calls is fragmented, the response object of `response.completed` is
the one the non-streaming path answers with, up to item ids. -/
theorem streamedResponse_eq_finalResponse (uuid uuid' : Nat → String) (responseId : String)
    {resp : Value} {chunks : List Value} (h : Fragments chunks (completionOf resp))
    (hlen : (completionOf resp).calls.length ≤ 2 ^ 32) :
    (completedResponses (streamFrames uuid responseId chunks)).map withoutItemIds =
      [withoutItemIds (answered uuid' responseId resp).finalResponse] := by
  obtain ⟨e, hshow, hframes⟩ := showsCompletion_streamFrames uuid responseId h hlen
  rw [hframes, List.map_singleton,
    hshow.finalResponse_eq (showsCompletion_answered uuid' responseId resp)]

/-- A message with reasoning, content and two calls, whose fragments interleave. -/
theorem streamedResponse_eq_finalResponse_interleaved :
    let call := fun (i : Nat) (id name args : String) => Value.object [("index", .ofNat i),
      ("id", .string id), ("function", .object [("name", .string name), ("arguments", .string args)])]
    let resp := Value.object [("model", .string "m"), ("choices", .array [.object [("message",
      .object [("reasoning", .string "ab"), ("content", .string "c"), ("tool_calls",
        .array [call 0 "c0" "f" "{}", call 1 "c1" "g" "[]"])])]])]
    let chunks := [.object [("model", .string "m"), ("choices", .array [.object [("delta",
        .object [("reasoning", .string "a")])]])], deltaChunk [("reasoning", .string "b")],
      deltaChunk [("content", .string "c")],
      deltaChunk [("tool_calls", .array [call 1 "c1" "g" "[", call 0 "c0" "f" "\x7b"])],
      deltaChunk [("tool_calls", .array [call 0 "" "" "\x7d", call 1 "" "" "]"])],
      .object [("choices", .array [.object [("finish_reason", .string "stop")]])]]
    (completedResponses (streamFrames unaryId "r" chunks)).map withoutItemIds =
      [withoutItemIds (answered (fun n => unaryId (n + 1)) "r" resp).finalResponse] :=
  streamedResponse_eq_finalResponse unaryId (fun n => unaryId (n + 1)) "r"
    { noError := by decide
      first := by decide
      ordered := by decide
      single := by decide
      reasoning := by decide
      content := by decide
      indexed := by decide
      calls := callAt_eq_getElem? (by decide) (by decide)
      usage := by decide }
    (by decide)

theorem length_outputItems_withoutItemIds (e : ResponsesEmitter) :
    (outputItems (withoutItemIds e.finalResponse)).length = e.finalItems.length := by
  simp [withoutItemIds, outputItems, finalResponse, completedResponse]

/-- One call more than there are 32-bit indices: the streamed response lacks it. -/
theorem not_streamedResponse_eq_manyCalls :
    Fragments (manyChunks (2 ^ 32 + 1)) (completionOf (manyCalls (2 ^ 32 + 1))) ∧
      (completedResponses (streamFrames unaryId "r" (manyChunks (2 ^ 32 + 1)))).map withoutItemIds ≠
        [withoutItemIds (answered unaryId "r" (manyCalls (2 ^ 32 + 1))).finalResponse] := by
  refine ⟨fragments_manyChunks _, fun heq => ?_⟩
  have hcalls : ∀ n, (completionOf (manyCalls n)).calls.length = n := fun n => by
    rw [completionOf_manyCalls, List.length_replicate]
  have hitems : ∀ {n e}, ShowsCompletion "r" (completionOf (manyCalls n)) e →
      e.finalItems.length = n := by
    intro n e h
    have := congrArg List.length h.items_eq
    rwa [completionOf_manyCalls, List.length_map, List.length_append, List.length_map,
      List.length_replicate, reasoningItems, messageItems, if_pos rfl, if_pos rfl, List.nil_append,
      List.length_nil, Nat.zero_add] at this
  obtain ⟨e, hshow, hframes⟩ := showsCompletion_streamFrames unaryId "r"
    (fragments_manyChunks (2 ^ 32)) (Nat.le_of_eq (hcalls _))
  rw [streamFrames, streamEvents_manyChunks_succ "r" (by decide) (by decide)] at heq
  rw [streamFrames] at hframes
  rw [hframes, List.map_singleton, List.singleton_inj] at heq
  -- one of them lists a call less than the other
  have hlen := congrArg (fun v => (outputItems v).length) heq
  simp only [length_outputItems_withoutItemIds] at hlen
  rw [hitems hshow, hitems (showsCompletion_answered unaryId "r" _)] at hlen
  exact absurd hlen (by decide)

end AiApiBridge
