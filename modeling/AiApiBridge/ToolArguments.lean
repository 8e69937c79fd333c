import AiApiBridge.CallStream
import AiApiBridge.ItemNumbers
import AiApiBridge.ItemTexts
import AiApiBridge.Lib.HeldCalls

/-!
# The arguments of streamed tool calls

Whether every argument fragment reaches the client. Both emitters keep the open
calls in a map by tool index and drop a fragment whose call is not in it; the
parser starts an index once. So each emitter carries a call log
(`CallsInItems`, `CallsInBlocks`), and the client gets all the text exactly when
no fragment comes after a finish reason of its call (`argumentsDelivered_iff`). The
Anthropic client tells the calls apart by their block indices, which it can while no
more than `2 ^ 32` blocks are opened.
-/

set_option autoImplicit false

namespace AiApiBridge

open Transducer (andThen)

/-! ## What a client reads -/

/-- The id of the function call a Responses frame opens. -/
def openedCall (fr : SseFrame) : Option String :=
  if fr.event = "response.output_item.added" then
    (fr.get "item").bind fun item =>
      if (item.get "type").bind Value.asStr = some "function_call" then itemId item else none
  else none

/-- The arguments of the function calls with this id among the items. -/
def argumentsOf (id : String) (items : List Value) : List String :=
  items.filterMap fun item =>
    if (item.get "type").bind Value.asStr = some "function_call" ∧ itemId item = some id then
      (item.get "arguments").bind Value.asStr
    else none

/-- The index of the tool block an Anthropic frame opens. -/
def openedToolBlock (fr : SseFrame) : Option Nat :=
  if fr.event = "content_block_start" ∧
      (fr.get₂ "content_block" "type").bind Value.asStr = some "tool_use" then
    (fr.get "index").bind Value.asU64
  else none

/-- The JSON text a frame adds to the block with this index. -/
def jsonDelta (index : Nat) (fr : SseFrame) : Option String :=
  if fr.event = "content_block_delta" ∧ (fr.get "index").bind Value.asU64 = some index ∧
      (fr.get₂ "delta" "type").bind Value.asStr = some "input_json_delta" then
    (fr.get₂ "delta" "partial_json").bind Value.asStr
  else none

/-- The input JSON of a block, concatenated. -/
def partialJson (index : Nat) (frames : List SseFrame) : String :=
  String.join (frames.filterMap (jsonDelta index))

/-! ## The Responses emitter -/

section Responses

open ResponsesEmitter

variable (uuid : Nat → String)

/-- The id of a call of the log. -/
def callItemId (c : LoggedCall) : String := newId uuid "fc" c.tag

/-- The Responses emitter carries a call log: the live calls are in its map, the
closed ones among the final items. -/
structure CallsInItems (e : ResponsesEmitter) (frames : List SseFrame) (log : List LoggedCall) :
    Prop where
  opened : frames.filterMap openedCall = log.map (callItemId uuid)
  live : ∀ c ∈ log, c.live = true →
    ∃ t, e.tools[c.index]? = some t ∧ t.id = callItemId uuid c ∧ t.args = c.args
  only : ∀ i t, e.tools[i]? = some t → ∃ c ∈ log, c.index = i ∧ c.live = true
  output : ∀ c ∈ log, argumentsOf (callItemId uuid c) e.finalItems =
    if c.live then [] else [c.args]
  fresh : ∀ n, e.drawn ≤ n → argumentsOf (newId uuid "fc" n) e.finalItems = []
  drawn : ∀ c ∈ log, c.tag < e.drawn
  tags : (log.map LoggedCall.tag).Nodup
  indices : (log.map LoggedCall.index).Nodup

variable {uuid}

theorem callsInItems_new : CallsInItems uuid .new [] [] := by
  constructor <;> simp [ResponsesEmitter.new, argumentsOf]

theorem CallsInItems.held {e : ResponsesEmitter} {frames : List SseFrame} {log : List LoggedCall}
    (h : CallsInItems uuid e frames log) :
    HeldCalls (fun c t => t.id = callItemId uuid c ∧ t.args = c.args) e.tools e.drawn log :=
  ⟨h.live, h.only, h.drawn, h.tags, h.indices⟩

/-- What an action may do without touching the log. -/
theorem CallsInItems.frame {e : ResponsesEmitter} {frames : List SseFrame} {log : List LoggedCall}
    (h : CallsInItems uuid e frames log) (e' : ResponsesEmitter) (new : List SseFrame)
    (htools : e'.tools = e.tools)
    (hitems : ∀ id, argumentsOf id e'.finalItems = argumentsOf id e.finalItems)
    (hdrawn : e.drawn ≤ e'.drawn) (hnew : new.filterMap openedCall = []) :
    CallsInItems uuid e' (frames ++ new) log where
  opened := by rw [List.filterMap_append, h.opened, hnew, List.append_nil]
  live := by rw [htools]; exact h.live
  only := by rw [htools]; exact h.only
  output := fun c hc => by rw [hitems]; exact h.output c hc
  fresh := fun n hn => by rw [hitems]; exact h.fresh n (Nat.le_trans hdrawn hn)
  drawn := fun c hc => Nat.lt_of_lt_of_le (h.drawn c hc) hdrawn
  tags := h.tags
  indices := h.indices

theorem argumentsOf_append (id : String) (a b : List Value) :
    argumentsOf id (a ++ b) = argumentsOf id a ++ argumentsOf id b := by
  simp [argumentsOf]

theorem argumentsOf_reasoning (id i t : String) : argumentsOf id [reasoningItemJson i t] = [] := by
  simp [argumentsOf, reasoningItemJson]

theorem argumentsOf_message (id i t : String) : argumentsOf id [messageItemJson i t] = [] := by
  simp [argumentsOf, messageItemJson]

theorem argumentsOf_toolJson (id : String) (t : ToolItem) :
    argumentsOf id [ResponsesEmitter.toolJson t] = if t.id = id then [t.args] else [] := by
  by_cases h : t.id = id <;> simp [argumentsOf, ResponsesEmitter.toolJson, functionCallJson, itemId, h]

/-- Closing a text item leaves the log alone. -/
theorem CallsInItems.closeItem {e : ResponsesEmitter} {frames : List SseFrame}
    {log : List LoggedCall} (h : CallsInItems uuid e frames log) (k : TextKind) :
    CallsInItems uuid (closeItem k e).1 (frames ++ (closeItem k e).2) log := by
  cases k with
  | reasoning =>
      cases hi : e.reasoningItem <;>
        exact h.frame _ _ (by simp [AiApiBridge.closeItem, closeReasoning, hi])
          (by simp [AiApiBridge.closeItem, closeReasoning, hi, argumentsOf_append,
            argumentsOf_reasoning])
          (by simp [AiApiBridge.closeItem, closeReasoning, hi])
          (by simp [AiApiBridge.closeItem, closeReasoning, hi, openedCall, itemDone])
  | message =>
      cases hi : e.messageItem <;>
        exact h.frame _ _ (by simp [AiApiBridge.closeItem, closeMessage, hi])
          (by simp [AiApiBridge.closeItem, closeMessage, hi, argumentsOf_append,
            argumentsOf_message])
          (by simp [AiApiBridge.closeItem, closeMessage, hi])
          (by simp [AiApiBridge.closeItem, closeMessage, hi, openedCall, itemDone, outputTextDone,
            contentPartDone])

/-- Delivering text leaves the log alone. -/
theorem CallsInItems.deliverText {e : ResponsesEmitter} {frames : List SseFrame}
    {log : List LoggedCall} (h : CallsInItems uuid e frames log) (k : TextKind) (t : String) :
    CallsInItems uuid (deliverText uuid k t e).1 (frames ++ (deliverText uuid k t e).2) log := by
  cases k with
  | reasoning =>
      cases hi : e.reasoningItem <;>
        exact h.frame _ _ (by simp [AiApiBridge.deliverText, ensureReasoningOpen, hi])
          (by simp [AiApiBridge.deliverText, ensureReasoningOpen, hi])
          (by simp [AiApiBridge.deliverText, ensureReasoningOpen, hi])
          (by simp [AiApiBridge.deliverText, ensureReasoningOpen, hi, openedCall, itemAdded,
            reasoningDeltaFrame])
  | message =>
      cases hi : e.messageItem <;>
        exact h.frame _ _ (by simp [AiApiBridge.deliverText, ensureMessageOpen, hi])
          (by simp [AiApiBridge.deliverText, ensureMessageOpen, hi])
          (by simp [AiApiBridge.deliverText, ensureMessageOpen, hi])
          (by simp [AiApiBridge.deliverText, ensureMessageOpen, hi, openedCall, itemAdded,
            textDeltaFrame, contentPartAdded])

/-- Opening a call. -/
theorem CallsInItems.openCall {e : ResponsesEmitter} {frames : List SseFrame} {log : List LoggedCall}
    (h : CallsInItems uuid e frames log) {i : Nat} (callId name : String)
    (hi : i ∉ log.map LoggedCall.index) (item : Value)
    (hitem : openedCall (itemAdded e.nextOutputIndex item) = some (newId uuid "fc" e.drawn)) :
    CallsInItems uuid
      { e with
        nextOutputIndex := e.nextOutputIndex + 1
        drawn := e.drawn + 1
        tools := e.tools.insert i ⟨newId uuid "fc" e.drawn, e.nextOutputIndex, callId, name, ""⟩ }
      (frames ++ [itemAdded e.nextOutputIndex item]) (log ++ [.fresh i e.drawn]) := by
  have held := h.held.fresh hi
    (t := ⟨newId uuid "fc" e.drawn, e.nextOutputIndex, callId, name, ""⟩) ⟨rfl, rfl⟩
  refine ⟨?_, held.live, held.only, ?_, ?_, held.bound, held.tags, held.indices⟩
  · simp [h.opened, hitem, callItemId, LoggedCall.fresh]
  · intro c hc
    rcases List.mem_append.1 hc with hc | hc
    · exact h.output c hc
    · rw [List.mem_singleton.1 hc]
      exact h.fresh e.drawn (Nat.le_refl _)
  · intro n hn
    exact h.fresh n (Nat.le_trans (Nat.le_succ _) hn)

/-- Appending to a call. -/
theorem CallsInItems.append {e : ResponsesEmitter} {frames : List SseFrame}
    {log : List LoggedCall} (h : CallsInItems uuid e frames log) (i : Nat) (delta : String) :
    CallsInItems uuid (e.onEventCore uuid (.toolCallArgsDelta i delta)).1
      (frames ++ (e.onEventCore uuid (.toolCallArgsDelta i delta)).2)
      (log.map (LoggedCall.appendArgs i delta)) := by
  cases ht : e.tools[i]? with
  | none =>
      -- no call of this index is live, so the log does not change either
      have hid := h.held.appendArgs_eq_self ht delta
      simpa [onEventCore, ht, hid] using h
  | some t =>
      have hact : e.onEventCore uuid (.toolCallArgsDelta i delta) =
          ({ e with tools := e.tools.insert i { t with args := t.args ++ delta } },
            [argumentsDelta { t with args := t.args ++ delta } delta]) := by
        simp [onEventCore, ht]
      have held := h.held.append ht { t with args := t.args ++ delta } delta (by
        rintro c hi hl ⟨hid, hargs⟩
        refine ⟨by simpa [callItemId] using hid, ?_⟩
        simp [LoggedCall.appendArgs, hi, hl, hargs])
      rw [hact]
      refine ⟨?_, held.live, held.only, ?_, h.fresh, held.bound, held.tags, held.indices⟩
      · simp [h.opened, openedCall, argumentsDelta, callItemId]
      · -- the final items hold closed calls only, and those take no text
        intro _ hmem
        obtain ⟨c, hc, rfl⟩ := List.mem_map.1 hmem
        have hout := h.output c hc
        by_cases hl : c.live = true
        · simpa [callItemId, hl] using hout
        · simpa [callItemId, hl, LoggedCall.appendArgs] using hout

/-- Closing a call. -/
theorem CallsInItems.done (hu : Function.Injective uuid) {e : ResponsesEmitter}
    {frames : List SseFrame} {log : List LoggedCall} (h : CallsInItems uuid e frames log) (i : Nat) :
    CallsInItems uuid (e.onEventCore uuid (.toolCallDone i)).1
      (frames ++ (e.onEventCore uuid (.toolCallDone i)).2)
      (log.map (LoggedCall.finish i)) := by
  cases ht : e.tools[i]? with
  | none =>
      have hid := h.held.finish_eq_self ht
      simpa [onEventCore, ht, hid] using h
  | some t =>
      have hact : e.onEventCore uuid (.toolCallDone i) =
          ({ e with
              tools := e.tools.erase i
              finalItems := e.finalItems ++ [ResponsesEmitter.toolJson t] },
            [argumentsDone t, itemDone t.outputIndex (ResponsesEmitter.toolJson t)]) := by
        simp [onEventCore, ht, finishTool]
      -- the call that is closed, and why no other has its id
      obtain ⟨d, hd, hdi, hdl, hid, hargs⟩ := h.held.owner ht
      have huniq : ∀ c ∈ log, t.id = callItemId uuid c → c = d := fun c hc heq =>
        h.held.eq_of_tag hc hd (newId_injective hu "fc" (heq.symm.trans hid))
      have held := h.held.finish i
      rw [hact]
      refine ⟨?_, held.live, held.only, ?_, ?_, held.bound, held.tags, held.indices⟩
      · simp [h.opened, openedCall, argumentsDone, itemDone, callItemId]
      · intro _ hmem
        obtain ⟨c, hc, rfl⟩ := List.mem_map.1 hmem
        have hout := h.output c hc
        have hitem : callItemId uuid (c.finish i) = callItemId uuid c := by simp [callItemId]
        rw [hitem, argumentsOf_append, argumentsOf_toolJson, hout, LoggedCall.finish_args,
          LoggedCall.finish_live]
        by_cases hci : c.index = i
        · obtain rfl := h.held.eq_of_index hc hd (hci.trans hdi.symm)
          simp [hdl, hci, hid, hargs]
        · have hne : t.id ≠ callItemId uuid c := fun heq => hci ((huniq c hc heq).symm ▸ hdi)
          simp [hci, hne]
      · -- an id that is still to be drawn is not the closed call's
        intro n hn
        have hne : t.id ≠ newId uuid "fc" n := by
          rw [hid]
          intro heq
          have htag : d.tag = n := newId_injective hu "fc" heq
          have hlt := h.drawn d hd
          change e.drawn ≤ n at hn
          omega
        rw [argumentsOf_append, argumentsOf_toolJson, h.fresh n hn]
        simp [hne]

theorem filterMap_openedCall_number (seq : Nat) (frames : List SseFrame) :
    (number seq frames).filterMap openedCall = frames.filterMap openedCall := by
  rw [List.filterMap_eq_flatMap_toList, List.filterMap_eq_flatMap_toList]
  refine flatMap_number _ (fun ev m n => ?_) seq frames
  simp [openedCall, SseFrame.get]

/-- The log does not see sequence numbers. -/
theorem CallsInItems.numbered {e : ResponsesEmitter} {ev : CanonicalEvent}
    {frames : List SseFrame} {log : List LoggedCall}
    (h : CallsInItems uuid (e.onEventCore uuid ev).1 (frames ++ (e.onEventCore uuid ev).2) log) :
    CallsInItems uuid (e.onEvent uuid ev).1 (frames ++ (e.onEvent uuid ev).2) log := by
  rcases h with ⟨h1, h2, h3, h4, h5, h6, h7, h8⟩
  refine ⟨?_, h2, h3, h4, h5, h6, h7, h8⟩
  rwa [List.filterMap_append, onEvent, filterMap_openedCall_number, ← List.filterMap_append]

theorem responsesCore_followsCalls (hu : Function.Injective uuid) :
    FollowsCalls (onEventCore uuid) (CallsInItems uuid) where
  other := by
    intro e frames log ev h hev
    cases ev with
    | created responseId model => exact h.frame _ _ rfl (fun _ => rfl) (Nat.le_refl _) rfl
    | reasoningDelta t => exact h.deliverText .reasoning t
    | textDelta t =>
        have := (h.closeItem .reasoning).deliverText .message t
        simpa [onEventCore, AiApiBridge.closeItem, AiApiBridge.deliverText] using this
    | usage counts => exact h.frame _ _ rfl (fun _ => rfl) (Nat.le_refl _) rfl
    | error message status => exact h.frame _ _ rfl (fun _ => rfl) (Nat.le_refl _) rfl
    | _ => exact absurd trivial hev
  start := by
    intro e frames log i callId name h hi
    -- both texts are closed first, and the call takes the next number
    have hclosed := (h.closeItem .reasoning).closeItem .message
    refine ⟨(andThen (closeReasoning e) closeMessage).1.drawn, ?_⟩
    have := hclosed.openCall callId name hi
      (.object [("type", .string "function_call"),
        ("id", .string (newId uuid "fc" (andThen (closeReasoning e) closeMessage).1.drawn)),
        ("call_id", .string callId), ("name", .string name), ("arguments", .string ""),
        ("status", .string "in_progress")])
      (by simp [openedCall, itemAdded, itemId, AiApiBridge.closeItem])
    simpa [onEventCore, AiApiBridge.closeItem] using this
  args := fun _ _ _ i delta h => h.append i delta
  done := fun _ _ _ i h => h.done hu i

/-- **The Responses emitter follows the calls.** -/
theorem responses_followsCalls (hu : Function.Injective uuid) :
    FollowsCalls (ResponsesEmitter.onEvent uuid) (CallsInItems uuid) where
  other := fun e frames log ev h hev =>
    ((responsesCore_followsCalls hu).other e frames log ev h hev).numbered
  start := fun e frames log i callId name h hi => by
    obtain ⟨tag, htag⟩ := (responsesCore_followsCalls hu).start e frames log i callId name h hi
    exact ⟨tag, htag.numbered⟩
  args := fun _ _ _ i delta h => (h.append i delta).numbered
  done := fun _ _ _ i h => (h.done hu i).numbered

/-- Done events for all keys of a map that holds every live call close the log. -/
theorem foldl_finish_keys {α : Type} {m : Std.ExtTreeMap Nat α} {log : List LoggedCall}
    (h : ∀ c ∈ log, c.live = true → ∃ t, m[c.index]? = some t) :
    (log.map fun c => (m.toList.map Prod.fst).foldl (fun c i => c.finish i) c) = logFinish log := by
  apply List.map_congr_left
  intro c hc
  rw [LoggedCall.foldl_finish]
  by_cases hl : c.live = true
  · obtain ⟨t, ht⟩ := h c hc hl
    have hmem : c.index ∈ m.toList.map Prod.fst :=
      List.mem_map.2 ⟨(c.index, t), Std.ExtTreeMap.mem_toList_iff_getElem?_eq_some.2 ht, rfl⟩
    simp only [hmem, not_true_eq_false, decide_false, Bool.and_false]
  · simp [hl]

/-- The last event closes every call. -/
theorem CallsInItems.completed (hu : Function.Injective uuid) {e : ResponsesEmitter}
    {frames : List SseFrame} {log : List LoggedCall} (h : CallsInItems uuid e frames log) :
    CallsInItems uuid (e.onEvent uuid .completed).1 (frames ++ (e.onEvent uuid .completed).2)
      (logFinish log) := by
  apply CallsInItems.numbered
  have hclosed := (h.closeItem .reasoning).closeItem .message
  generalize hs : (AiApiBridge.closeItem .message (AiApiBridge.closeItem .reasoning e).1).1 = s
    at hclosed
  have hdone := (responsesCore_followsCalls hu).dones (s.tools.toList.map Prod.fst) hclosed
  have hopen : ∀ c ∈ log, c.live = true → ∃ t, s.tools[c.index]? = some t := by
    intro c hc hl
    obtain ⟨t, ht, -⟩ := hclosed.live c hc hl
    exact ⟨t, ht⟩
  rw [foldl_finish_keys hopen, List.map_map, Function.comp_def, ← closeOpenTools_eq, ← hs] at hdone
  have := hdone.frame _ [(closeOpenTools (andThen (closeReasoning e) closeMessage).1).1.completedFrame]
    rfl (fun _ => rfl) (Nat.le_refl _) (by simp [openedCall, completedFrame])
  simpa [onEventCore, AiApiBridge.closeItem] using this

/-- What a client finds in the final output. -/
theorem CallsInItems.read {e : ResponsesEmitter} {frames : List SseFrame} {log : List LoggedCall}
    (h : CallsInItems uuid e frames log) (hdead : ∀ c ∈ log, c.live = false) :
    (frames.filterMap openedCall).map (fun id => argumentsOf id e.finalItems) =
      log.map fun c => [c.args] := by
  rw [h.opened, List.map_map]
  apply List.map_congr_left
  intro c hc
  simpa [hdead c hc] using h.output c hc

end Responses

/-! ## The Anthropic emitter -/

section Anthropic

open AnthropicEmitter

variable {fromStr : String → Option Value}

/-- The Anthropic emitter carries a call log: the live calls are in its map, and
as long as no block index is used twice, the text of every call has been sent as
deltas of its block. -/
structure CallsInBlocks (e : AnthropicEmitter) (frames : List SseFrame) (log : List LoggedCall) :
    Prop where
  opened : frames.filterMap openedToolBlock = log.map fun c => asU32 c.tag
  live : ∀ c ∈ log, c.live = true → ∃ t, e.tools[c.index]? = some t ∧ t.index = c.tag
  only : ∀ i t, e.tools[i]? = some t → ∃ c ∈ log, c.index = i ∧ c.live = true
  json : e.nextIndex ≤ 2 ^ 32 → ∀ c ∈ log, partialJson c.tag frames = c.args
  fresh : e.nextIndex ≤ 2 ^ 32 → ∀ n, e.nextIndex ≤ n → partialJson n frames = ""
  bound : ∀ c ∈ log, c.tag < e.nextIndex
  tags : (log.map LoggedCall.tag).Nodup
  indices : (log.map LoggedCall.index).Nodup

theorem CallsInBlocks.held {e : AnthropicEmitter} {frames : List SseFrame} {log : List LoggedCall}
    (h : CallsInBlocks e frames log) :
    HeldCalls (fun c t => t.index = c.tag) e.tools e.nextIndex log :=
  ⟨h.live, h.only, h.bound, h.tags, h.indices⟩

theorem callsInBlocks_new : CallsInBlocks .new [] [] := by
  constructor <;> simp [AnthropicEmitter.new, partialJson]

theorem partialJson_append (n : Nat) (a b : List SseFrame) :
    partialJson n (a ++ b) = partialJson n a ++ partialJson n b := by
  simp [partialJson]

section Readings

attribute [local simp] openedToolBlock jsonDelta

@[simp] theorem openedToolBlock_blockDelta (n : Nat) (delta : Map) :
    openedToolBlock (blockDelta n delta) = none := by
  simp [blockDelta]

@[simp] theorem openedToolBlock_blockStop (n : Nat) : openedToolBlock (blockStop n) = none := by
  simp [blockStop]

@[simp] theorem openedToolBlock_errorFrame (message : String) (status : Nat) :
    openedToolBlock (errorFrame message status) = none := by
  simp [errorFrame]

@[simp] theorem jsonDelta_blockStart (n i : Nat) (block : Map) :
    jsonDelta n (blockStart i block) = none := by
  simp [blockStart]

@[simp] theorem jsonDelta_blockStop (n i : Nat) : jsonDelta n (blockStop i) = none := by
  simp [blockStop]

@[simp] theorem jsonDelta_errorFrame (n : Nat) (message : String) (status : Nat) :
    jsonDelta n (errorFrame message status) = none := by
  simp [errorFrame]

@[simp] theorem jsonDelta_thinkingDelta (n i : Nat) (t : String) :
    jsonDelta n (blockDelta i (thinkingDelta t)) = none := by
  simp [blockDelta, thinkingDelta]

@[simp] theorem jsonDelta_signatureDelta (n i : Nat) :
    jsonDelta n (blockDelta i signatureDelta) = none := by
  simp [blockDelta, signatureDelta]

@[simp] theorem jsonDelta_textDelta (n i : Nat) (t : String) :
    jsonDelta n (blockDelta i (textDelta t)) = none := by
  simp [blockDelta, textDelta]

@[simp] theorem jsonDelta_inputJsonDelta (n i : Nat) (json : String) :
    jsonDelta n (blockDelta i (inputJsonDelta json)) =
      if asU32 i = n then some json else none := by
  simp [blockDelta, inputJsonDelta]

end Readings

/-- What an action may do without touching the log. -/
theorem CallsInBlocks.frame {e : AnthropicEmitter} {frames : List SseFrame}
    {log : List LoggedCall} (h : CallsInBlocks e frames log) (e' : AnthropicEmitter)
    (new : List SseFrame) (htools : e'.tools = e.tools) (hnext : e.nextIndex ≤ e'.nextIndex)
    (hnew : new.filterMap openedToolBlock = []) (hjson : ∀ n, partialJson n new = "") :
    CallsInBlocks e' (frames ++ new) log where
  opened := by rw [List.filterMap_append, h.opened, hnew, List.append_nil]
  live := by rw [htools]; exact h.live
  only := by rw [htools]; exact h.only
  json := fun hle c hc => by
    rw [partialJson_append, h.json (Nat.le_trans hnext hle) c hc, hjson, String.append_empty]
  fresh := fun hle n hn => by
    rw [partialJson_append, h.fresh (Nat.le_trans hnext hle) n (Nat.le_trans hnext hn), hjson,
      String.append_empty]
  bound := fun c hc => Nat.lt_of_lt_of_le (h.bound c hc) hnext
  tags := h.tags
  indices := h.indices

/-! Everything but the tool events leaves the log alone. -/

theorem CallsInBlocks.start {e : AnthropicEmitter} {frames : List SseFrame}
    {log : List LoggedCall} (h : CallsInBlocks e frames log) :
    CallsInBlocks e.start.1 (frames ++ e.start.2) log := by
  by_cases hs : e.started
  · simpa [AnthropicEmitter.start, hs] using h
  · exact h.frame _ _ (by simp [AnthropicEmitter.start, hs])
      (by simp [AnthropicEmitter.start, hs])
      (by simp [AnthropicEmitter.start, hs, openedToolBlock])
      (by simp [AnthropicEmitter.start, hs, partialJson, jsonDelta])

theorem CallsInBlocks.ensureThinkingOpen {e : AnthropicEmitter} {frames : List SseFrame}
    {log : List LoggedCall} (h : CallsInBlocks e frames log) :
    CallsInBlocks e.ensureThinkingOpen.1 (frames ++ e.ensureThinkingOpen.2) log := by
  cases hi : e.thinkingIndex with
  | some index => simpa [AnthropicEmitter.ensureThinkingOpen, hi] using h
  | none =>
      exact h.frame _ _ (by simp [AnthropicEmitter.ensureThinkingOpen, hi])
        (by simp [AnthropicEmitter.ensureThinkingOpen, hi])
        (by simp [AnthropicEmitter.ensureThinkingOpen, hi, openedToolBlock, blockStart])
        (by simp [AnthropicEmitter.ensureThinkingOpen, hi, partialJson])

theorem CallsInBlocks.ensureTextOpen {e : AnthropicEmitter} {frames : List SseFrame}
    {log : List LoggedCall} (h : CallsInBlocks e frames log) :
    CallsInBlocks e.ensureTextOpen.1 (frames ++ e.ensureTextOpen.2) log := by
  cases hi : e.textIndex with
  | some index => simpa [AnthropicEmitter.ensureTextOpen, hi] using h
  | none =>
      exact h.frame _ _ (by simp [AnthropicEmitter.ensureTextOpen, hi])
        (by simp [AnthropicEmitter.ensureTextOpen, hi])
        (by simp [AnthropicEmitter.ensureTextOpen, hi, openedToolBlock, blockStart])
        (by simp [AnthropicEmitter.ensureTextOpen, hi, partialJson])

theorem CallsInBlocks.closeThinking {e : AnthropicEmitter} {frames : List SseFrame}
    {log : List LoggedCall} (h : CallsInBlocks e frames log) :
    CallsInBlocks e.closeThinking.1 (frames ++ e.closeThinking.2) log := by
  cases hi : e.thinkingIndex with
  | none => simpa [AnthropicEmitter.closeThinking, hi] using h
  | some index =>
      exact h.frame _ _ (by simp [AnthropicEmitter.closeThinking, hi])
        (by simp [AnthropicEmitter.closeThinking, hi])
        (by simp [AnthropicEmitter.closeThinking, hi])
        (by simp [AnthropicEmitter.closeThinking, hi, partialJson])

theorem CallsInBlocks.closeText {e : AnthropicEmitter} {frames : List SseFrame}
    {log : List LoggedCall} (h : CallsInBlocks e frames log) :
    CallsInBlocks e.closeText.1 (frames ++ e.closeText.2) log := by
  cases hi : e.textIndex with
  | none => simpa [AnthropicEmitter.closeText, hi] using h
  | some index =>
      exact h.frame _ _ (by simp [AnthropicEmitter.closeText, hi])
        (by simp [AnthropicEmitter.closeText, hi])
        (by simp [AnthropicEmitter.closeText, hi])
        (by simp [AnthropicEmitter.closeText, hi, partialJson])

theorem CallsInBlocks.other {e : AnthropicEmitter} {frames : List SseFrame}
    {log : List LoggedCall} (h : CallsInBlocks e frames log) {ev : CanonicalEvent}
    (hev : ¬ ConcernsCalls ev) :
    CallsInBlocks (e.onEvent fromStr ev).1 (frames ++ (e.onEvent fromStr ev).2) log := by
  cases ev with
  | created responseId model =>
      have hset : CallsInBlocks { e with messageId := responseId, model } frames log := by
        simpa using h.frame { e with messageId := responseId, model } [] rfl (Nat.le_refl _) rfl
          (fun _ => rfl)
      exact hset.start
  | reasoningDelta t =>
      -- a thinking block may be opened, and it has no arguments
      have hopen := h.start.ensureThinkingOpen
      have := hopen.frame { (andThen e.start AnthropicEmitter.ensureThinkingOpen).1 with
          thinkingText := (andThen e.start AnthropicEmitter.ensureThinkingOpen).1.thinkingText ++ t }
        ((andThen e.start AnthropicEmitter.ensureThinkingOpen).1.thinkingIndex.toList.map
          fun index => blockDelta index (thinkingDelta t))
        rfl (Nat.le_refl _) (by simp [List.filterMap_map])
        (by simp [partialJson, List.filterMap_map])
      simpa [onEvent] using this
  | textDelta t =>
      -- a text block has none either
      have hopen := h.start.closeThinking.ensureTextOpen
      have := hopen.frame
        { (andThen (andThen e.start AnthropicEmitter.closeThinking)
            AnthropicEmitter.ensureTextOpen).1 with
          textText := (andThen (andThen e.start AnthropicEmitter.closeThinking)
            AnthropicEmitter.ensureTextOpen).1.textText ++ t }
        ((andThen (andThen e.start AnthropicEmitter.closeThinking)
            AnthropicEmitter.ensureTextOpen).1.textIndex.toList.map
          fun index => blockDelta index (textDelta t))
        rfl (Nat.le_refl _) (by simp [List.filterMap_map])
        (by simp [partialJson, List.filterMap_map])
      simpa [onEvent] using this
  | usage counts =>
      simpa [onEvent] using h.frame { e with usage := some counts } [] rfl (Nat.le_refl _) rfl
        (fun _ => rfl)
  | error message status =>
      exact h.frame _ [errorFrame message status] rfl (Nat.le_refl _) (by simp)
        (by simp [partialJson])
  | _ => exact absurd trivial hev

/-- Opening a call. -/
theorem CallsInBlocks.openCall {e : AnthropicEmitter} {frames : List SseFrame}
    {log : List LoggedCall} (h : CallsInBlocks e frames log) {i : Nat} (callId name : String)
    (hi : i ∉ log.map LoggedCall.index) :
    CallsInBlocks
      { e with
        nextIndex := e.nextIndex + 1
        anyTool := true
        tools := e.tools.insert i ⟨e.nextIndex, callId, name, ""⟩ }
      (frames ++ [blockStart e.nextIndex [("type", .string "tool_use"), ("id", .string callId),
        ("name", .string name), ("input", .object [])]])
      (log ++ [.fresh i e.nextIndex]) := by
  -- the frame that opens a block carries no JSON text
  have hjson : ∀ n, partialJson n [blockStart e.nextIndex [("type", .string "tool_use"),
      ("id", .string callId), ("name", .string name), ("input", .object [])]] = "" := by
    simp [partialJson]
  have held := h.held.fresh hi (t := ⟨e.nextIndex, callId, name, ""⟩) rfl
  refine ⟨?_, held.live, held.only, ?_, ?_, held.bound, held.tags, held.indices⟩
  · simp [h.opened, openedToolBlock, blockStart, LoggedCall.fresh]
  · intro hle c hc
    have hold : e.nextIndex ≤ 2 ^ 32 := Nat.le_of_succ_le hle
    rw [partialJson_append, hjson, String.append_empty]
    rcases List.mem_append.1 hc with hc | hc
    · exact h.json hold c hc
    · rw [List.mem_singleton.1 hc]
      exact h.fresh hold e.nextIndex (Nat.le_refl _)
  · intro hle n hn
    rw [partialJson_append, hjson, String.append_empty]
    exact h.fresh (Nat.le_of_succ_le hle) n (Nat.le_trans (Nat.le_succ _) hn)

/-- Appending to a call. -/
theorem CallsInBlocks.append {e : AnthropicEmitter} {frames : List SseFrame}
    {log : List LoggedCall} (h : CallsInBlocks e frames log) (i : Nat) (delta : String) :
    CallsInBlocks (e.onEvent fromStr (.toolCallArgsDelta i delta)).1
      (frames ++ (e.onEvent fromStr (.toolCallArgsDelta i delta)).2)
      (log.map (LoggedCall.appendArgs i delta)) := by
  cases ht : e.tools[i]? with
  | none =>
      have hid := h.held.appendArgs_eq_self ht delta
      simpa [onEvent, ht, hid] using h
  | some t =>
      have hact : e.onEvent fromStr (.toolCallArgsDelta i delta) =
          ({ e with tools := e.tools.insert i { t with args := t.args ++ delta } },
            [blockDelta t.index (inputJsonDelta delta)]) := by
        simp [onEvent, ht]
      -- the block that gets the delta belongs to the live call of the index only
      obtain ⟨d, hd, hdi, hdl, hblock⟩ := h.held.owner ht
      have huniq : ∀ c ∈ log, t.index = c.tag → c = d := fun c hc heq =>
        h.held.eq_of_tag hc hd (heq.symm.trans hblock)
      have hjson : e.nextIndex ≤ 2 ^ 32 → ∀ n,
          partialJson n [blockDelta t.index (inputJsonDelta delta)] =
            if t.index = n then delta else "" := by
        intro hle n
        have hindex : asU32 t.index = t.index := by
          rw [hblock]
          exact asU32_of_lt (Nat.lt_of_lt_of_le (h.bound d hd) hle)
        rw [partialJson, List.filterMap_cons, jsonDelta_inputJsonDelta, hindex]
        by_cases hn : t.index = n <;> simp [hn]
      have held := h.held.append ht { t with args := t.args ++ delta } delta
        (fun c _ _ hagrees => by simpa using hagrees)
      rw [hact]
      refine ⟨?_, held.live, held.only, ?_, ?_, held.bound, held.tags, held.indices⟩
      · simp [h.opened]
      · intro hle _ hmem
        obtain ⟨c, hc, rfl⟩ := List.mem_map.1 hmem
        rw [LoggedCall.appendArgs_tag, partialJson_append, h.json hle c hc, hjson hle]
        by_cases hi : c.index = i
        · obtain rfl := h.held.eq_of_index hc hd (hi.trans hdi.symm)
          simp [LoggedCall.appendArgs, hi, hdl, hblock]
        · have hne : t.index ≠ c.tag := fun heq => hi ((huniq c hc heq).symm ▸ hdi)
          simp [LoggedCall.appendArgs, hi, hne]
      · -- a block that is still to be opened is not the call's
        intro hle n hn
        have hne : t.index ≠ n := by
          have hlt := h.bound d hd
          change e.nextIndex ≤ n at hn
          omega
        rw [partialJson_append, h.fresh hle n hn, hjson hle]
        simp [hne]

/-- Closing a call. -/
theorem CallsInBlocks.done {e : AnthropicEmitter} {frames : List SseFrame}
    {log : List LoggedCall} (h : CallsInBlocks e frames log) (i : Nat) :
    CallsInBlocks (e.onEvent fromStr (.toolCallDone i)).1
      (frames ++ (e.onEvent fromStr (.toolCallDone i)).2) (log.map (LoggedCall.finish i)) := by
  cases ht : e.tools[i]? with
  | none =>
      have hid := h.held.finish_eq_self ht
      simpa [onEvent, ht, hid] using h
  | some t =>
      have hact : e.onEvent fromStr (.toolCallDone i) =
          ({ e with
              tools := e.tools.erase i
              finalBlocks := e.finalBlocks ++
                [toolUseBlock t.id t.name (toolInput fromStr t.args)] }, [blockStop t.index]) := by
        simp [onEvent, ht, finishTool]
      -- nor does the one that closes it
      have hjson : ∀ n, partialJson n [blockStop t.index] = "" := by simp [partialJson]
      have held := h.held.finish i
      rw [hact]
      refine ⟨?_, held.live, held.only, ?_, ?_, held.bound, held.tags, held.indices⟩
      · simp [h.opened]
      · intro hle _ hmem
        obtain ⟨c, hc, rfl⟩ := List.mem_map.1 hmem
        rw [partialJson_append, hjson, String.append_empty, LoggedCall.finish_tag,
          LoggedCall.finish_args]
        exact h.json hle c hc
      · intro hle n hn
        rw [partialJson_append, hjson, String.append_empty]
        exact h.fresh hle n hn

/-- **The Anthropic emitter follows the calls.** -/
theorem anthropic_followsCalls : FollowsCalls (AnthropicEmitter.onEvent fromStr) CallsInBlocks where
  other := fun _ _ _ _ h hev => h.other hev
  start := by
    intro e frames log i callId name h hi
    have hclosed := h.start.closeThinking.closeText
    refine ⟨(andThen (andThen e.start AnthropicEmitter.closeThinking)
      AnthropicEmitter.closeText).1.nextIndex, ?_⟩
    simpa [onEvent] using hclosed.openCall callId name hi
  args := fun _ _ _ i delta h => h.append i delta
  done := fun _ _ _ i h => h.done i

/-- The last event closes every call. -/
theorem CallsInBlocks.completed {e : AnthropicEmitter} {frames : List SseFrame}
    {log : List LoggedCall} (h : CallsInBlocks e frames log) (fromStr : String → Option Value) :
    CallsInBlocks (e.onEvent fromStr .completed).1 (frames ++ (e.onEvent fromStr .completed).2)
      (logFinish log) := by
  have hclosed := h.closeThinking.closeText
  generalize hs : (AnthropicEmitter.closeText e.closeThinking.1).1 = s at hclosed
  have hfollows : FollowsCalls (AnthropicEmitter.onEvent fromStr) CallsInBlocks :=
    anthropic_followsCalls
  have hdone := hfollows.dones (s.tools.toList.map Prod.fst) hclosed
  have hopen : ∀ c ∈ log, c.live = true → ∃ t, s.tools[c.index]? = some t := by
    intro c hc hl
    obtain ⟨t, ht, -⟩ := hclosed.live c hc hl
    exact ⟨t, ht⟩
  rw [foldl_finish_keys hopen, List.map_map, Function.comp_def, ← closeOpenTools_eq, ← hs] at hdone
  have := hdone.frame _ [(closeOpenTools fromStr
    (andThen e.closeThinking AnthropicEmitter.closeText).1).1.messageDelta, messageStop]
    rfl (Nat.le_refl _) (by simp [openedToolBlock, messageDelta, messageStop])
    (by simp [partialJson, jsonDelta, messageDelta, messageStop])
  simpa [onEvent] using this

/-- What a client finds in the frames. -/
theorem CallsInBlocks.read {e : AnthropicEmitter} {frames : List SseFrame} {log : List LoggedCall}
    (h : CallsInBlocks e frames log) (hle : e.nextIndex ≤ 2 ^ 32) :
    (frames.filterMap openedToolBlock).map (fun n => partialJson n frames) =
      log.map LoggedCall.args := by
  rw [h.opened, List.map_map]
  apply List.map_congr_left
  intro c hc
  have htag : asU32 c.tag = c.tag := asU32_of_lt (Nat.lt_of_lt_of_le (h.bound c hc) hle)
  rw [Function.comp_apply, htag]
  exact h.json hle c hc

end Anthropic

/-! ## A stream of chunks -/

section Stream

open ChatStreamParser Chat CallAtom

/-- No fragment with text comes after a finish reason that itself comes after the
first fragment of its index. -/
def NoLateFragment (chunks : List Value) : Prop := ∀ i, ¬ Late i (callWord chunks)

/-- The function calls that the Responses client sees opened, one for each index
in the order in which the indices occur, have in the final output the arguments
sent under their index. -/
def ResponsesDelivers (uuid : Nat → String) (responseId : String) (chunks : List Value) : Prop :=
  let r := Transducer.run (ResponsesEmitter.onEvent uuid) .new (streamEvents responseId chunks)
  (r.2.filterMap openedCall).map (fun id => argumentsOf id (outputItems r.1.finalResponse)) =
    (occurring (callWord chunks)).map fun i => [sent i (callWord chunks)]

/-- The tool blocks that the Anthropic client sees opened, one for each index in
the order in which the indices occur, get the arguments sent under their index. -/
def AnthropicDelivers (fromStr : String → Option Value) (responseId : String)
    (chunks : List Value) : Prop :=
  let frames := messageFrames fromStr responseId chunks
  (frames.filterMap openedToolBlock).map (fun n => partialJson n frames) =
    (occurring (callWord chunks)).map fun i => sent i (callWord chunks)

instance (uuid : Nat → String) (responseId : String) (chunks : List Value) :
    Decidable (ResponsesDelivers uuid responseId chunks) :=
  inferInstanceAs (Decidable (_ = _))

instance (fromStr : String → Option Value) (responseId : String) (chunks : List Value) :
    Decidable (AnthropicDelivers fromStr responseId chunks) :=
  inferInstanceAs (Decidable (_ = _))

theorem responsesDelivers_iff {uuid : Nat → String} (hu : Function.Injective uuid)
    (responseId : String) {chunks : List Value} (h : ∀ c ∈ chunks, NoError c)
    (hidx : ∀ c ∈ chunks, IndicesInRange c) :
    ResponsesDelivers uuid responseId chunks ↔ NoLateFragment chunks := by
  obtain ⟨log, hR, ht⟩ := (responses_followsCalls hu).chunks h hidx (p := new responseId)
    callsInItems_new tracks_nil rfl
  have hread := (hR.completed hu).read (by simp [logFinish])
  have hargs : (logFinish log).map (fun c => [c.args]) =
      (log.map LoggedCall.args).map fun args => [args] := by
    simp [logFinish, Function.comp_def]
  have hsent : (occurring (callWord chunks)).map (fun i => [sent i (callWord chunks)]) =
      ((occurring (callWord chunks)).map fun i => sent i (callWord chunks)).map
        fun args => [args] := by
    simp
  have hinj : Function.Injective (List.map fun args : String => [args]) :=
    List.map_injective_iff.2 fun _ _ => List.singleton_inj.1
  rw [List.nil_append] at ht
  rw [NoLateFragment, ← ht.args_eq_iff, ← hinj.eq_iff, ← hsent, ← hargs, ← hread]
  simp [ResponsesDelivers, streamEvents, Transducer.run_append, outputItems,
    ResponsesEmitter.finalResponse, ResponsesEmitter.completedResponse]

theorem anthropicDelivers_iff (fromStr : String → Option Value) (responseId : String)
    {chunks : List Value} (h : ∀ c ∈ chunks, NoError c) (hidx : ∀ c ∈ chunks, IndicesInRange c)
    (hle : Cue.itemsOpened [] (streamCues [] chunks) ≤ 2 ^ 32) :
    AnthropicDelivers fromStr responseId chunks ↔ NoLateFragment chunks := by
  have hfollows : FollowsCalls (AnthropicEmitter.onEvent fromStr) CallsInBlocks :=
    anthropic_followsCalls
  obtain ⟨log, hR, ht⟩ := hfollows.chunks h hidx (p := new responseId) callsInBlocks_new
    tracks_nil rfl
  have hcount := nextIndex_stream fromStr responseId chunks
  rw [streamEvents, Transducer.run_append_fst, Transducer.run_singleton] at hcount
  have hread := (hR.completed fromStr).read (hcount ▸ hle)
  have hargs : (logFinish log).map LoggedCall.args = log.map LoggedCall.args := by
    simp [logFinish, Function.comp_def]
  rw [List.nil_append] at ht
  rw [NoLateFragment, ← ht.args_eq_iff, ← hargs, ← hread]
  simp [AnthropicDelivers, messageFrames, streamEvents, Transducer.run_append]

/-- **When tool arguments arrive complete.** Either client gets every argument
fragment of a stream exactly when none of them is late, the Anthropic client of a stream
that opens at most `2 ^ 32` blocks. -/
theorem argumentsDelivered_iff (uuid : Nat → String) (hu : Function.Injective uuid)
    (fromStr : String → Option Value) (responseId : String) (chunks : List Value)
    (h : ∀ c ∈ chunks, NoError c) (hidx : ∀ c ∈ chunks, IndicesInRange c) :
    (ResponsesDelivers uuid responseId chunks ↔ NoLateFragment chunks) ∧
      (Cue.itemsOpened [] (streamCues [] chunks) ≤ 2 ^ 32 →
        (AnthropicDelivers fromStr responseId chunks ↔ NoLateFragment chunks)) :=
  ⟨responsesDelivers_iff hu responseId h hidx, anthropicDelivers_iff fromStr responseId h hidx⟩

/-- A chunk with one tool fragment. -/
def fragmentChunk (index : Nat) (args : String) : Value :=
  deltaChunk [("tool_calls", .array [.object [("index", .ofNat index), ("id", .string "c"),
    ("function", .object [("name", .string "f"), ("arguments", .string args)])]])]

/-- A chunk with a finish reason. -/
def finishChunk : Value :=
  .object [("choices", .array [.object [("delta", .object []),
    ("finish_reason", .string "tool_calls")]])]

/-- Two interleaved calls, then the finish reason. -/
theorem argumentsDelivered_iff_interleaved :
    (ResponsesDelivers unaryId "r" [fragmentChunk 0 "\x7b", fragmentChunk 1 "{}",
        fragmentChunk 0 "\x7d", finishChunk] ↔
      NoLateFragment [fragmentChunk 0 "\x7b", fragmentChunk 1 "{}", fragmentChunk 0 "\x7d",
        finishChunk]) ∧
    (AnthropicDelivers (fun _ => none) "r" [fragmentChunk 0 "\x7b", fragmentChunk 1 "{}",
        fragmentChunk 0 "\x7d", finishChunk] ↔
      NoLateFragment [fragmentChunk 0 "\x7b", fragmentChunk 1 "{}", fragmentChunk 0 "\x7d",
        finishChunk]) :=
  (argumentsDelivered_iff unaryId unaryId_injective (fun _ => none) "r"
    [fragmentChunk 0 "\x7b", fragmentChunk 1 "{}", fragmentChunk 0 "\x7d", finishChunk]
    (by decide) (by decide)).imp_right fun h => h (by decide)

/-- A fragment after the finish reason reaches neither client. -/
theorem not_argumentsDelivered_lateFragment :
    let chunks := [fragmentChunk 0 "\x7b", finishChunk, fragmentChunk 0 "\x7d"]
    (∀ c ∈ chunks, NoError c) ∧ (∀ c ∈ chunks, IndicesInRange c) ∧
      ¬ ResponsesDelivers unaryId "r" chunks ∧ ¬ AnthropicDelivers (fun _ => none) "r" chunks := by
  decide

end Stream

end AiApiBridge
