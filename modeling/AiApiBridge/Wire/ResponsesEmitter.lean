import AiApiBridge.Wire.Frame
import AiApiBridge.Lib.Transducer
import AiApiBridge.Lib.TreeMaps

/-!
# The Responses emitter

`ResponsesEmitter.onEvent` of `wire/responses.rs` turns canonical events into
the frames of the Responses API. An output item is announced by
`response.output_item.added`, grows by delta frames that name its id, and ends
with `response.output_item.done`; `finalItems` collects the finished items for
the response object of `response.completed`.

The counters of the source wrap: `next_output_index` is a `u32` and `seq` a `u64`.
Here `nextOutputIndex` and `seq` count the items and the frames of one response
without a bound, and what goes into a frame is what the source's counter holds: the
low 32 bits of the one (`asU32_succ`), the low 64 bits of the other. `drawn` counts
the UUIDs drawn.
-/

set_option autoImplicit false

namespace AiApiBridge

/-- An open message or reasoning item. -/
structure OpenItem where
  id : String
  outputIndex : Nat
  deriving DecidableEq, Repr

/-- An open function call. -/
structure ToolItem where
  id : String
  outputIndex : Nat
  callId : String
  name : String
  args : String
  deriving DecidableEq, Repr

structure ResponsesEmitter where
  responseId : String
  model : String
  nextOutputIndex : Nat
  reasoningItem : Option OpenItem
  reasoningText : String
  messageItem : Option OpenItem
  messageText : String
  tools : Std.ExtTreeMap Nat ToolItem
  usage : Option UsageCounts
  finalItems : List Value
  seq : Nat
  drawn : Nat

namespace ResponsesEmitter

open Transducer (andThen)

/-- `ResponsesEmitter::default()`. -/
def new : ResponsesEmitter where
  responseId := ""
  model := ""
  nextOutputIndex := 0
  reasoningItem := none
  reasoningText := ""
  messageItem := none
  messageText := ""
  tools := ∅
  usage := none
  finalItems := []
  seq := 0
  drawn := 0

/-! ## Items -/

/-- A finished reasoning item. -/
def reasoningItemJson (id text : String) : Value :=
  .object [("type", .string "reasoning"), ("id", .string id),
    ("summary", .array [.object [("type", .string "summary_text"), ("text", .string text)]])]

/-- The text part of a message item. -/
def outputTextPart (text : String) : Value :=
  .object [("type", .string "output_text"), ("text", .string text), ("annotations", .array [])]

/-- A finished message item. -/
def messageItemJson (id text : String) : Value :=
  .object [("type", .string "message"), ("id", .string id), ("role", .string "assistant"),
    ("status", .string "completed"), ("content", .array [outputTextPart text])]

/-- A finished function call. -/
def functionCallJson (id callId name args : String) : Value :=
  .object [("type", .string "function_call"), ("id", .string id), ("call_id", .string callId),
    ("name", .string name), ("arguments", .string args), ("status", .string "completed")]

/-! ## Frames -/

def itemAdded (outputIndex : Nat) (item : Value) : SseFrame :=
  frame "response.output_item.added" [("type", .string "response.output_item.added"),
    ("output_index", .ofNat (asU32 outputIndex)), ("item", item)]

def itemDone (outputIndex : Nat) (item : Value) : SseFrame :=
  frame "response.output_item.done" [("type", .string "response.output_item.done"),
    ("output_index", .ofNat (asU32 outputIndex)), ("item", item)]

def reasoningDeltaFrame (item : OpenItem) (delta : String) : SseFrame :=
  frame "response.reasoning_summary_text.delta"
    [("type", .string "response.reasoning_summary_text.delta"), ("item_id", .string item.id),
      ("output_index", .ofNat (asU32 item.outputIndex)), ("summary_index", .ofNat 0),
      ("delta", .string delta)]

def contentPartAdded (id : String) (outputIndex : Nat) : SseFrame :=
  frame "response.content_part.added" [("type", .string "response.content_part.added"),
    ("item_id", .string id), ("output_index", .ofNat (asU32 outputIndex)),
    ("content_index", .ofNat 0), ("part", outputTextPart "")]

def textDeltaFrame (item : OpenItem) (delta : String) : SseFrame :=
  frame "response.output_text.delta" [("type", .string "response.output_text.delta"),
    ("item_id", .string item.id), ("output_index", .ofNat (asU32 item.outputIndex)),
    ("content_index", .ofNat 0), ("delta", .string delta)]

def outputTextDone (item : OpenItem) (text : String) : SseFrame :=
  frame "response.output_text.done" [("type", .string "response.output_text.done"),
    ("item_id", .string item.id), ("output_index", .ofNat (asU32 item.outputIndex)),
    ("content_index", .ofNat 0), ("text", .string text)]

def contentPartDone (item : OpenItem) (text : String) : SseFrame :=
  frame "response.content_part.done" [("type", .string "response.content_part.done"),
    ("item_id", .string item.id), ("output_index", .ofNat (asU32 item.outputIndex)),
    ("content_index", .ofNat 0), ("part", outputTextPart text)]

def argumentsDelta (t : ToolItem) (delta : String) : SseFrame :=
  frame "response.function_call_arguments.delta"
    [("type", .string "response.function_call_arguments.delta"), ("item_id", .string t.id),
      ("output_index", .ofNat (asU32 t.outputIndex)), ("delta", .string delta)]

def argumentsDone (t : ToolItem) : SseFrame :=
  frame "response.function_call_arguments.done"
    [("type", .string "response.function_call_arguments.done"), ("item_id", .string t.id),
      ("output_index", .ofNat (asU32 t.outputIndex)), ("arguments", .string t.args)]

/-! ## Emission

Each helper returns the next state and the frames it pushes. -/

abbrev Emission := ResponsesEmitter × List SseFrame

section Emit

variable (uuid : Nat → String)

def ensureReasoningOpen (e : ResponsesEmitter) : Emission :=
  match e.reasoningItem with
  | some _ => (e, [])
  | none =>
      let outputIndex := e.nextOutputIndex
      let id := newId uuid "rs" e.drawn
      ({ e with
          nextOutputIndex := outputIndex + 1
          drawn := e.drawn + 1
          reasoningItem := some ⟨id, outputIndex⟩ },
        [itemAdded outputIndex (.object [("type", .string "reasoning"), ("id", .string id),
          ("summary", .array [])])])

def closeReasoning (e : ResponsesEmitter) : Emission :=
  match e.reasoningItem with
  | none => (e, [])
  | some item =>
      let itemJson := reasoningItemJson item.id e.reasoningText
      ({ e with reasoningItem := none, finalItems := e.finalItems ++ [itemJson] },
        [itemDone item.outputIndex itemJson])

def ensureMessageOpen (e : ResponsesEmitter) : Emission :=
  match e.messageItem with
  | some _ => (e, [])
  | none =>
      let outputIndex := e.nextOutputIndex
      let id := newId uuid "msg" e.drawn
      ({ e with
          nextOutputIndex := outputIndex + 1
          drawn := e.drawn + 1
          messageItem := some ⟨id, outputIndex⟩ },
        [itemAdded outputIndex (.object [("type", .string "message"), ("id", .string id),
            ("role", .string "assistant"), ("status", .string "in_progress"),
            ("content", .array [])]),
          contentPartAdded id outputIndex])

def closeMessage (e : ResponsesEmitter) : Emission :=
  match e.messageItem with
  | none => (e, [])
  | some item =>
      let itemJson := messageItemJson item.id e.messageText
      ({ e with messageItem := none, finalItems := e.finalItems ++ [itemJson] },
        [outputTextDone item e.messageText, contentPartDone item e.messageText,
          itemDone item.outputIndex itemJson])

/-- The finished form of a tool item. -/
def toolJson (t : ToolItem) : Value := functionCallJson t.id t.callId t.name t.args

def finishTool (e : ResponsesEmitter) (t : ToolItem) : Emission :=
  ({ e with finalItems := e.finalItems ++ [toolJson t] },
    [argumentsDone t, itemDone t.outputIndex (toolJson t)])

/-- Close the tools still open, in index order. -/
def closeOpenTools (e : ResponsesEmitter) : Emission :=
  Transducer.run finishTool { e with tools := ∅ } (e.tools.toList.map Prod.snd)

def skeleton (e : ResponsesEmitter) (status : String) : Value :=
  .object [("id", .string e.responseId), ("object", .string "response"),
    ("status", .string status), ("model", .string e.model), ("output", .array [])]

/-- The full response object. -/
def completedResponse (e : ResponsesEmitter) : Value :=
  let u := e.usage.getD ⟨0, 0, 0, 0, 0⟩
  .object [("id", .string e.responseId), ("object", .string "response"),
    ("status", .string "completed"), ("model", .string e.model), ("output", .array e.finalItems),
    ("usage", .object [("input_tokens", .ofNat u.inputTokens),
      ("input_tokens_details", .object [("cached_tokens", .ofNat u.cachedInputTokens)]),
      ("output_tokens", .ofNat u.outputTokens),
      ("output_tokens_details", .object [("reasoning_tokens", .ofNat u.reasoningTokens)]),
      ("total_tokens", .ofNat u.totalTokens)])]

/-- `final_response`, valid after a `completed` event. -/
def finalResponse (e : ResponsesEmitter) : Value := e.completedResponse

def createdFrame (e : ResponsesEmitter) : SseFrame :=
  frame "response.created" [("type", .string "response.created"),
    ("response", e.skeleton "in_progress")]

def completedFrame (e : ResponsesEmitter) : SseFrame :=
  frame "response.completed" [("type", .string "response.completed"),
    ("response", e.completedResponse)]

def failedFrame (e : ResponsesEmitter) (message : String) (status : Nat) : SseFrame :=
  frame "response.failed" [("type", .string "response.failed"),
    ("response", .object [("id", .string e.responseId), ("status", .string "failed"),
      ("error", .object [("code", .ofNat status), ("message", .string message)])])]

/-- The match of `on_event`, before the frames get their sequence numbers. -/
def onEventCore (e : ResponsesEmitter) : CanonicalEvent → Emission
  | .created responseId model =>
      let e := { e with responseId, model }
      (e, [e.createdFrame])
  | .reasoningDelta text =>
      andThen (ensureReasoningOpen uuid e) fun e =>
        ({ e with reasoningText := e.reasoningText ++ text },
          e.reasoningItem.toList.map fun item => reasoningDeltaFrame item text)
  | .textDelta text =>
      andThen (andThen (closeReasoning e) (ensureMessageOpen uuid)) fun e =>
        ({ e with messageText := e.messageText ++ text },
          e.messageItem.toList.map fun item => textDeltaFrame item text)
  | .toolCallStart index callId name =>
      andThen (andThen (closeReasoning e) closeMessage) fun e =>
        let outputIndex := e.nextOutputIndex
        let id := newId uuid "fc" e.drawn
        ({ e with
            nextOutputIndex := outputIndex + 1
            drawn := e.drawn + 1
            tools := e.tools.insert index ⟨id, outputIndex, callId, name, ""⟩ },
          [itemAdded outputIndex (.object [("type", .string "function_call"), ("id", .string id),
            ("call_id", .string callId), ("name", .string name), ("arguments", .string ""),
            ("status", .string "in_progress")])])
  | .toolCallArgsDelta index delta =>
      match e.tools[index]? with
      | some t =>
          let t := { t with args := t.args ++ delta }
          ({ e with tools := e.tools.insert index t }, [argumentsDelta t delta])
      -- a fragment of a call that is not open is dropped
      | none => (e, [])
  | .toolCallDone index =>
      match e.tools[index]? with
      | some t => finishTool { e with tools := e.tools.erase index } t
      | none => (e, [])
  | .usage counts => ({ e with usage := some counts }, [])
  | .completed =>
      andThen (andThen (andThen (closeReasoning e) closeMessage) closeOpenTools) fun e =>
        (e, [e.completedFrame])
  | .error message status => (e, [e.failedFrame message status])

/-- Give the frames their sequence numbers, from `seq` on. -/
def number (seq : Nat) : List SseFrame → List SseFrame
  | [] => []
  | fr :: frames =>
      { fr with data := match fr.data with
          | .object m => .object (Map.insert m "sequence_number" (.ofNat (seq % 2 ^ 64)))
          | v => v } :: number (seq + 1) frames

/-- `on_event`. -/
def onEvent (e : ResponsesEmitter) (ev : CanonicalEvent) : Emission :=
  let r := onEventCore uuid e ev
  ({ r.1 with seq := e.seq + r.2.length }, number e.seq r.2)

end Emit

/-! ## Closing what is open

Closing all open tools is what a done event for each of them would do. -/

/-- The open tools of the emitter. -/
def toolCloser : TreeMaps.Closer ResponsesEmitter ToolItem SseFrame where
  entries := tools
  withEntries e m := { e with tools := m }
  finish := finishTool
  withEntries_entries _ := rfl
  entries_withEntries _ _ := rfl
  withEntries_withEntries _ _ _ := rfl
  finish_withEntries _ _ _ := rfl

/-- **Closing the open tools is a done event for each.** -/
theorem closeOpenTools_eq (uuid : Nat → String) (e : ResponsesEmitter) :
    closeOpenTools e =
      Transducer.run (onEventCore uuid) e (e.tools.toList.map fun kt => .toolCallDone kt.1) :=
  toolCloser.finish_all (fun s i t ht => by
    have ht : s.tools[i]? = some t := ht
    simp [onEventCore, ht, toolCloser]) e

theorem closeOpenTools_of_empty {e : ResponsesEmitter} (h : e.tools = ∅) :
    closeOpenTools e = (e, []) :=
  toolCloser.finish_of_empty h

end ResponsesEmitter

end AiApiBridge
