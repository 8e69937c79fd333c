import AiApiBridge.Wire.Frame
import AiApiBridge.Lib.Transducer
import AiApiBridge.Lib.TreeMaps

/-!
# The Anthropic emitter

`AnthropicEmitter.onEvent` of `wire/anthropic.rs` turns canonical events into the
frames of the Anthropic Messages API. A content block is announced by
`content_block_start`, grows by deltas that name its index, and ends with
`content_block_stop`; `finalBlocks` collects the finished blocks for the
non-streaming message. `fromStr` is `serde_json::from_str` at type `Value`.
-/

set_option autoImplicit false

namespace AiApiBridge

/-- An open tool block. -/
structure ToolBlock where
  index : Nat
  id : String
  name : String
  args : String
  deriving DecidableEq, Repr

/-- The emitter state. `nextIndex` counts the blocks of one message without a bound; the
source's `next_index` holds its low 32 bits, which are what goes into a frame. -/
structure AnthropicEmitter where
  messageId : String
  model : String
  started : Bool
  nextIndex : Nat
  thinkingIndex : Option Nat
  thinkingText : String
  textIndex : Option Nat
  textText : String
  tools : Std.ExtTreeMap Nat ToolBlock
  anyTool : Bool
  usage : Option UsageCounts
  finalBlocks : List Value

namespace AnthropicEmitter

open Transducer (andThen)

/-- The opaque placeholder signature of a thinking block. -/
def thinkingSignature : String := "bridge-unsigned"

/-- `AnthropicEmitter::default()`. -/
def new : AnthropicEmitter where
  messageId := ""
  model := ""
  started := false
  nextIndex := 0
  thinkingIndex := none
  thinkingText := ""
  textIndex := none
  textText := ""
  tools := ∅
  anyTool := false
  usage := none
  finalBlocks := []

/-! ## Blocks -/

def thinkingBlock (text : String) : Value :=
  .object [("type", .string "thinking"), ("thinking", .string text),
    ("signature", .string thinkingSignature)]

def textBlock (text : String) : Value :=
  .object [("type", .string "text"), ("text", .string text)]

def toolUseBlock (id name : String) (input : Value) : Value :=
  .object [("type", .string "tool_use"), ("id", .string id), ("name", .string name),
    ("input", input)]

/-- The input of a tool call: its argument text parsed, an empty object when it
does not parse. -/
def toolInput (fromStr : String → Option Value) (args : String) : Value :=
  (fromStr args).getD (.object [])

/-! ## Frames -/

def blockStart (index : Nat) (block : Map) : SseFrame :=
  frame "content_block_start" [("type", .string "content_block_start"),
    ("index", .ofNat (asU32 index)), ("content_block", .object block)]

def blockDelta (index : Nat) (delta : Map) : SseFrame :=
  frame "content_block_delta" [("type", .string "content_block_delta"),
    ("index", .ofNat (asU32 index)), ("delta", .object delta)]

def blockStop (index : Nat) : SseFrame :=
  frame "content_block_stop" [("type", .string "content_block_stop"),
    ("index", .ofNat (asU32 index))]

def thinkingDelta (text : String) : Map :=
  [("type", .string "thinking_delta"), ("thinking", .string text)]

def signatureDelta : Map :=
  [("type", .string "signature_delta"), ("signature", .string thinkingSignature)]

def textDelta (text : String) : Map := [("type", .string "text_delta"), ("text", .string text)]

def inputJsonDelta (json : String) : Map :=
  [("type", .string "input_json_delta"), ("partial_json", .string json)]

def messageStop : SseFrame := frame "message_stop" [("type", .string "message_stop")]

def errorFrame (message : String) (status : Nat) : SseFrame :=
  frame "error" [("type", .string "error"),
    ("error", .object [("type", .string "api_error"), ("message", .string message),
      ("code", .ofNat status)])]

/-! ## Emission -/

abbrev Emission := AnthropicEmitter × List SseFrame

/-- `(input, output, cache_read)` in Anthropic terms: the cached part of the
prompt is reported apart, and the subtraction saturates. -/
def anthropicUsage (e : AnthropicEmitter) : Nat × Nat × Nat :=
  let u := e.usage.getD ⟨0, 0, 0, 0, 0⟩
  (u.inputTokens - u.cachedInputTokens, u.outputTokens, u.cachedInputTokens)

def usageJson (e : AnthropicEmitter) : Value :=
  let (uncached, o, cacheRead) := e.anthropicUsage
  .object [("input_tokens", .ofNat uncached), ("output_tokens", .ofNat o),
    ("cache_read_input_tokens", .ofNat cacheRead)]

def stopReason (e : AnthropicEmitter) : String := if e.anyTool then "tool_use" else "end_turn"

/-- The message object announced by `message_start`. -/
def startedMessage (e : AnthropicEmitter) : Value :=
  .object [("id", .string e.messageId), ("type", .string "message"),
    ("role", .string "assistant"), ("model", .string e.model), ("content", .array []),
    ("stop_reason", .null), ("stop_sequence", .null),
    ("usage", .object [("input_tokens", .ofNat 0), ("output_tokens", .ofNat 0)])]

def messageDelta (e : AnthropicEmitter) : SseFrame :=
  frame "message_delta" [("type", .string "message_delta"),
    ("delta", .object [("stop_reason", .string e.stopReason), ("stop_sequence", .null)]),
    ("usage", e.usageJson)]

/-- Open the message, once. -/
def start (e : AnthropicEmitter) : Emission :=
  if e.started then (e, [])
  else ({ e with started := true },
    [frame "message_start" [("type", .string "message_start"), ("message", e.startedMessage)]])

def ensureThinkingOpen (e : AnthropicEmitter) : Emission :=
  match e.thinkingIndex with
  | some _ => (e, [])
  | none =>
      ({ e with nextIndex := e.nextIndex + 1, thinkingIndex := some e.nextIndex },
        [blockStart e.nextIndex [("type", .string "thinking"), ("thinking", .string "")]])

def closeThinking (e : AnthropicEmitter) : Emission :=
  match e.thinkingIndex with
  | none => (e, [])
  | some index =>
      ({ e with
          thinkingIndex := none
          finalBlocks := e.finalBlocks ++ [thinkingBlock e.thinkingText] },
        [blockDelta index signatureDelta, blockStop index])

def ensureTextOpen (e : AnthropicEmitter) : Emission :=
  match e.textIndex with
  | some _ => (e, [])
  | none =>
      ({ e with nextIndex := e.nextIndex + 1, textIndex := some e.nextIndex },
        [blockStart e.nextIndex [("type", .string "text"), ("text", .string "")]])

def closeText (e : AnthropicEmitter) : Emission :=
  match e.textIndex with
  | none => (e, [])
  | some index =>
      ({ e with textIndex := none, finalBlocks := e.finalBlocks ++ [textBlock e.textText] },
        [blockStop index])

section Emit

variable (fromStr : String → Option Value)

def finishTool (e : AnthropicEmitter) (tb : ToolBlock) : Emission :=
  ({ e with
      finalBlocks := e.finalBlocks ++ [toolUseBlock tb.id tb.name (toolInput fromStr tb.args)] },
    [blockStop tb.index])

/-- Close the tools still open, in index order. -/
def closeOpenTools (e : AnthropicEmitter) : Emission :=
  Transducer.run (finishTool fromStr) { e with tools := ∅ } (e.tools.toList.map Prod.snd)

/-- `on_event`. -/
def onEvent (e : AnthropicEmitter) : CanonicalEvent → Emission
  | .created responseId model => start { e with messageId := responseId, model }
  | .reasoningDelta text =>
      andThen (andThen (start e) ensureThinkingOpen) fun e =>
        ({ e with thinkingText := e.thinkingText ++ text },
          e.thinkingIndex.toList.map fun index => blockDelta index (thinkingDelta text))
  | .textDelta text =>
      andThen (andThen (andThen (start e) closeThinking) ensureTextOpen) fun e =>
        ({ e with textText := e.textText ++ text },
          e.textIndex.toList.map fun index => blockDelta index (textDelta text))
  | .toolCallStart index callId name =>
      andThen (andThen (andThen (start e) closeThinking) closeText) fun e =>
        ({ e with
            nextIndex := e.nextIndex + 1
            anyTool := true
            tools := e.tools.insert index ⟨e.nextIndex, callId, name, ""⟩ },
          [blockStart e.nextIndex [("type", .string "tool_use"), ("id", .string callId),
            ("name", .string name), ("input", .object [])]])
  | .toolCallArgsDelta index delta =>
      match e.tools[index]? with
      | some tb =>
          ({ e with tools := e.tools.insert index { tb with args := tb.args ++ delta } },
            [blockDelta tb.index (inputJsonDelta delta)])
      -- a fragment of a call that is not open is dropped
      | none => (e, [])
  | .toolCallDone index =>
      match e.tools[index]? with
      | some tb => finishTool fromStr { e with tools := e.tools.erase index } tb
      | none => (e, [])
  | .usage counts => ({ e with usage := some counts }, [])
  | .completed =>
      andThen (andThen (andThen (closeThinking e) closeText) (closeOpenTools fromStr)) fun e =>
        (e, [e.messageDelta, messageStop])
  | .error message status => (e, [errorFrame message status])

end Emit

/-- `final_message`: the full non-streaming message, valid after `completed`. -/
def finalMessage (e : AnthropicEmitter) : Value :=
  .object [("id", .string e.messageId), ("type", .string "message"),
    ("role", .string "assistant"), ("model", .string e.model), ("content", .array e.finalBlocks),
    ("stop_reason", .string e.stopReason), ("stop_sequence", .null), ("usage", e.usageJson)]

/-! ## Closing what is open

Closing all open tools is what a done event for each of them would do. -/

section Close

variable (fromStr : String → Option Value)

/-- The open tools of the emitter. -/
def toolCloser : TreeMaps.Closer AnthropicEmitter ToolBlock SseFrame where
  entries := tools
  withEntries e m := { e with tools := m }
  finish := finishTool fromStr
  withEntries_entries _ := rfl
  entries_withEntries _ _ := rfl
  withEntries_withEntries _ _ _ := rfl
  finish_withEntries _ _ _ := rfl

/-- **Closing the open tools is a done event for each.** -/
theorem closeOpenTools_eq (e : AnthropicEmitter) :
    closeOpenTools fromStr e =
      Transducer.run (onEvent fromStr) e (e.tools.toList.map fun kt => .toolCallDone kt.1) :=
  (toolCloser fromStr).finish_all (fun s i t ht => by
    have ht : s.tools[i]? = some t := ht
    simp [onEvent, ht, toolCloser]) e

theorem closeOpenTools_of_empty {e : AnthropicEmitter} (h : e.tools = ∅) :
    closeOpenTools fromStr e = (e, []) :=
  (toolCloser fromStr).finish_of_empty h

end Close

end AnthropicEmitter

end AiApiBridge
