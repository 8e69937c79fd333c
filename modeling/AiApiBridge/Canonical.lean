import AiApiBridge.Json
import AiApiBridge.Lib.FloatValue

/-!
# The canonical request and event model

Provider-neutral requests and streaming events (`canonical.rs`). Every wire
format is translated to and from these types.
-/

set_option autoImplicit false

namespace AiApiBridge

/-- A tool call of an assistant message. `arguments` is the raw JSON text. -/
structure ToolCall where
  callId : String
  name : String
  arguments : String
  deriving DecidableEq, Repr

/-- A message of the conversation. -/
inductive Message where
  | user (text : String)
  | assistant (text reasoningContent : Option String) (toolCalls : List ToolCall)
  | tool (callId output : String)
  deriving DecidableEq, Repr

/-- A tool definition. -/
structure ToolDef where
  name : String
  description : Option String
  parameters : Value
  deriving DecidableEq, Repr

inductive ToolChoice where
  | auto
  | none
  | required
  | function (name : String)
  deriving DecidableEq, Repr

inductive ReasoningEffort where
  | minimal
  | low
  | medium
  | high
  | xhigh
  deriving DecidableEq, Repr

namespace ReasoningEffort

def asStr : ReasoningEffort → String
  | minimal => "minimal"
  | low => "low"
  | medium => "medium"
  | high => "high"
  | xhigh => "xhigh"

def fromStrOpt (s : String) : Option ReasoningEffort :=
  if s = "minimal" then some minimal
  else if s = "low" then some low
  else if s = "medium" then some medium
  else if s = "high" then some high
  else if s = "xhigh" then some xhigh
  else none

/-- Every effort is read back from its own tag. -/
theorem fromStrOpt_asStr (e : ReasoningEffort) : fromStrOpt e.asStr = some e := by
  cases e <;> rfl

end ReasoningEffort

/-- A request in canonical form. `temperature` and `topP` are binary32 values;
`maxOutputTokens` is a `u32`. -/
structure CanonicalRequest where
  model : String
  system : Option String
  messages : List Message
  tools : List ToolDef
  toolChoice : ToolChoice
  temperature : Option FloatValue
  topP : Option FloatValue
  maxOutputTokens : Option Nat
  reasoningEffort : Option ReasoningEffort
  parallelToolCalls : Option Bool
  stream : Bool
  deriving DecidableEq, Repr

/-- The token counts of a completion, each a `u32`. -/
structure UsageCounts where
  inputTokens : Nat
  outputTokens : Nat
  totalTokens : Nat
  cachedInputTokens : Nat
  reasoningTokens : Nat
  deriving DecidableEq, Repr

/-- A provider-neutral streaming event. Tool indices are `u32`, the status is a
`u16`. -/
inductive CanonicalEvent where
  | created (responseId model : String)
  | reasoningDelta (text : String)
  | textDelta (text : String)
  | toolCallStart (index : Nat) (callId name : String)
  | toolCallArgsDelta (index : Nat) (delta : String)
  | toolCallDone (index : Nat)
  | usage (counts : UsageCounts)
  | completed
  | error (message : String) (status : Nat)
  deriving DecidableEq, Repr

/-- Whether an event reports a failure. -/
def CanonicalEvent.isError : CanonicalEvent → Bool
  | .error _ _ => true
  | _ => false

/-- The failures a handler answers with (`BridgeError`). -/
inductive BridgeError where
  | badRequest (message : String)
  | notFound (message : String)
  | conflict (message : String)
  | unauthorized (message : String)
  | unknownModel (message : String)
  | upstream (status : Nat) (message : String)
  | upstreamUnreachable (message : String)
  | notImplemented (message : String)
  | internal (message : String)
  deriving DecidableEq, Repr

end AiApiBridge
