import AiApiBridge.Wire.ChatRequest

/-!
# Anthropic Messages requests

The inbound parser of `wire/anthropic.rs`. A user message made of blocks becomes
one tool message per `tool_result` block followed by one user message with the
text of all its `text` blocks; an assistant message made of blocks becomes one
assistant message. `toString` is the printer of `serde_json::Value`.
-/

set_option autoImplicit false

namespace AiApiBridge.Anthropic

open Chat (strOr asF32 parseModel)

/-- Join the text members of system blocks by newlines. -/
def joinSystem (out : String) (b : Value) : String :=
  match (b.get "text").bind Value.asStr with
  | some t => if out = "" then t else out ++ "\n" ++ t
  | none => out

def parseSystem : Option Value → Option String
  | some (.string s) => some s
  | some (.array arr) =>
      let out := arr.foldl joinSystem ""
      if out = "" then none else some out
  | _ => none

/-- The text of a tool result. -/
def blockText (toString : Value → String) : Option Value → String
  | some (.string s) => s
  | some (.array blocks) =>
      String.join (blocks.filterMap fun b => (b.get "text").bind Value.asStr)
  | some other => toString other
  | none => ""

/-- The type tag of a block. -/
def blockType (b : Value) : Option String := (b.get "type").bind Value.asStr

/-- Read one block of a user message: the text gathered so far, and the messages
with a tool result appended. -/
def parseUserBlock (toString : Value → String) (acc : String × List Message) (b : Value) :
    String × List Message :=
  if blockType b = some "text" then
    (acc.1 ++ strOr b "text" "", acc.2)
  else if blockType b = some "tool_result" then
    (acc.1, acc.2 ++ [.tool (strOr b "tool_use_id" "") (blockText toString (b.get "content"))])
  else acc

/-- What the blocks of an assistant message add up to. -/
structure AssistantParts where
  text : Option String
  reasoningContent : Option String
  toolCalls : List ToolCall
  deriving DecidableEq, Repr

/-- Read one block of an assistant message. Text blocks are concatenated; the
last non-empty thinking block is the reasoning. -/
def parseAssistantBlock (toString : Value → String) (acc : AssistantParts) (b : Value) :
    AssistantParts :=
  if blockType b = some "text" then
    { acc with text := some (acc.text.getD "" ++ strOr b "text" "") }
  else if blockType b = some "thinking" then
    let t := strOr b "thinking" ""
    if t = "" then acc else { acc with reasoningContent := some t }
  else if blockType b = some "tool_use" then
    { acc with toolCalls := acc.toolCalls ++
        [⟨strOr b "id" "", strOr b "name" "", ((b.get "input").map toString).getD "{}"⟩] }
  else acc

/-- The assistant message of the gathered parts. A turn with reasoning only gets
an empty text, since an upstream wants content or calls. -/
def AssistantParts.message (p : AssistantParts) : Message :=
  let text := if p.text = none ∧ p.toolCalls = [] ∧ p.reasoningContent ≠ none then some ""
    else p.text
  .assistant text p.reasoningContent p.toolCalls

/-- Read one message; other roles are skipped. -/
def parseMessage (toString : Value → String) (role : String) (content : Option Value)
    (messages : List Message) : List Message :=
  if role = "user" then
    match content with
    | some (.string s) => messages ++ [.user s]
    | some (.array blocks) =>
        let r := blocks.foldl (parseUserBlock toString) ("", messages)
        if r.1 = "" then r.2 else r.2 ++ [.user r.1]
    | _ => messages
  else if role = "assistant" then
    let parts : AssistantParts := match content with
      | some (.string s) => ⟨some s, none, []⟩
      | some (.array blocks) => blocks.foldl (parseAssistantBlock toString) ⟨none, none, []⟩
      | _ => ⟨none, none, []⟩
    messages ++ [parts.message]
  else messages

/-- Parse `tools`; entries without a name are dropped. -/
def parseTools : Option Value → List ToolDef
  | some (.array arr) => arr.filterMap fun t =>
      ((t.get "name").bind Value.asStr).map fun name =>
        { name
          description := (t.get "description").bind Value.asStr
          parameters := (t.get "input_schema").getD .null }
  | _ => []

def parseToolChoice (v : Option Value) : ToolChoice :=
  match v.bind fun t => (t.get "type").bind Value.asStr with
  | some "any" => .required
  | some "none" => .none
  | some "tool" =>
      match v.bind fun t => (t.get "name").bind Value.asStr with
      | some name => .function name
      | none => .auto
  | _ => .auto

/-- Parse an Anthropic Messages request body. -/
def parseRequest (toString : Value → String) (body : Value) :
    Except BridgeError CanonicalRequest := do
  let (obj, model) ← parseModel body
  let entries := ((obj.lookup "messages").bind Value.asArray).getD []
  let messages := entries.foldl
    (fun acc m => parseMessage toString (strOr m "role" "user") (m.get "content") acc) []
  return {
    model
    system := parseSystem (obj.lookup "system")
    messages
    tools := parseTools (obj.lookup "tools")
    toolChoice := parseToolChoice (obj.lookup "tool_choice")
    temperature := (obj.lookup "temperature").bind asF32
    topP := (obj.lookup "top_p").bind asF32
    maxOutputTokens := ((obj.lookup "max_tokens").bind Value.asU64).map asU32
    reasoningEffort := if ((obj.lookup "thinking").bind fun t => (t.get "type").bind Value.asStr) =
        some "enabled" then some .high else none
    parallelToolCalls := none
    stream := ((obj.lookup "stream").bind Value.asBool).getD false }

end AiApiBridge.Anthropic
