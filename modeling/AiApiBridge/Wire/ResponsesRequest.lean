import AiApiBridge.Wire.ChatRequest

/-!
# Responses requests

The inbound parser of `wire/responses.rs`. The input items are read in order by
`parseInputItem`, which appends to the message list, merges a function call into
an assistant message that is last in it, and keeps the reasoning text that waits
for the assistant turn it belongs to. `toString` is the printer of
`serde_json::Value`.
-/

set_option autoImplicit false

namespace AiApiBridge.Responses

open Chat (strOr asF32 parseModel)

/-- What the item loop reads and writes. -/
structure InputState where
  messages : List Message
  system : Option String
  pendingReasoning : Option String
  deriving DecidableEq, Repr

/-- `str_field`. -/
def strField (v : Value) (key : String) : String := strOr v key ""

/-- The text members of a list of parts, concatenated. -/
def partsText (parts : List Value) : String :=
  String.join (parts.filterMap fun p => (p.get "text").bind Value.asStr)

def extractText : Option Value → String
  | some (.string s) => s
  | some (.array parts) => partsText parts
  | _ => ""

/-- Add a line to the system text. -/
def appendSystem (system : Option String) (text : String) : Option String :=
  match system with
  | some s => some (s ++ "\n" ++ text)
  | none => some text

/-- The effect of a function call on the messages: it joins an assistant message
that is last, which then adopts pending reasoning if it has none, or else opens
an assistant message of its own. -/
def addCall (st : InputState) (call : ToolCall) : InputState :=
  match st.messages.getLast? with
  -- a message that has its reasoning leaves the pending one pending
  | some (.assistant text (some reasoning) calls) =>
      { st with
        messages := st.messages.dropLast ++ [.assistant text (some reasoning) (calls ++ [call])] }
  | some (.assistant text none calls) =>
      { st with
        messages := st.messages.dropLast ++
          [.assistant text st.pendingReasoning (calls ++ [call])]
        pendingReasoning := none }
  | _ =>
      { st with
        messages := st.messages ++ [.assistant none st.pendingReasoning [call]]
        pendingReasoning := none }

/-- The text of a function call output. -/
def outputText (toString : Value → String) : Option Value → String
  | some (.string s) => s
  | some other => toString other
  | none => ""

/-- The summary text of a reasoning item. -/
def summaryText (item : Value) : String :=
  partsText (((item.get "summary").bind Value.asArray).getD [])

/-- Read one input item. -/
def parseInputItem (toString : Value → String) (st : InputState) (item : Value) : InputState :=
  let kind := strOr item "type" "message"
  if kind = "message" then
    let role := strOr item "role" "user"
    let text := extractText (item.get "content")
    if role = "system" ∨ role = "developer" then
      { st with system := appendSystem st.system text }
    else if role = "assistant" then
      { st with
        messages := st.messages ++ [.assistant (some text) st.pendingReasoning []]
        pendingReasoning := none }
    else
      { st with messages := st.messages ++ [.user text], pendingReasoning := none }
  else if kind = "function_call" then
    addCall st ⟨strField item "call_id", strField item "name", strField item "arguments"⟩
  else if kind = "function_call_output" then
    { st with
      messages := st.messages ++
        [.tool (strField item "call_id") (outputText toString (item.get "output"))]
      pendingReasoning := none }
  else if kind = "reasoning" then
    let text := summaryText item
    -- an empty summary does not replace the pending reasoning
    if text = "" then st else { st with pendingReasoning := some text }
  else st

/-- Parse `tools`: function tools must be named, other tools are skipped. -/
def parseTools : Option Value → Except BridgeError (List ToolDef)
  | some (.array arr) => go arr
  | _ => .ok []
where
  go : List Value → Except BridgeError (List ToolDef)
    | [] => .ok []
    | t :: ts =>
        if (t.get "type").bind Value.asStr = some "function" then
          match (t.get "name").bind Value.asStr with
          | none => .error (.badRequest "tool missing `name`")
          | some name => (go ts).map fun defs =>
              { name
                description := (t.get "description").bind Value.asStr
                parameters := (t.get "parameters").getD .null } :: defs
        else go ts

def parseToolChoice : Option Value → ToolChoice
  | some (.string s) => if s = "none" then .none else if s = "required" then .required else .auto
  | some (.object o) =>
      match (o.lookup "name").bind Value.asStr with
      | some name => .function name
      | none => .auto
  | _ => .auto

/-- The item loop over `input`, started from the system text given by
`instructions`. -/
def parseInput (toString : Value → String) (system : Option String) :
    Option Value → Except BridgeError InputState
  | some (.string s) => .ok ⟨[.user s], system, none⟩
  | some (.array items) => .ok (items.foldl (parseInputItem toString) ⟨[], system, none⟩)
  | some _ => .error (.badRequest "`input` must be string or array")
  | none => .ok ⟨[], system, none⟩

/-- Parse a Responses request body. -/
def parseRequest (toString : Value → String) (body : Value) :
    Except BridgeError CanonicalRequest := do
  let (obj, model) ← parseModel body
  let st ← parseInput toString ((obj.lookup "instructions").bind Value.asStr) (obj.lookup "input")
  let tools ← parseTools (obj.lookup "tools")
  return {
    model
    system := st.system
    messages := st.messages
    tools
    toolChoice := parseToolChoice (obj.lookup "tool_choice")
    temperature := (obj.lookup "temperature").bind asF32
    topP := (obj.lookup "top_p").bind asF32
    maxOutputTokens := ((obj.lookup "max_output_tokens").bind Value.asU64).map asU32
    reasoningEffort := ((obj.lookup "reasoning").bind fun r => (r.get "effort").bind Value.asStr).bind
      ReasoningEffort.fromStrOpt
    parallelToolCalls := (obj.lookup "parallel_tool_calls").bind Value.asBool
    stream := ((obj.lookup "stream").bind Value.asBool).getD false }

end AiApiBridge.Responses
