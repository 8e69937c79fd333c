import AiApiBridge.Wire.Frame
import AiApiBridge.Config

/-!
# Chat Completions requests

The outbound request builder and the inbound request parser of `wire/chat.rs`.
`buildRequest` is the one place where a canonical request becomes an upstream
body; on the way `normalizeToolParents` gives every tool result without an
announcing assistant a synthesized one.
-/

set_option autoImplicit false

namespace AiApiBridge.Chat

/-! ## Tool parents -/

/-- The assistant message synthesized in front of a tool result. -/
def synthesizedParent (callId : String) : Message :=
  .assistant none (some "") [⟨callId, "_", "{}"⟩]

/-- The non-empty ids an assistant's calls announce. -/
def announcedBy (toolCalls : List ToolCall) : List String :=
  (toolCalls.map ToolCall.callId).filter fun id => id ≠ ""

/-- The pass of `normalize_tool_parents`: `announced` holds every non-empty id
that an assistant, real or synthesized, has claimed so far. -/
def normalizeLoop (announced : List String) : List Message → List Message
  | [] => []
  | .assistant text reasoning calls :: ms =>
      .assistant text reasoning calls :: normalizeLoop (announced ++ announcedBy calls) ms
  | .tool callId output :: ms =>
      if callId = "" ∨ callId ∉ announced then
        synthesizedParent callId :: .tool callId output ::
          normalizeLoop (if callId = "" then announced else announced ++ [callId]) ms
      else .tool callId output :: normalizeLoop announced ms
  | .user text :: ms => .user text :: normalizeLoop announced ms

/-- Whether a message is a tool result. -/
def isTool : Message → Bool
  | .tool _ _ => true
  | _ => false

/-- Ensure every tool message has a preceding assistant carrying a matching
call. Without tool messages there is nothing to fix. -/
def normalizeToolParents (msgs : List Message) : List Message :=
  if msgs.any isTool then normalizeLoop [] msgs else msgs

/-! ## Schema repair -/

/-- The type that replaces a `null` one, if any. -/
def repairedType (isRoot : Bool) (m : Map) : Option String :=
  if isRoot || m.containsKey "properties" then some "object"
  else if m.containsKey "items" then some "array"
  else none

/-- Repair the `type` member of one schema node. -/
def repairType (isRoot : Bool) (m : Map) : Map :=
  let m := if m.lookup "type" = some .null then
      match repairedType isRoot m with
      | some t => m.insert "type" (.string t)
      | none => m.remove "type"
    else m
  if isRoot && !m.containsKey "type" then m.insert "type" (.string "object") else m

mutual

/-- Repair a schema node and everything below it. The source rewrites a node's
`type` before it visits the children; it writes a string or removes a `null`
there, which the visit leaves as they are (`sanitizeSchema_object`). -/
def sanitizeSchema (isRoot : Bool) : Value → Value
  | .object m => .object (repairType isRoot (sanitizeMembers m))
  | .array items => .array (sanitizeItems items)
  | v => v

def sanitizeItems : List Value → List Value
  | [] => []
  | v :: vs => sanitizeSchema false v :: sanitizeItems vs

def sanitizeMembers : List (String × Value) → List (String × Value)
  | [] => []
  | (k, v) :: m => (k, sanitizeSchema false v) :: sanitizeMembers m

end

theorem lookup_sanitizeMembers (m : Map) (key : String) :
    List.lookup key (sanitizeMembers m) = (List.lookup key m).map (sanitizeSchema false) := by
  induction m with
  | nil => simp [sanitizeMembers]
  | cons kv m ih =>
      rcases kv with ⟨k, v⟩
      by_cases h : key = k <;> simp [sanitizeMembers, h, ih]

theorem sanitizeMembers_insert (m : Map) (key s : String) :
    sanitizeMembers (m.insert key (.string s)) =
      Map.insert (sanitizeMembers m) key (.string s) := by
  induction m with
  | nil => simp [Map.insert, sanitizeMembers, sanitizeSchema]
  | cons kv m ih =>
      rcases kv with ⟨k, v⟩
      by_cases h : k = key <;> simp [Map.insert, sanitizeMembers, sanitizeSchema, h, ih]

theorem sanitizeMembers_remove (m : Map) (key : String) :
    sanitizeMembers (m.remove key) = Map.remove (sanitizeMembers m) key := by
  induction m with
  | nil => rfl
  | cons kv m ih =>
      rcases kv with ⟨k, v⟩
      by_cases h : k = key <;> simp_all [Map.remove, sanitizeMembers]

theorem sanitizeSchema_eq_null (v : Value) : sanitizeSchema false v = .null ↔ v = .null := by
  cases v <;> simp [sanitizeSchema]

/-- Repairing the children first and the node after, as `sanitizeSchema` does,
is repairing the node first and its children after, as the source does. -/
theorem sanitizeSchema_object (isRoot : Bool) (m : Map) :
    sanitizeSchema isRoot (.object m) = .object (sanitizeMembers (repairType isRoot m)) := by
  -- the visit of the members keeps the keys, and with them every question the repair
  -- asks
  have hkey : ∀ key, Map.containsKey (sanitizeMembers m) key = m.containsKey key := by
    simp [Map.containsKey, lookup_sanitizeMembers]
  have hnull : (sanitizeMembers m).lookup "type" = some .null ↔ m.lookup "type" = some .null := by
    simp [lookup_sanitizeMembers, sanitizeSchema_eq_null]
  have htype : repairedType isRoot (sanitizeMembers m) = repairedType isRoot m := by
    simp [repairedType, hkey]
  rw [sanitizeSchema]
  congr 1
  simp only [repairType]
  simp only [hnull, htype]
  by_cases hn : m.lookup "type" = some .null
  · cases ht : repairedType isRoot m with
    | some t => by_cases hr : isRoot <;> simp [hn, hr, Map.containsKey, sanitizeMembers_insert]
    | none =>
        have hr : isRoot = false := by
          cases isRoot
          · rfl
          · simp [repairedType] at ht
        simp [hn, hr, sanitizeMembers_remove]
  · by_cases hc : isRoot && !m.containsKey "type" <;>
      simp [hn, hkey, hc, sanitizeMembers_insert]

/-- Repair a tool's parameter schema; anything but an object becomes an empty
object schema. -/
def sanitizeParameters (params : Value) : Value :=
  match params with
  | .object m => sanitizeSchema true (.object m)
  | _ => .object [("type", .string "object"), ("properties", .object [])]

/-! ## The request body -/

/-- A tool call as the upstream reads it. -/
def toolCallJson (tc : ToolCall) : Value :=
  .object [("id", .string tc.callId), ("type", .string "function"),
    ("function", .object [("name", .string tc.name), ("arguments", .string tc.arguments)])]

/-- A canonical message as the upstream reads it. -/
def messageJson : Message → Value
  | .user text => .object [("role", .string "user"), ("content", .string text)]
  | .assistant text reasoning calls =>
      .object ([("role", .string "assistant"), ("content", Value.ofOption text)] ++
        (match reasoning with
          | some rc => [("reasoning_content", .string rc)]
          | none => []) ++
        (if calls = [] then [] else [("tool_calls", .array (calls.map toolCallJson))]))
  | .tool callId output =>
      .object [("role", .string "tool"), ("tool_call_id", .string callId),
        ("content", .string output)]

/-- The system message, when there is one. -/
def systemJson : Option String → List Value
  | some sys => [.object [("role", .string "system"), ("content", .string sys)]]
  | none => []

/-- The `messages` array of the upstream body. -/
def messagesJson (req : CanonicalRequest) : List Value :=
  systemJson req.system ++ (normalizeToolParents req.messages).map messageJson

def toolJson (t : ToolDef) : Value :=
  .object [("type", .string "function"),
    ("function", .object [("name", .string t.name), ("description", Value.ofOption t.description),
      ("parameters", sanitizeParameters t.parameters)])]

def toolChoiceJson : ToolChoice → Value
  | .auto => .string "auto"
  | .none => .string "none"
  | .required => .string "required"
  | .function name =>
      .object [("type", .string "function"), ("function", .object [("name", .string name)])]

/-- A float as a JSON number; JSON has no other float than a finite one. -/
def floatJson : FloatValue → Value
  | .finite q => .number (.float q)
  | _ => .null

/-- `body.insert(key, ..)` when the field is set. -/
def insertSome {α : Type} (field : Option α) (key : String) (json : α → Value) (m : Map) : Map :=
  match field with
  | some a => m.insert key (json a)
  | none => m

/-- The body sent upstream. The token cap goes under the provider's own field
name, whatever that is. -/
def buildRequest (req : CanonicalRequest) (upstreamModel : String) (provider : Provider) : Value :=
  let body : Map := [("model", .string upstreamModel), ("messages", .array (messagesJson req))]
  let body := if req.tools = [] then body
    else (body.insert "tools" (.array (req.tools.map toolJson))).insert "tool_choice"
      (toolChoiceJson req.toolChoice)
  let body := insertSome req.temperature "temperature" floatJson body
  let body := insertSome req.topP "top_p" floatJson body
  let body := insertSome req.maxOutputTokens provider.maxTokensField Value.ofNat body
  let body := insertSome req.reasoningEffort "reasoning_effort" (fun e => .string e.asStr) body
  let body := insertSome req.parallelToolCalls "parallel_tool_calls" .bool body
  let body := if req.stream then
      (body.insert "stream" (.bool true)).insert "stream_options"
        (.object [("include_usage", .bool true)])
    else body
  .object body

/-! ## The inbound parser -/

/-- `v.get(key).and_then(as_str).unwrap_or("")`. -/
def strOr (v : Value) (key : String) (default : String) : String :=
  ((v.get key).bind Value.asStr).getD default

/-- Parse the `tools` of a request; entries without a named function are
dropped. -/
def parseChatTools (v : Option Value) : List ToolDef :=
  ((v.bind Value.asArray).getD []).filterMap fun t =>
    (t.get "function").bind fun f =>
      ((f.get "name").bind Value.asStr).map fun name =>
        { name
          description := (f.get "description").bind Value.asStr
          parameters := (f.get "parameters").getD .null }

def parseChatToolChoice : Option Value → ToolChoice
  | some (.string s) => if s = "none" then .none else if s = "required" then .required else .auto
  | some (.object o) =>
      match (o.lookup "function").bind fun f => (f.get "name").bind Value.asStr with
      | some name => .function name
      | none => .auto
  | _ => .auto

/-- Parse an assistant's `tool_calls`; entries without a named function are
dropped. -/
def parseChatToolCalls (v : Option Value) : List ToolCall :=
  ((v.bind Value.asArray).getD []).filterMap fun tc =>
    (tc.get "function").bind fun f =>
      ((f.get "name").bind Value.asStr).map fun name =>
        { callId := strOr tc "id" "", name, arguments := strOr f "arguments" "" }

/-- The system text and the messages read so far, after one more entry of
`messages`. A later system message replaces an earlier one. -/
def parseChatMessage (acc : Option String × List Message) (m : Value) :
    Option String × List Message :=
  let role := strOr m "role" "user"
  let content := strOr m "content" ""
  if role = "system" ∨ role = "developer" then (some content, acc.2)
  else if role = "tool" then (acc.1, acc.2 ++ [.tool (strOr m "tool_call_id" "") content])
  else if role = "assistant" then
    let text := ((m.get "content").bind Value.asStr).filter fun s => s ≠ ""
    let reasoning := (m.get "reasoning_content").bind Value.asStr
    (acc.1, acc.2 ++ [.assistant text reasoning (parseChatToolCalls (m.get "tool_calls"))])
  else (acc.1, acc.2 ++ [.user content])

/-- `v.as_f64() as f32`. -/
def asF32 (v : Value) : Option FloatValue := v.asF64.map FloatValue.narrow

/-- The model of a request body, or the error the three parsers share. -/
def parseModel (body : Value) : Except BridgeError (Map × String) :=
  match body with
  | .object obj =>
      match (obj.lookup "model").bind Value.asStr with
      | some model => .ok (obj, model)
      | none => .error (.badRequest "missing `model`")
  | _ => .error (.badRequest "body must be a JSON object")

/-- Parse a Chat Completions request body. -/
def parseRequest (body : Value) : Except BridgeError CanonicalRequest := do
  let (obj, model) ← parseModel body
  let entries := ((obj.lookup "messages").bind Value.asArray).getD []
  let (system, messages) := entries.foldl parseChatMessage (none, [])
  return {
    model, system, messages
    tools := parseChatTools (obj.lookup "tools")
    toolChoice := parseChatToolChoice (obj.lookup "tool_choice")
    temperature := (obj.lookup "temperature").bind asF32
    -- neither `top_p` nor `reasoning_effort` is read
    topP := none
    maxOutputTokens := ((obj.lookup "max_tokens").bind Value.asU64).map asU32
    reasoningEffort := none
    parallelToolCalls := (obj.lookup "parallel_tool_calls").bind Value.asBool
    stream := ((obj.lookup "stream").bind Value.asBool).getD false }

end AiApiBridge.Chat
