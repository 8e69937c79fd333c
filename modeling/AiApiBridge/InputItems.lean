import AiApiBridge.ResponsesReplay

/-!
# Input items

The item loop of `parseRequest` in two steps: what an item is (`readItem`), and what the
item does to the messages (`InputState.read`). The loop changes the last message in place,
yet it keeps the trace: the texts, calls and results of the messages are those of the
items, in order (`trace_parseRequest`).
-/

set_option autoImplicit false

namespace AiApiBridge.Responses

open Chat (strOr)

/-! ## What an item is -/

/-- An input item, with what the parser reads of it. -/
inductive InputItem where
  | user (text : String)
  /-- A message of the system or the developer. -/
  | system (text : String)
  | assistant (text : String)
  | functionCall (call : ToolCall)
  | functionCallOutput (callId output : String)
  | reasoning (summary : String)
  | unknown
  deriving DecidableEq, Repr

/-- An item without a type is a message. A message is the user's unless it says
otherwise. -/
def readItem (toString : Value → String) (item : Value) : InputItem :=
  let kind := strOr item "type" "message"
  if kind = "message" then
    let role := strOr item "role" "user"
    let text := extractText (item.get "content")
    if role = "system" ∨ role = "developer" then .system text
    else if role = "assistant" then .assistant text
    else .user text
  else if kind = "function_call" then
    .functionCall ⟨strField item "call_id", strField item "name", strField item "arguments"⟩
  else if kind = "function_call_output" then
    .functionCallOutput (strField item "call_id") (outputText toString (item.get "output"))
  else if kind = "reasoning" then .reasoning (summaryText item)
  else .unknown

/-! ## What an item does -/

/-- One item of the loop. -/
def InputState.read (st : InputState) : InputItem → InputState
  | .user text =>
      { st with messages := st.messages ++ [.user text], pendingReasoning := none }
  | .system text => { st with system := appendSystem st.system text }
  | .assistant text =>
      { st with
        messages := st.messages ++ [.assistant (some text) st.pendingReasoning []]
        pendingReasoning := none }
  | .functionCall call => addCall st call
  | .functionCallOutput callId output =>
      { st with messages := st.messages ++ [.tool callId output], pendingReasoning := none }
  | .reasoning summary => if summary = "" then st else { st with pendingReasoning := some summary }
  | .unknown => st

/-- **The parser reads an item** and does what the item says. -/
theorem parseInputItem_eq (toString : Value → String) (st : InputState) (item : Value) :
    parseInputItem toString st item = st.read (readItem toString item) := by
  simp only [parseInputItem, readItem]
  split
  · split
    · rfl
    · split <;> rfl
  · split
    · rfl
    · split
      · rfl
      · split <;> rfl

/-- The state behind a list of items. -/
def readItems (system : Option String) (items : List InputItem) : InputState :=
  items.foldl InputState.read ⟨[], system, none⟩

theorem foldl_parseInputItem (toString : Value → String) (system : Option String)
    (items : List Value) :
    items.foldl (parseInputItem toString) ⟨[], system, none⟩ =
      readItems system (items.map (readItem toString)) := by
  have hread : parseInputItem toString = fun st item => st.read (readItem toString item) :=
    funext₂ (parseInputItem_eq toString)
  rw [hread, readItems, List.foldl_map]

/-- **A parsed request** has the messages and the system text behind its items. -/
theorem readItems_of_parseRequest {toString : Value → String} {obj : Map} {items : List Value}
    {req : CanonicalRequest} (hinput : obj.lookup "input" = some (.array items))
    (h : parseRequest toString (.object obj) = .ok req) :
    req.messages = (readItems ((obj.lookup "instructions").bind Value.asStr)
        (items.map (readItem toString))).messages ∧
      req.system = (readItems ((obj.lookup "instructions").bind Value.asStr)
        (items.map (readItem toString))).system := by
  rw [← foldl_parseInputItem]
  rw [parseRequest, Chat.parseModel] at h
  cases hmodel : (obj.lookup "model").bind Value.asStr with
  | none => simp [hmodel, bind, Except.bind] at h
  | some model =>
      -- tools that cannot be read fail the request
      cases htools : parseTools (obj.lookup "tools") with
      | error e => simp [hmodel, hinput, parseInput, htools, bind, Except.bind] at h
      | ok tools =>
          simp only [hmodel, hinput, parseInput, htools, bind, Except.bind, pure, Except.pure] at h
          obtain rfl := Except.ok.inj h
          exact ⟨rfl, rfl⟩

/-! ## Traces -/

/-- What a transcript says. -/
inductive Utterance where
  | userText (text : String)
  | assistantText (text : String)
  | toolCall (call : ToolCall)
  | toolResult (callId output : String)
  deriving DecidableEq, Repr

/-- What a message says: an assistant's text comes before its calls. -/
def utterances : Message → List Utterance
  | .user text => [.userText text]
  | .assistant text _ calls => text.toList.map .assistantText ++ calls.map .toolCall
  | .tool callId output => [.toolResult callId output]

/-- The trace of a message list. -/
def trace (messages : List Message) : List Utterance := messages.flatMap utterances

/-- What an item says. -/
def InputItem.utterance : InputItem → Option Utterance
  | .user text => some (.userText text)
  | .assistant text => some (.assistantText text)
  | .functionCall call => some (.toolCall call)
  | .functionCallOutput callId output => some (.toolResult callId output)
  | .system _ | .reasoning _ | .unknown => none

/-- The text an item adds to the system text. -/
def InputItem.systemText : InputItem → Option String
  | .system text => some text
  | _ => none

theorem trace_append (messages messages' : List Message) :
    trace (messages ++ messages') = trace messages ++ trace messages' :=
  List.flatMap_append

/-- A message list is what is in front of its last message, and that. -/
theorem dropLast_append_of_getLast? {messages : List Message} {m : Message}
    (h : messages.getLast? = some m) : messages = messages.dropLast ++ [m] := by
  obtain ⟨front, rfl⟩ := List.getLast?_eq_some_iff.1 h
  rw [List.dropLast_concat]

/-- **A merged call** comes behind everything said before. -/
theorem trace_addCall (st : InputState) (call : ToolCall) :
    trace (addCall st call).messages = trace st.messages ++ [.toolCall call] := by
  -- a call that is merged into the last message, whatever its reasoning becomes
  have hmerge : ∀ text reasoning reasoning' calls,
      st.messages.getLast? = some (.assistant text reasoning calls) →
      trace (st.messages.dropLast ++ [.assistant text reasoning' (calls ++ [call])]) =
        trace st.messages ++ [.toolCall call] := by
    intro text reasoning reasoning' calls hlast
    have hsplit := congrArg trace (dropLast_append_of_getLast? hlast)
    rw [hsplit, trace_append, trace_append, List.append_assoc]
    simp [trace, utterances]
  rw [addCall]
  split
  · rename_i text reasoning calls hlast
    exact hmerge text _ _ calls hlast
  · rename_i text calls hlast
    exact hmerge text _ _ calls hlast
  · rw [trace_append]
    simp [trace, utterances]

theorem system_addCall (st : InputState) (call : ToolCall) :
    (addCall st call).system = st.system := by
  rw [addCall]
  split <;> rfl

/-- **One item** says what it says behind the rest. -/
theorem trace_read (st : InputState) (x : InputItem) :
    trace (st.read x).messages = trace st.messages ++ x.utterance.toList := by
  cases x with
  | user text => exact trace_append _ _
  | system text => exact (List.append_nil _).symm
  | assistant text => exact trace_append _ _
  | functionCall call => exact trace_addCall st call
  | functionCallOutput callId output => exact trace_append _ _
  | reasoning summary =>
      rw [InputState.read]
      split <;> exact (List.append_nil _).symm
  | unknown => exact (List.append_nil _).symm

theorem system_read (st : InputState) (x : InputItem) :
    (st.read x).system =
      x.systemText.toList.foldl (fun s text => appendSystem s text) st.system := by
  cases x with
  | functionCall call => exact system_addCall st call
  | reasoning summary =>
      rw [InputState.read]
      split <;> rfl
  | _ => rfl

/-- Lines joined by newlines; nothing without a line. -/
def joinLines : List String → Option String
  | [] => none
  | lines => some ("\n".intercalate lines)

theorem joinLines_concat (lines : List String) (text : String) :
    joinLines (lines ++ [text]) = appendSystem (joinLines lines) text := by
  cases lines with
  | nil => exact congrArg some String.intercalate_singleton
  | cons line lines =>
      have happend : "\n".intercalate (line :: lines ++ [text]) =
          "\n".intercalate (line :: lines) ++ "\n" ++ text := by
        rw [String.intercalate_append_of_ne_nil (List.cons_ne_nil _ _) (List.cons_ne_nil _ _),
          String.intercalate_singleton]
      exact congrArg some happend

/-- **The loop keeps the trace.** -/
theorem trace_readItems (system : Option String) (items : List InputItem) :
    trace (readItems system items).messages = items.filterMap InputItem.utterance := by
  induction items using List.reverseRecOn with
  | nil => rfl
  | append_singleton items x ih =>
      have hsnoc : readItems system (items ++ [x]) = (readItems system items).read x :=
        List.foldl_append
      rw [hsnoc, trace_read, ih, List.filterMap_append]
      cases hx : x.utterance <;> simp [hx]

/-- **The loop keeps the system texts.** -/
theorem system_readItems (system : Option String) (items : List InputItem) :
    (readItems system items).system =
      joinLines (system.toList ++ items.filterMap InputItem.systemText) := by
  induction items using List.reverseRecOn with
  | nil => cases system <;> simp [readItems, joinLines]
  | append_singleton items x ih =>
      have hsnoc : readItems system (items ++ [x]) = (readItems system items).read x :=
        List.foldl_append
      rw [hsnoc, system_read, ih, List.filterMap_append, ← List.append_assoc]
      -- only the texts of the system and the developer change it
      cases hx : x.systemText with
      | none => simp [hx]
      | some text => simp [hx, ← joinLines_concat]

/-- **Nothing is lost, doubled or moved** by the item loop. -/
theorem trace_parseRequest {toString : Value → String} {obj : Map} {items : List Value}
    {req : CanonicalRequest} (hinput : obj.lookup "input" = some (.array items))
    (h : parseRequest toString (.object obj) = .ok req) :
    trace req.messages = (items.map (readItem toString)).filterMap InputItem.utterance ∧
      req.system = joinLines (((obj.lookup "instructions").bind Value.asStr).toList ++
        (items.map (readItem toString)).filterMap InputItem.systemText) := by
  obtain ⟨hmessages, hsystem⟩ := readItems_of_parseRequest hinput h
  rw [hmessages, hsystem]
  exact ⟨trace_readItems _ _, system_readItems _ _⟩

/-- Two calls behind an assistant text, and a developer text between them. -/
def weatherItems : List Value :=
  [.object [("role", .string "user"), ("content", .string "weather?")],
    .object [("type", .string "reasoning"), ("summary", .array [.object [("text", .string "hm")]])],
    .object [("role", .string "assistant"), ("content", .array [.object [("text",
      .string "let me look")]])],
    .object [("type", .string "function_call"), ("call_id", .string "c1"), ("name",
      .string "rain"), ("arguments", .string "")],
    .object [("role", .string "developer"), ("content", .string "be polite")],
    .object [("type", .string "function_call"), ("call_id", .string "c2"), ("name",
      .string "wind"), ("arguments", .string "")],
    .object [("type", .string "function_call_output"), ("call_id", .string "c1"), ("output",
      .string "none")],
    .object [("type", .string "web_search_call")]]

def weatherBody : Map :=
  [("model", .string "m"), ("instructions", .string "be brief"), ("input", .array weatherItems)]

theorem trace_parseRequest_weather :
    ∃ req, parseRequest (fun _ => "") (.object weatherBody) = .ok req ∧
      trace req.messages = [.userText "weather?", .assistantText "let me look",
        .toolCall ⟨"c1", "rain", ""⟩, .toolCall ⟨"c2", "wind", ""⟩, .toolResult "c1" "none"] ∧
      req.system = some "be brief\nbe polite" := by
  have hparsed : ∃ req, parseRequest (fun _ => "") (.object weatherBody) = .ok req := ⟨_, rfl⟩
  rcases hparsed with ⟨req, hreq⟩
  have hinput : weatherBody.lookup "input" = some (.array weatherItems) := rfl
  obtain ⟨htrace, hsystem⟩ := trace_parseRequest hinput hreq
  exact ⟨req, hreq, htrace.trans (by decide), hsystem.trans (by decide)⟩

end AiApiBridge.Responses
