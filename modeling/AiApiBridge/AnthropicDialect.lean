import AiApiBridge.AnthropicReplay
import AiApiBridge.Dialects

/-!
# A conversation of the Anthropic dialect

The same conversation written as an Anthropic Messages request and as a Chat Completions
request: content in blocks against plain texts, results inside user messages against messages
of their own, inputs as JSON against their text. Both requests are read as one canonical
request, up to an empty text of the assistant, which the chat parser takes for none
(`sameRequest`).
-/

set_option autoImplicit false

namespace AiApiBridge.Messages

open Chat (readBack messageJson toolCallJson toolChoiceJson parseModel strOr asF32)
open Dialects (Content)
open Anthropic (AssistantParts blockText blockType parseUserBlock parseAssistantBlock joinSystem)

/-! ## What is said -/

/-- A part of a user message: a text, or the result of a call. -/
inductive UserPart where
  | text (s : String)
  | result (callId : String) (output : Content)

/-- A part of a message of the assistant. -/
inductive AssistantPart where
  | text (s : String)
  | thinking (s signature : String)
  | call (callId name : String) (input : Value)

/-- A message, in one text or in parts. -/
inductive Turn where
  | userText (s : String)
  | user (parts : List UserPart)
  | assistantText (s : String)
  | assistant (parts : List AssistantPart)

namespace UserPart

def said : UserPart → Option String
  | text s => some s
  | result _ _ => none

def answer : UserPart → Option Message
  | text _ => none
  | result callId output => some (.tool callId output.text)

/-- The part as a block. -/
def block : UserPart → Value
  | text s => .object [("type", .string "text"), ("text", .string s)]
  | result callId output => .object [("type", .string "tool_result"),
      ("tool_use_id", .string callId), ("content", output.json "text")]

end UserPart

namespace AssistantPart

def said : AssistantPart → Option String
  | text s => some s
  | _ => none

def thought : AssistantPart → Option String
  | thinking s _ => Chat.nonEmpty s
  | _ => none

def called (toString : Value → String) : AssistantPart → Option ToolCall
  | call callId name input => some ⟨callId, name, toString input⟩
  | _ => none

/-- The part as a block. -/
def block : AssistantPart → Value
  | text s => .object [("type", .string "text"), ("text", .string s)]
  | thinking s signature => .object [("type", .string "thinking"), ("thinking", .string s),
      ("signature", .string signature)]
  | call callId name input => .object [("type", .string "tool_use"), ("id", .string callId),
      ("name", .string name), ("input", input)]

end AssistantPart

/-- The texts of parts put together, if there are any. -/
def joined (texts : List String) : Option String :=
  if texts = [] then none else some (String.join texts)

namespace Turn

/-- The messages a turn stands for: results before the text of a user, and the last thought of
the assistant. -/
def messages (toString : Value → String) : Turn → List Message
  | userText s => [.user s]
  | user parts => parts.filterMap UserPart.answer ++
      (Chat.nonEmpty (String.join (parts.filterMap UserPart.said))).toList.map .user
  | assistantText s => [.assistant (some s) none []]
  | assistant parts => [.assistant (joined (parts.filterMap AssistantPart.said))
      (parts.filterMap AssistantPart.thought).getLast?
      (parts.filterMap (AssistantPart.called toString))]

/-- The turn as an Anthropic message. -/
def anthropicJson : Turn → Value
  | userText s => .object [("role", .string "user"), ("content", .string s)]
  | user parts => .object [("role", .string "user"),
      ("content", .array (parts.map UserPart.block))]
  | assistantText s => .object [("role", .string "assistant"), ("content", .string s)]
  | assistant parts => .object [("role", .string "assistant"),
      ("content", .array (parts.map AssistantPart.block))]

end Turn

/-- What a client wants of a model. The members both dialects share are left as JSON. -/
structure Conversation where
  model : String
  system : List String
  turns : List Turn
  tools : List ToolDef
  toolChoice : ToolChoice
  temperature : Option Value
  maxTokens : Option Value
  stream : Option Value

/-- The texts of a system prompt as one. -/
def systemText (texts : List String) : Option String :=
  Chat.nonEmpty ("\n".intercalate (texts.dropWhile fun s => s = ""))

/-! ## The two encodings -/

/-- A member, when there is one. -/
def optional (key : String) (v : Option Value) : Map := (v.map fun v => (key, v)).toList

/-- A text block of a system prompt. -/
def systemBlock (s : String) : Value := .object [("type", .string "text"), ("text", .string s)]

def anthropicTool (t : ToolDef) : Value :=
  .object [("name", .string t.name), ("description", Value.ofOption t.description),
    ("input_schema", t.parameters)]

def anthropicChoice : ToolChoice → Value
  | .auto => .object [("type", .string "auto")]
  | .none => .object [("type", .string "none")]
  | .required => .object [("type", .string "any")]
  | .function name => .object [("type", .string "tool"), ("name", .string name)]

def chatTool (t : ToolDef) : Value :=
  .object [("type", .string "function"), ("function", .object [("name", .string t.name),
    ("description", Value.ofOption t.description), ("parameters", t.parameters)])]

namespace Conversation

/-- What both dialects say alike. -/
def shared (c : Conversation) : Map :=
  optional "temperature" c.temperature ++ optional "max_tokens" c.maxTokens ++
    optional "stream" c.stream

/-- The body of an Anthropic Messages request. -/
def anthropicBody (c : Conversation) : Value :=
  .object ([("model", .string c.model),
    ("system", .array (c.system.map systemBlock)),
    ("messages", .array (c.turns.map Turn.anthropicJson)),
    ("tools", .array (c.tools.map anthropicTool)),
    ("tool_choice", anthropicChoice c.toolChoice)] ++ c.shared)

/-- The body of a Chat Completions request. -/
def chatBody (toString : Value → String) (c : Conversation) : Value :=
  .object ([("model", .string c.model),
    ("messages", .array (Chat.systemJson (systemText c.system) ++
      (c.turns.flatMap (Turn.messages toString)).map messageJson)),
    ("tools", .array (c.tools.map chatTool)),
    ("tool_choice", toolChoiceJson c.toolChoice)] ++ c.shared)

end Conversation

/-! ## The Anthropic parser -/

theorem joinSystem_systemBlock (out s : String) :
    joinSystem out (systemBlock s) = if out = "" then s else out ++ "\n" ++ s := rfl

/-- Behind a text the blocks are appended line by line. -/
theorem foldl_joinSystem_of_ne {out : String} (h : out ≠ "") (texts : List String) :
    (texts.map systemBlock).foldl joinSystem out = "\n".intercalate (out :: texts) := by
  induction texts generalizing out with
  | nil => rw [List.map_nil, List.foldl_nil, String.intercalate_singleton]
  | cons s texts ih =>
      have hne : out ++ "\n" ++ s ≠ "" := by simp
      rw [List.map_cons, List.foldl_cons, joinSystem_systemBlock, if_neg h, ih hne,
        String.intercalate_cons_append, String.intercalate_cons_cons]

/-- Empty blocks at the start leave no line behind. -/
theorem foldl_joinSystem (texts : List String) :
    (texts.map systemBlock).foldl joinSystem "" =
      "\n".intercalate (texts.dropWhile fun s => s = "") := by
  induction texts with
  | nil => rfl
  | cons s texts ih =>
      rw [List.map_cons, List.foldl_cons, joinSystem_systemBlock, if_pos rfl]
      by_cases h : s = ""
      · rw [h, ih]
        rfl
      · rw [foldl_joinSystem_of_ne h, List.dropWhile_cons_of_neg (by simpa using h)]

theorem parseSystem_blocks (texts : List String) :
    Anthropic.parseSystem (some (.array (texts.map systemBlock))) = systemText texts := by
  rw [Anthropic.parseSystem, systemText, Chat.nonEmpty, foldl_joinSystem]

section Turns

variable (toString : Value → String)

theorem blockText_json (c : Content) : blockText toString (some (c.json "text")) = c.text := by
  cases c with
  | plain s => rfl
  | parts texts =>
      simp [Content.json, Content.text, blockText, List.filterMap_map, Function.comp_def]

theorem foldl_userBlocks (parts : List UserPart) (text : String) (messages : List Message) :
    (parts.map UserPart.block).foldl (parseUserBlock toString) (text, messages) =
      (text ++ String.join (parts.filterMap UserPart.said),
        messages ++ parts.filterMap UserPart.answer) := by
  induction parts generalizing text messages with
  | nil => simp
  | cons part parts ih =>
      rw [List.map_cons, List.foldl_cons]
      cases part with
      | text s =>
          have hblock : parseUserBlock toString (text, messages) (UserPart.text s).block =
              (text ++ s, messages) := by
            simp [parseUserBlock, UserPart.block, blockType, strOr]
          rw [hblock, ih]
          simp [UserPart.said, UserPart.answer, List.filterMap_cons, String.append_assoc]
      | result callId output =>
          have hblock : parseUserBlock toString (text, messages)
              (UserPart.result callId output).block =
                (text, messages ++ [.tool callId output.text]) := by
            simp [parseUserBlock, UserPart.block, blockType, strOr, blockText_json]
          rw [hblock, ih]
          simp [UserPart.said, UserPart.answer, List.filterMap_cons]

/-- What the parts of the assistant add up to. -/
def gathered (p : AssistantParts) (parts : List AssistantPart) : AssistantParts where
  text := if parts.filterMap AssistantPart.said = [] then p.text
    else some (p.text.getD "" ++ String.join (parts.filterMap AssistantPart.said))
  reasoningContent := (parts.filterMap AssistantPart.thought).getLast?.or p.reasoningContent
  toolCalls := p.toolCalls ++ parts.filterMap (AssistantPart.called toString)

theorem foldl_assistantBlocks (parts : List AssistantPart) (p : AssistantParts) :
    (parts.map AssistantPart.block).foldl (parseAssistantBlock toString) p =
      gathered toString p parts := by
  induction parts generalizing p with
  | nil => simp [gathered]
  | cons part parts ih =>
      rw [List.map_cons, List.foldl_cons, ih]
      cases part with
      | text s =>
          by_cases hs : parts.filterMap AssistantPart.said = [] <;>
            simp [gathered, parseAssistantBlock, AssistantPart.block, blockType, strOr, hs,
              AssistantPart.said, AssistantPart.thought, AssistantPart.called,
              List.filterMap_cons, String.append_assoc]
      | thinking s signature =>
          -- an empty thought does not replace an earlier one
          by_cases hs : s = ""
          · simp [gathered, parseAssistantBlock, AssistantPart.block, blockType, strOr, hs,
              AssistantPart.said, AssistantPart.thought, AssistantPart.called,
              List.filterMap_cons, Chat.nonEmpty]
          · cases hlast : (parts.filterMap AssistantPart.thought).getLast? <;>
              simp [gathered, parseAssistantBlock, AssistantPart.block, blockType, strOr, hs,
                AssistantPart.said, AssistantPart.thought, AssistantPart.called,
                List.filterMap_cons, Chat.nonEmpty, List.getLast?_cons, hlast]
      | call callId name input =>
          simp [gathered, parseAssistantBlock, AssistantPart.block, blockType, strOr,
            AssistantPart.said, AssistantPart.thought, AssistantPart.called, List.filterMap_cons]

/-- **One message.** -/
theorem exists_parseMessage (t : Turn) (messages : List Message) :
    ∃ read, Anthropic.parseMessage toString (strOr t.anthropicJson "role" "user")
        (t.anthropicJson.get "content") messages = messages ++ read ∧
      read.map readBack = (t.messages toString).map readBack := by
  cases t with
  | userText s => exact ⟨_, rfl, rfl⟩
  | assistantText s => exact ⟨_, rfl, rfl⟩
  | user parts =>
      refine ⟨(Turn.user parts).messages toString, ?_, rfl⟩
      have hparse : Anthropic.parseMessage toString "user"
          (some (.array (parts.map UserPart.block))) messages =
            messages ++ (Turn.user parts).messages toString := by
        rw [Anthropic.parseMessage, if_pos rfl]
        simp only [foldl_userBlocks, String.empty_append, Turn.messages, Chat.nonEmpty]
        split <;> simp
      exact hparse
  | assistant parts =>
      refine ⟨[(gathered toString ⟨none, none, []⟩ parts).message], ?_, ?_⟩
      · have hparse : Anthropic.parseMessage toString "assistant"
            (some (.array (parts.map AssistantPart.block))) messages =
              messages ++ [(gathered toString ⟨none, none, []⟩ parts).message] := by
          rw [Anthropic.parseMessage, if_neg (by decide), if_pos rfl]
          simp only [foldl_assistantBlocks]
        exact hparse
      · have htext : (gathered toString ⟨none, none, []⟩ parts).text =
            joined (parts.filterMap AssistantPart.said) := by
          simp [gathered, joined]
        -- a thought alone is given an empty text, which counts as none
        simp only [Turn.messages, AssistantParts.message, List.map_cons, List.map_nil, readBack,
          htext]
        split
        · rename_i hthought
          simp [gathered, hthought.1]
        · simp [gathered]

/-- All messages. -/
theorem exists_foldl_parseMessage (turns : List Turn) (messages : List Message) :
    ∃ read, (turns.map Turn.anthropicJson).foldl (fun acc m =>
        Anthropic.parseMessage toString (strOr m "role" "user") (m.get "content") acc) messages =
          messages ++ read ∧
      read.map readBack = (turns.flatMap (Turn.messages toString)).map readBack := by
  induction turns generalizing messages with
  | nil => exact ⟨[], (List.append_nil _).symm, rfl⟩
  | cons t turns ih =>
      obtain ⟨read, hparse, hread⟩ := exists_parseMessage toString t messages
      obtain ⟨rest, hparses, hrest⟩ := ih (messages ++ read)
      refine ⟨read ++ rest, ?_, ?_⟩
      · rw [List.map_cons, List.foldl_cons, hparse, hparses, List.append_assoc]
      · rw [List.map_append, List.flatMap_cons, List.map_append, hread, hrest]

end Turns

theorem parseTools_map (tools : List ToolDef) :
    Anthropic.parseTools (some (.array (tools.map anthropicTool))) = tools := by
  have hread : ∀ t : ToolDef, ((fun t : Value => ((t.get "name").bind Value.asStr).map fun name =>
      (⟨name, (t.get "description").bind Value.asStr, (t.get "input_schema").getD .null⟩ :
        ToolDef)) ∘ anthropicTool) t = some t := by
    rintro ⟨name, description, parameters⟩
    cases description <;> simp [anthropicTool, Value.ofOption, Value.asStr]
  rw [Anthropic.parseTools, List.filterMap_map, funext hread, List.filterMap_some]

theorem parseToolChoice_json (choice : ToolChoice) :
    Anthropic.parseToolChoice (some (anthropicChoice choice)) = choice := by
  cases choice <;> simp [anthropicChoice, Anthropic.parseToolChoice]

/-! ## The chat parser -/

theorem foldl_chatMessages (system : Option String) (msgs : List Message) :
    (Chat.systemJson system ++ msgs.map messageJson).foldl Chat.parseChatMessage (none, []) =
      (system, msgs.map readBack) := by
  rw [List.foldl_append, Chat.foldl_parseChatMessage]
  cases system <;> simp [Chat.systemJson, Chat.parseChatMessage, strOr]

theorem parseChatTools_chatTool (tools : List ToolDef) :
    Chat.parseChatTools (some (.array (tools.map chatTool))) = tools := by
  have hread : ∀ t : ToolDef, ((fun t : Value => (t.get "function").bind fun f =>
      ((f.get "name").bind Value.asStr).map fun name =>
        (⟨name, (f.get "description").bind Value.asStr, (f.get "parameters").getD .null⟩ :
          ToolDef)) ∘ chatTool) t = some t := by
    rintro ⟨name, description, parameters⟩
    cases description <;> simp [chatTool, Value.ofOption, Value.asStr]
  rw [Chat.parseChatTools, Option.bind_some, Value.asArray_array, Option.getD_some,
    List.filterMap_map, funext hread, List.filterMap_some]

/-! ## One request -/

theorem lookup_optional (key k : String) (v : Option Value) :
    List.lookup key (optional k v) = if key = k then v else none := by
  cases v with
  | none => simp [optional]
  | some v => by_cases h : key = k <;> simp [optional, h]

/-- The request both are read as, up to the messages. -/
def Conversation.request (c : Conversation) (messages : List Message) : CanonicalRequest where
  model := c.model
  system := systemText c.system
  messages := messages
  tools := c.tools
  toolChoice := c.toolChoice
  temperature := c.temperature.bind asF32
  topP := none
  maxOutputTokens := (c.maxTokens.bind Value.asU64).map asU32
  reasoningEffort := none
  parallelToolCalls := none
  stream := (c.stream.bind Value.asBool).getD false

section Bodies

variable (toString : Value → String) (c : Conversation)

attribute [local simp] Conversation.shared List.lookup_append lookup_optional

/-- The members of the Anthropic body. -/
theorem get_anthropicBody {obj : Map} (hobj : c.anthropicBody = .object obj) :
    obj.lookup "model" = some (.string c.model) ∧
    obj.lookup "system" = some (.array (c.system.map systemBlock)) ∧
    obj.lookup "messages" = some (.array (c.turns.map Turn.anthropicJson)) ∧
    obj.lookup "tools" = some (.array (c.tools.map anthropicTool)) ∧
    obj.lookup "tool_choice" = some (anthropicChoice c.toolChoice) ∧
    obj.lookup "temperature" = c.temperature ∧ obj.lookup "max_tokens" = c.maxTokens ∧
    obj.lookup "stream" = c.stream ∧ obj.lookup "top_p" = none ∧
    obj.lookup "thinking" = none := by
  obtain rfl : _ = obj := Value.object.inj hobj
  simp

/-- The members of the chat body. -/
theorem get_chatBody {obj : Map} (hobj : c.chatBody toString = .object obj) :
    obj.lookup "model" = some (.string c.model) ∧
    obj.lookup "messages" = some (.array (Chat.systemJson (systemText c.system) ++
      (c.turns.flatMap (Turn.messages toString)).map messageJson)) ∧
    obj.lookup "tools" = some (.array (c.tools.map chatTool)) ∧
    obj.lookup "tool_choice" = some (toolChoiceJson c.toolChoice) ∧
    obj.lookup "temperature" = c.temperature ∧ obj.lookup "max_tokens" = c.maxTokens ∧
    obj.lookup "stream" = c.stream ∧ obj.lookup "parallel_tool_calls" = none := by
  obtain rfl : _ = obj := Value.object.inj hobj
  simp

/-- **The Anthropic request.** -/
theorem exists_parseRequest_anthropicBody :
    ∃ read, Anthropic.parseRequest toString c.anthropicBody = .ok (c.request read) ∧
      read.map readBack = (c.turns.flatMap (Turn.messages toString)).map readBack := by
  obtain ⟨obj, hobj⟩ : ∃ obj, c.anthropicBody = .object obj := ⟨_, rfl⟩
  obtain ⟨hmodel, hsystem, hmessages, htools, hchoice, htemperature, hcap, hstream, htop,
    hthinking⟩ := get_anthropicBody c hobj
  obtain ⟨read, hparse, hread⟩ := exists_foldl_parseMessage toString c.turns []
  refine ⟨read, ?_, hread⟩
  have hentry : parseModel (.object obj) = .ok (obj, c.model) := by simp [parseModel, hmodel]
  rw [hobj, Anthropic.parseRequest, hentry]
  simp only [bind, Except.bind, pure, Except.pure, hmessages, hsystem, htools, hchoice,
    htemperature, hcap, hstream, htop, hthinking, Option.bind_some, Option.bind_none,
    Value.asArray_array, Option.getD_some, hparse, parseSystem_blocks, parseTools_map,
    parseToolChoice_json]
  rfl

/-- **The chat request.** -/
theorem parseRequest_chatBody : Chat.parseRequest (c.chatBody toString) =
    .ok (c.request ((c.turns.flatMap (Turn.messages toString)).map readBack)) := by
  obtain ⟨obj, hobj⟩ : ∃ obj, c.chatBody toString = .object obj := ⟨_, rfl⟩
  obtain ⟨hmodel, hmessages, htools, hchoice, htemperature, hcap, hstream, hparallel⟩ :=
    get_chatBody toString c hobj
  have hentry : parseModel (.object obj) = .ok (obj, c.model) := by simp [parseModel, hmodel]
  rw [hobj, Chat.parseRequest, hentry]
  simp only [bind, Except.bind, pure, Except.pure, hmessages, htools, hchoice, htemperature,
    hcap, hstream, hparallel, Option.bind_some, Option.bind_none, Value.asArray_array,
    Option.getD_some, foldl_chatMessages, parseChatTools_chatTool, Chat.parseChatToolChoice_json]
  rfl

end Bodies

/-- **One conversation, one request.** Whatever is said, the two requests are read, and as the
same one: model, system prompt, tools, tool choice, temperature, cap and stream are the same, and
the messages are, but that an empty text of the assistant is none to the chat parser. -/
theorem sameRequest (toString : Value → String) (c : Conversation) :
    ∃ chat anthropic, Chat.parseRequest (c.chatBody toString) = .ok chat ∧
      Anthropic.parseRequest toString c.anthropicBody = .ok anthropic ∧
      chat = { anthropic with messages := anthropic.messages.map readBack } := by
  obtain ⟨read, hparse, hread⟩ := exists_parseRequest_anthropicBody toString c
  refine ⟨_, c.request read, parseRequest_chatBody toString c, hparse, ?_⟩
  rw [← hread]
  rfl

end AiApiBridge.Messages
