import AiApiBridge.ChatRoundTrip
import AiApiBridge.ResponsesReplay

/-!
# One conversation in two dialects

A conversation written as the `messages` of a Chat Completions request and as the
`input` of a Responses request. The chat parser reads string contents only and keeps
the last system text; the item parser joins text parts, appends system texts, and
merges function calls into an assistant message that is last in the list. So the two
requests have the same canonical text exactly for the conversations of
`ReadsAlike` (`dialectsAgree_iff`).
-/

set_option autoImplicit false

namespace AiApiBridge.Dialects

open Chat (strOr parseChatMessage parseChatToolCalls toolCallJson parseModel)
open Responses (InputState appendSystem addCall parseInputItem partsText extractText outputText
  EndsPrompt)

/-- A text, as a plain string or as an array of text parts. -/
inductive Content where
  | plain (s : String)
  | parts (texts : List String)
  deriving DecidableEq, Repr

namespace Content

/-- The text itself. -/
def text : Content → String
  | plain s => s
  | parts texts => String.join texts

/-- What `as_str` reads of it. -/
def asPlain : Content → String
  | plain s => s
  | parts _ => ""

def json (partType : String) : Content → Value
  | plain s => .string s
  | parts texts => .array (texts.map fun t => .object [("type", .string partType), ("text", .string t)])

theorem length_asPlain_le (c : Content) : c.asPlain.length ≤ c.text.length := by
  cases c with
  | plain s => exact Nat.le_refl _
  | parts texts => exact Nat.zero_le _

end Content

/-- A turn of a conversation. -/
inductive Turn where
  | system (content : Content)
  | developer (content : Content)
  | user (content : Content)
  | assistant (content : Option Content) (calls : List ToolCall)
  | tool (callId : String) (output : Content)
  deriving DecidableEq, Repr

namespace Turn

/-- An assistant turn has a text that is not empty, or calls, or both. -/
def WellFormed : Turn → Prop
  | assistant (some c) _ => c.text ≠ ""
  | assistant none calls => calls ≠ []
  | _ => True

instance (t : Turn) : Decidable t.WellFormed := by
  simp only [WellFormed]
  split <;> infer_instance

/-! ## The two encodings -/

/-- The turn as an entry of `messages`. -/
def chatJson : Turn → Value
  | system c => .object [("role", .string "system"), ("content", c.json "text")]
  | developer c => .object [("role", .string "developer"), ("content", c.json "text")]
  | user c => .object [("role", .string "user"), ("content", c.json "text")]
  | assistant c calls =>
      .object ([("role", .string "assistant"), ("content", (c.map (Content.json "text")).getD .null)] ++
        if calls = [] then [] else [("tool_calls", .array (calls.map toolCallJson))])
  | tool callId output => .object [("role", .string "tool"), ("tool_call_id", .string callId),
      ("content", output.json "text")]

/-- A message item. -/
def messageItem (role partType : String) (c : Content) : Value :=
  .object [("type", .string "message"), ("role", .string role), ("content", c.json partType)]

/-- The turn as items of `input`. -/
def inputItems : Turn → List Value
  | system c => [messageItem "system" "input_text" c]
  | developer c => [messageItem "developer" "input_text" c]
  | user c => [messageItem "user" "input_text" c]
  | assistant c calls => (c.map (messageItem "assistant" "output_text")).toList ++ calls.map callItem
  | tool callId output => [.object [("type", .string "function_call_output"),
      ("call_id", .string callId), ("output", output.json "input_text")]]

/-! ## What a turn says -/

/-- The text a system or developer turn adds. -/
def systemContent : Turn → Option Content
  | system c => some c
  | developer c => some c
  | _ => none

/-- The message the chat parser makes of a turn. -/
def chatMessage : Turn → List Message
  | user c => [.user c.asPlain]
  | assistant c calls => [.assistant ((c.map Content.asPlain).filter fun s => s ≠ "") none calls]
  | tool callId output => [.tool callId output.asPlain]
  | _ => []

/-- The message the item parser makes of a turn that is not merged. -/
def inputMessage (toString : Value → String) : Turn → List Message
  | user c => [.user c.text]
  | assistant c calls => [.assistant (c.map Content.text) none calls]
  | tool callId output => [.tool callId (outputText toString (some (output.json "input_text")))]
  | _ => []

end Turn

/-- A Chat Completions request with the conversation. -/
def chatBody (model : String) (turns : List Turn) : Value :=
  .object [("model", .string model), ("messages", .array (turns.map Turn.chatJson))]

/-- A Responses request with the conversation. -/
def responsesBody (model : String) (turns : List Turn) : Value :=
  .object [("model", .string model), ("input", .array (turns.flatMap Turn.inputItems))]

/-- Both requests are read, with the same system text and the same messages. -/
def DialectsAgree (toString : Value → String) (model : String) (turns : List Turn) : Prop :=
  ∃ chat responses, Chat.parseRequest (chatBody model turns) = .ok chat ∧
    Responses.parseRequest toString (responsesBody model turns) = .ok responses ∧
    chat.system = responses.system ∧ chat.messages = responses.messages

/-! ## The chat parser -/

theorem asStr_json (c : Content) (partType : String) :
    ((c.json partType).asStr).getD "" = c.asPlain := by
  cases c <;> rfl

section Chat

attribute [local simp] parseChatMessage strOr Turn.chatJson Turn.systemContent Turn.chatMessage
  asStr_json

theorem parseChatMessage_chatJson (acc : Option String × List Message) (t : Turn) :
    parseChatMessage acc t.chatJson =
      ((t.systemContent.map Content.asPlain).or acc.1, acc.2 ++ t.chatMessage) := by
  cases t with
  | system c => simp
  | developer c => simp
  | user c => simp
  | tool callId output => simp
  | assistant c calls =>
      have hcalls : parseChatToolCalls ((Turn.assistant c calls).chatJson.get "tool_calls") =
          calls := by
        by_cases hempty : calls = []
        · simp [hempty, parseChatToolCalls]
        · simp [hempty, Chat.parseChatToolCalls_map]
      -- an empty text counts as none in both
      have htext : (((Turn.assistant c calls).chatJson.get "content").bind Value.asStr).filter
          (fun s => s ≠ "") = (c.map Content.asPlain).filter fun s => s ≠ "" := by
        rcases c with _ | (s | texts)
        · simp [Value.asStr]
        · simp [Content.json, Content.asPlain]
        · simp [Content.json, Content.asPlain, Value.asStr, Option.filter]
      have hreasoning : (Turn.assistant c calls).chatJson.get "reasoning_content" = none := by
        by_cases hempty : calls = [] <;> simp [hempty]
      have hrole : strOr (Turn.assistant c calls).chatJson "role" "user" = "assistant" := by simp
      simp only [parseChatMessage, hrole, hcalls, htext, hreasoning]
      simp

end Chat

/-- The texts of the system and developer turns. -/
def systemContents (turns : List Turn) : List Content := turns.filterMap Turn.systemContent

/-- The chat parser keeps the last system text and reads plain strings only. -/
theorem foldl_chatJson (turns : List Turn) (acc : Option String × List Message) :
    (turns.map Turn.chatJson).foldl parseChatMessage acc =
      (((systemContents turns).getLast?.map Content.asPlain).or acc.1,
        acc.2 ++ turns.flatMap Turn.chatMessage) := by
  induction turns generalizing acc with
  | nil => simp [systemContents]
  | cons t turns ih =>
      rw [List.map_cons, List.foldl_cons, parseChatMessage_chatJson, ih]
      cases h : t.systemContent with
      | none => simp [systemContents, h]
      | some c =>
          have hlast : (systemContents (t :: turns)).getLast? =
              (systemContents turns).getLast?.or (some c) := by
            rw [systemContents, List.filterMap_cons, h]
            cases hs : systemContents turns <;> simp_all [systemContents, List.getLast?_cons]
          rw [hlast]
          cases (systemContents turns).getLast? <;> simp

/-! ## The item parser -/

section Items

variable (toString : Value → String)

attribute [local simp] parseInputItem strOr Responses.strField Turn.messageItem
  Turn.systemContent Turn.inputMessage

theorem extractText_json (c : Content) (partType : String) :
    extractText (some (c.json partType)) = c.text := by
  rcases c with s | texts
  · rfl
  · simp [Content.json, extractText, partsText, Content.text, List.filterMap_map,
      Function.comp_def]

/-- The messages after function calls without a text before them: they join an
assistant message that is last. -/
def joinCalls (messages : List Message) (calls : List ToolCall) : List Message :=
  match messages.getLast? with
  | some (.assistant text reasoning cs) =>
      messages.dropLast ++ [.assistant text reasoning (cs ++ calls)]
  | _ => messages ++ [.assistant none none calls]

/-- The messages after a turn. -/
def readMessages (messages : List Message) : Turn → List Message
  | .assistant none calls => joinCalls messages calls
  | t => messages ++ t.inputMessage toString

/-- The system text after a turn. -/
def readSystem (system : Option String) (t : Turn) : Option String :=
  match t.systemContent with
  | some c => appendSystem system c.text
  | none => system

theorem foldl_calls_joinCalls (messages : List Message) (system : Option String)
    {calls : List ToolCall} (hcalls : calls ≠ []) :
    (calls.map callItem).foldl (parseInputItem toString) ⟨messages, system, none⟩ =
      ⟨joinCalls messages calls, system, none⟩ := by
  rw [joinCalls]
  split
  · rename_i text reasoning cs hlast
    obtain ⟨before, rfl⟩ := List.getLast?_eq_some_iff.1 hlast
    rw [Responses.foldl_calls, List.dropLast_concat]
  · rename_i hlast
    cases calls with
    | nil => exact absurd rfl hcalls
    | cons c cs =>
        have hends : EndsPrompt messages := fun text reasoning cs h => hlast text reasoning cs h
        rw [List.map_cons, List.foldl_cons, Responses.parseInputItem_call,
          Responses.addCall_opens hends, Responses.foldl_calls]
        rfl

/-- **One turn.** -/
theorem foldl_inputItems_turn (messages : List Message) (system : Option String) {t : Turn}
    (ht : t.WellFormed) :
    t.inputItems.foldl (parseInputItem toString) ⟨messages, system, none⟩ =
      ⟨readMessages toString messages t, readSystem system t, none⟩ := by
  cases t with
  | system c => simp [Turn.inputItems, readMessages, readSystem, extractText_json]
  | developer c => simp [Turn.inputItems, readMessages, readSystem, extractText_json]
  | user c => simp [Turn.inputItems, readMessages, readSystem, extractText_json]
  | tool callId output => simp [Turn.inputItems, readMessages, readSystem]
  | assistant c calls =>
      cases c with
      | none => exact foldl_calls_joinCalls toString messages system ht
      | some c =>
          have hmessage : parseInputItem toString ⟨messages, system, none⟩
              (Turn.messageItem "assistant" "output_text" c) =
                ⟨messages ++ [.assistant (some c.text) none []], system, none⟩ := by
            simp [extractText_json]
          simp only [Turn.inputItems, Option.map_some, Option.toList_some, List.singleton_append,
            List.foldl_cons, hmessage, Responses.foldl_calls]
          rfl

theorem foldl_inputItems (turns : List Turn) (hturns : ∀ t ∈ turns, t.WellFormed)
    (messages : List Message) (system : Option String) :
    (turns.flatMap Turn.inputItems).foldl (parseInputItem toString) ⟨messages, system, none⟩ =
      ⟨turns.foldl (readMessages toString) messages, turns.foldl readSystem system, none⟩ := by
  induction turns generalizing messages system with
  | nil => rfl
  | cons t turns ih =>
      rw [List.flatMap_cons, List.foldl_append,
        foldl_inputItems_turn toString messages system (hturns t List.mem_cons_self),
        ih fun t' ht' => hturns t' (List.mem_cons_of_mem t ht')]
      rfl

end Items

/-! ## The system text -/

theorem foldl_readSystem (turns : List Turn) (system : Option String) :
    turns.foldl readSystem system =
      (systemContents turns).foldl (fun acc c => appendSystem acc c.text) system := by
  induction turns generalizing system with
  | nil => rfl
  | cons t turns ih =>
      rw [List.foldl_cons, ih]
      cases h : t.systemContent <;> simp [systemContents, readSystem, h]

/-- Appended texts never become absent. -/
theorem foldl_appendSystem_some (cs : List Content) (s : String) :
    ∃ s', cs.foldl (fun acc c => appendSystem acc c.text) (some s) = some s' := by
  induction cs generalizing s with
  | nil => exact ⟨s, rfl⟩
  | cons c cs ih => exact ih _

/-- The last text is all of the text only when nothing was appended. -/
theorem system_agrees_iff (cs : List Content) :
    cs.getLast?.map Content.asPlain = cs.foldl (fun acc c => appendSystem acc c.text) none ↔
      cs.length ≤ 1 ∧ ∀ c ∈ cs, c.asPlain = c.text := by
  match cs with
  | [] => simp
  | [c] => simp [appendSystem]
  | c :: d :: cs =>
      have hlong : ¬ (c :: d :: cs).length ≤ 1 := by simp
      refine ⟨fun h => absurd h ?_, fun h => absurd h.1 hlong⟩
      -- the appended text is longer than the last one
      obtain ⟨before, last, hsplit⟩ : ∃ before last, d :: cs = before ++ [last] :=
        ⟨_, _, (List.dropLast_append_getLast (List.cons_ne_nil d cs)).symm⟩
      obtain ⟨s, hs⟩ := foldl_appendSystem_some before c.text
      rw [hsplit, ← List.cons_append, List.getLast?_concat, List.foldl_concat, List.foldl_cons,
        show appendSystem none c.text = some c.text from rfl, hs]
      intro h
      have hlength := congrArg String.length (Option.some.inj h)
      rw [String.length_append, String.length_append] at hlength
      have := last.length_asPlain_le
      have hline : ("\n" : String).length = 1 := rfl
      omega

/-! ## The messages -/

/-- Whether a list of messages ends in an assistant message. -/
def endsAssistant (messages : List Message) : Bool :=
  match messages.getLast? with
  | some (.assistant _ _ _) => true
  | _ => false

namespace Turn

/-- An assistant turn of calls only, which joins an assistant message before it. -/
def joins : Turn → Bool
  | assistant none _ => true
  | _ => false

/-- Whether an assistant message is last after the turn; system turns leave it. -/
def leavesAssistant (last : Bool) : Turn → Bool
  | system _ => last
  | developer _ => last
  | assistant _ _ => true
  | _ => false

end Turn

/-- No assistant turn of calls only comes behind an assistant turn with nothing but
system turns in between. -/
def CallsApart (last : Bool) : List Turn → Prop
  | [] => True
  | t :: turns => (last && t.joins) = false ∧ CallsApart (t.leavesAssistant last) turns

instance decidableCallsApart : ∀ (last : Bool) (turns : List Turn), Decidable (CallsApart last turns)
  | _, [] => inferInstanceAs (Decidable True)
  | last, t :: turns =>
      @instDecidableAnd _ _ inferInstance (decidableCallsApart (t.leavesAssistant last) turns)

section Messages

variable (toString : Value → String)

/-- What a turn does to the list: it joins the last message, or adds its own. -/
theorem readMessages_cases (messages : List Message) (t : Turn) :
    endsAssistant (readMessages toString messages t) =
        t.leavesAssistant (endsAssistant messages) ∧
      if endsAssistant messages && t.joins then
        (readMessages toString messages t).length = messages.length
      else readMessages toString messages t = messages ++ t.inputMessage toString := by
  cases t with
  | system c => simp [readMessages, Turn.inputMessage, Turn.leavesAssistant, Turn.joins]
  | developer c => simp [readMessages, Turn.inputMessage, Turn.leavesAssistant, Turn.joins]
  | user c =>
      simp [readMessages, Turn.inputMessage, Turn.leavesAssistant, Turn.joins, endsAssistant]
  | tool callId output =>
      simp [readMessages, Turn.inputMessage, Turn.leavesAssistant, Turn.joins, endsAssistant]
  | assistant c calls =>
      cases c with
      | some c =>
          simp [readMessages, Turn.inputMessage, Turn.leavesAssistant, Turn.joins, endsAssistant]
      | none =>
          simp only [readMessages, Turn.inputMessage, Turn.leavesAssistant, Turn.joins, Bool.and_true]
          -- the one turn that may join the message in front of it
          rw [joinCalls]
          split
          · rename_i text reasoning cs hlast
            obtain ⟨before, rfl⟩ := List.getLast?_eq_some_iff.1 hlast
            simp [endsAssistant]
          · rename_i hlast
            have hends : endsAssistant messages = false := by
              rw [endsAssistant]
              split
              · rename_i text reasoning cs h
                exact absurd h (hlast text reasoning cs)
              · rfl
            simp only [hends, Bool.false_eq_true, if_false]
            simp [endsAssistant]

theorem length_readMessages_le (messages : List Message) (t : Turn) :
    (readMessages toString messages t).length ≤
      messages.length + (t.inputMessage toString).length := by
  have h := (readMessages_cases toString messages t).2
  split at h <;> rw [h]
  · exact Nat.le_add_right _ _
  · rw [List.length_append]

theorem length_foldl_readMessages_le (turns : List Turn) (messages : List Message) :
    (turns.foldl (readMessages toString) messages).length ≤
      messages.length + (turns.flatMap (Turn.inputMessage toString)).length := by
  induction turns generalizing messages with
  | nil => exact Nat.le_refl _
  | cons t turns ih =>
      have hturn := length_readMessages_le toString messages t
      have hrest := ih (readMessages toString messages t)
      rw [List.foldl_cons, List.flatMap_cons, List.length_append]
      omega

/-- Apart, every turn adds its own message. -/
theorem foldl_readMessages_of_apart {turns : List Turn} {messages : List Message}
    (h : CallsApart (endsAssistant messages) turns) :
    turns.foldl (readMessages toString) messages =
      messages ++ turns.flatMap (Turn.inputMessage toString) := by
  induction turns generalizing messages with
  | nil => simp
  | cons t turns ih =>
      obtain ⟨hends, hturn⟩ := readMessages_cases toString messages t
      rw [h.1, if_neg Bool.false_ne_true] at hturn
      have hrest := h.2
      rw [← hends] at hrest
      rw [List.foldl_cons, ih hrest, hturn, List.flatMap_cons, List.append_assoc]

/-- Otherwise some message is missing. -/
theorem length_foldl_readMessages_lt {turns : List Turn} {messages : List Message}
    (h : ¬ CallsApart (endsAssistant messages) turns) :
    (turns.foldl (readMessages toString) messages).length <
      messages.length + (turns.flatMap (Turn.inputMessage toString)).length := by
  induction turns generalizing messages with
  | nil => exact absurd trivial h
  | cons t turns ih =>
      obtain ⟨hends, hturn⟩ := readMessages_cases toString messages t
      rw [List.foldl_cons, List.flatMap_cons, List.length_append]
      cases hjoins : endsAssistant messages && t.joins with
      | true =>
          rw [hjoins, if_pos rfl] at hturn
          -- this turn is merged into the message before it, which makes one less
          have hrest := length_foldl_readMessages_le toString turns (readMessages toString messages t)
          have hone : (t.inputMessage toString).length = 1 := by
            rcases t with _ | _ | _ | ⟨_ | _, _⟩ | _ <;>
              simp_all [Turn.joins, Turn.inputMessage]
          omega
      | false =>
          -- the merge happens in a later turn
          have hapart : ¬ CallsApart (endsAssistant (readMessages toString messages t)) turns := by
            rw [hends]
            exact fun hapart => h ⟨hjoins, hapart⟩
          have hrest := ih hapart
          have hle := length_readMessages_le toString messages t
          omega

end Messages

/-! ## Agreement -/

namespace Turn

/-- Both parsers read the turn's text: it is a plain string, or parts that hold no
text at all. The output of a tool call has to be plain. -/
def Readable : Turn → Prop
  | system c => c.asPlain = c.text
  | developer c => c.asPlain = c.text
  | user c => c.asPlain = c.text
  | assistant (some c) _ => c.asPlain = c.text
  | assistant none _ => True
  | tool _ (.plain _) => True
  | tool _ (.parts _) => False

end Turn

/-- The conversations that both parsers read alike. -/
structure ReadsAlike (turns : List Turn) : Prop where
  oneSystem : (systemContents turns).length ≤ 1
  readable : ∀ t ∈ turns, t.Readable
  callsApart : CallsApart false turns

section Agreement

variable {toString : Value → String}

theorem message_agrees_iff (hprint : ∀ items, toString (.array items) ≠ "") {t : Turn}
    (ht : t.WellFormed) (hsystem : t.systemContent = none) :
    t.chatMessage = t.inputMessage toString ↔ t.Readable := by
  cases t with
  | system c => cases hsystem
  | developer c => cases hsystem
  | user c => simp [Turn.chatMessage, Turn.inputMessage, Turn.Readable]
  | tool callId output =>
      rcases output with s | texts
      · simp [Turn.chatMessage, Turn.inputMessage, Turn.Readable, Content.json, Content.asPlain,
          outputText]
      · -- a list of texts is read as its text by one and as its JSON by the other
        have hprinted := hprint (texts.map fun t =>
          .object [("type", .string "input_text"), ("text", .string t)])
        simpa [Turn.chatMessage, Turn.inputMessage, Turn.Readable, Content.json, Content.asPlain,
          outputText] using Ne.symm hprinted
  | assistant c calls =>
      rcases c with _ | c
      · simp [Turn.chatMessage, Turn.inputMessage, Turn.Readable]
      · have hne : c.text ≠ "" := ht
        by_cases hplain : c.asPlain = ""
        · simp [Turn.chatMessage, Turn.inputMessage, Turn.Readable, hplain, Option.filter,
            Ne.symm hne]
        · simp [Turn.chatMessage, Turn.inputMessage, Turn.Readable, hplain, Option.filter]

theorem length_messages (t : Turn) :
    t.chatMessage.length = (t.inputMessage toString).length := by
  cases t <;> rfl

/-- Two lists of messages agree turn by turn. -/
theorem flatMap_messages_iff (turns : List Turn) :
    turns.flatMap Turn.chatMessage = turns.flatMap (Turn.inputMessage toString) ↔
      ∀ t ∈ turns, t.chatMessage = t.inputMessage toString := by
  induction turns with
  | nil => simp
  | cons t turns ih =>
      rw [List.flatMap_cons, List.flatMap_cons, List.forall_mem_cons, ← ih]
      constructor
      · intro h
        exact List.append_inj h (length_messages t)
      · rintro ⟨h, hrest⟩
        rw [h, hrest]

/-- The messages of both readings. -/
theorem messages_agree_iff (turns : List Turn) :
    turns.flatMap Turn.chatMessage = turns.foldl (readMessages toString) [] ↔
      CallsApart false turns ∧ ∀ t ∈ turns, t.chatMessage = t.inputMessage toString := by
  have hends : endsAssistant [] = false := rfl
  by_cases hapart : CallsApart false turns
  · rw [foldl_readMessages_of_apart toString (by rwa [hends]), List.nil_append,
      flatMap_messages_iff]
    exact ⟨fun h => ⟨hapart, h⟩, And.right⟩
  · have hlt := length_foldl_readMessages_lt toString (by rwa [← hends] at hapart)
    have hlength : (turns.flatMap Turn.chatMessage).length =
        (turns.flatMap (Turn.inputMessage toString)).length := by
      rw [List.length_flatMap, List.length_flatMap]
      congr 1
      exact List.map_congr_left fun t _ => length_messages t
    refine ⟨fun h => ?_, fun h => absurd h.1 hapart⟩
    rw [← h, hlength, List.length_nil, Nat.zero_add] at hlt
    exact absurd hlt (Nat.lt_irrefl _)

/-- The parts of the two requests. -/
theorem dialectsAgree_iff_parts (model : String) {turns : List Turn}
    (hturns : ∀ t ∈ turns, t.WellFormed) :
    DialectsAgree toString model turns ↔
      (systemContents turns).getLast?.map Content.asPlain = turns.foldl readSystem none ∧
        turns.flatMap Turn.chatMessage = turns.foldl (readMessages toString) [] := by
  -- both bodies parse, so the agreement is one of two known requests
  have hchat : ∃ chat, Chat.parseRequest (chatBody model turns) = .ok chat ∧
      chat.system = (systemContents turns).getLast?.map Content.asPlain ∧
      chat.messages = turns.flatMap Turn.chatMessage := by
    have hparse : parseModel (chatBody model turns) =
        .ok ([("model", .string model), ("messages", .array (turns.map Turn.chatJson))], model) := by
      simp [chatBody, parseModel]
    have hmessages : (([("model", Value.string model),
        ("messages", Value.array (turns.map Turn.chatJson))] : Map).lookup "messages").bind
          Value.asArray = some (turns.map Turn.chatJson) := by simp
    rw [Chat.parseRequest]
    rw [hparse]
    simp only [bind, Except.bind, hmessages, Option.getD_some, foldl_chatJson]
    exact ⟨_, rfl, by simp, by simp⟩
  have hresponses : ∃ req, Responses.parseRequest toString (responsesBody model turns) = .ok req ∧
      req.system = turns.foldl readSystem none ∧
      req.messages = turns.foldl (readMessages toString) [] := by
    let obj : Map := [("model", .string model), ("input", .array (turns.flatMap Turn.inputItems))]
    have hinput : Responses.parseInput toString ((obj.lookup "instructions").bind Value.asStr)
        (obj.lookup "input") =
          .ok ⟨turns.foldl (readMessages toString) [], turns.foldl readSystem none, none⟩ := by
      rw [← foldl_inputItems toString turns hturns]
      simp [obj, Responses.parseInput]
    have hmodel : obj.lookup "model" = some (.string model) := by simp [obj]
    have htools : Responses.parseTools (obj.lookup "tools") = .ok [] := by
      simp [obj, Responses.parseTools]
    obtain ⟨req, hreq, hsystem, hmessages, -⟩ :=
      Responses.parseRequest_of_input hmodel hinput htools
    exact ⟨req, hreq, hsystem, hmessages⟩
  rcases hchat with ⟨chat, hchat, hsystem, hmessages⟩
  rcases hresponses with ⟨req, hreq, hsystem', hmessages'⟩
  rw [← hsystem, ← hmessages, ← hsystem', ← hmessages']
  constructor
  · rintro ⟨chat', req', hchat', hreq', hagree⟩
    rw [hchat] at hchat'
    rw [hreq] at hreq'
    cases hchat'
    cases hreq'
    exact hagree
  · intro hagree
    exact ⟨chat, req, hchat, hreq, hagree⟩

end Agreement

/-- **When the dialects agree.** With a printer that writes no array as an empty text,
the two requests of a conversation have the same system text and the same messages
exactly when the conversation reads alike. -/
theorem dialectsAgree_iff (toString : Value → String)
    (hprint : ∀ items, toString (.array items) ≠ "") (model : String) (turns : List Turn)
    (hturns : ∀ t ∈ turns, t.WellFormed) :
    DialectsAgree toString model turns ↔ ReadsAlike turns := by
  rw [dialectsAgree_iff_parts model hturns, foldl_readSystem, system_agrees_iff, messages_agree_iff]
  -- turn by turn: a system turn is read into the prompt, any other into a message
  have hmessage : (∀ c ∈ systemContents turns, c.asPlain = c.text) ∧
      (∀ t ∈ turns, t.chatMessage = t.inputMessage toString) ↔ ∀ t ∈ turns, t.Readable := by
    constructor
    · rintro ⟨hsystem, hmessages⟩ t ht
      cases hcontent : t.systemContent with
      | none => exact (message_agrees_iff hprint (hturns t ht) hcontent).1 (hmessages t ht)
      | some c =>
          have hc := hsystem c (List.mem_filterMap.2 ⟨t, ht, hcontent⟩)
          cases t <;> cases hcontent <;> exact hc
    · intro hreadable
      constructor
      · intro c hc
        obtain ⟨t, ht, hcontent⟩ := List.mem_filterMap.1 hc
        have hread := hreadable t ht
        cases t <;> cases hcontent <;> exact hread
      · intro t ht
        cases hcontent : t.systemContent with
        | none => exact (message_agrees_iff hprint (hturns t ht) hcontent).2 (hreadable t ht)
        | some c => cases t <;> cases hcontent <;> rfl
  constructor
  · rintro ⟨⟨hone, hsystem⟩, hapart, hmessages⟩
    exact ⟨hone, hmessage.1 ⟨hsystem, hmessages⟩, hapart⟩
  · rintro ⟨hone, hreadable, hapart⟩
    obtain ⟨hsystem, hmessages⟩ := hmessage.2 hreadable
    exact ⟨⟨hone, hsystem⟩, hapart, hmessages⟩

/-- A conversation with a system text, a call and its result. -/
def spokenTurns : List Turn :=
  [.system (.plain "be brief"), .user (.plain "hi"), .assistant none [⟨"c1", "f", "{}"⟩],
    .tool "c1" (.plain "42"), .assistant (some (.plain "done")) []]

theorem dialectsAgree_iff_spokenTurns :
    DialectsAgree (fun _ => "[]") "m" spokenTurns ↔ ReadsAlike spokenTurns :=
  dialectsAgree_iff (fun _ => "[]") (by simp) "m" spokenTurns (by decide)

/-- A user text in two parts: the chat parser reads an empty text. -/
theorem not_dialectsAgree_parts :
    ¬ DialectsAgree (fun _ => "[]") "m" [.user (.parts ["hello ", "there"])] := by
  rintro ⟨chat, responses, hchat, hresponses, -, hmessages⟩
  cases hchat
  cases hresponses
  revert hmessages
  decide

end AiApiBridge.Dialects
