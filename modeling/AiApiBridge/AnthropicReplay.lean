import AiApiBridge.RebuiltMessage
import AiApiBridge.Transcript
import AiApiBridge.Wire.AnthropicRequest

/-!
# Replayed messages

An Anthropic client sends the conversation back with every request: the content
of each message it got, and user messages whose `tool_result` blocks answer the
calls of the message before them. The message parser turns each content array
into one assistant message again and puts the results of a user message before
its text, so every result directly follows the completion it answers
(`buildRequest_replayedMessages`).
-/

set_option autoImplicit false

namespace AiApiBridge.ClientBlock

/-- The thinking in a block, when it is not empty. -/
def thought : ClientBlock → Option String
  | thinking t _ => Chat.nonEmpty t
  | _ => none

/-- The text of a block. -/
def said : ClientBlock → Option String
  | text t => some t
  | _ => none

/-- The call of a block. -/
def called : ClientBlock → Option ToolCall
  | toolUse id name json => some ⟨id, name, json⟩
  | _ => none

@[simp] theorem thought_thinking (t s : String) : (thinking t s).thought = Chat.nonEmpty t := rfl

@[simp] theorem thought_text (t : String) : (text t).thought = none := rfl

@[simp] theorem thought_toolUse (id name json : String) : (toolUse id name json).thought = none := rfl

@[simp] theorem said_thinking (t s : String) : (thinking t s).said = none := rfl

@[simp] theorem said_text (t : String) : (text t).said = some t := rfl

@[simp] theorem said_toolUse (id name json : String) : (toolUse id name json).said = none := rfl

@[simp] theorem called_thinking (t s : String) : (thinking t s).called = none := rfl

@[simp] theorem called_text (t : String) : (text t).called = none := rfl

@[simp] theorem called_toolUse (id name json : String) :
    (toolUse id name json).called = some ⟨id, name, json⟩ := rfl

end AiApiBridge.ClientBlock

namespace AiApiBridge.Anthropic

open Chat (strOr Replayable Turn transcript Answers Prompts callIds assistantOf nonEmpty systemJson
  messageJson buildRequest)
open AnthropicEmitter (toolInput)

/-! ## Conversations -/

/-- Whether a block is a text block. -/
def isText (b : Value) : Bool := decide (blockType b = some "text")

/-- Whether a block is a tool result. -/
def isResult (b : Value) : Bool := decide (blockType b = some "tool_result")

/-- The id of the call that a tool result answers. -/
def resultId (b : Value) : String := strOr b "tool_use_id" ""

/-- The content of a user message: blocks with one tool result for each of the
calls before it, and text blocks in any positions. Where there are no calls it
may be a string. -/
def PromptContent (ids : List String) (content : Value) : Prop :=
  (ids = [] ∧ ∃ s, content = .string s) ∨
    ∃ blocks, content = .array blocks ∧ (∀ b ∈ blocks, isText b = true ∨ isResult b = true) ∧
      ((blocks.filter isResult).map resultId).Perm ids

/-- A prompt, and the upstream response that answered it. -/
structure Exchange where
  prompt : Value
  responseId : String
  resp : Value

/-- The completion of an exchange. -/
def Exchange.completion (x : Exchange) : Completion := completionOf x.resp

section Replay

variable (fromStr : String → Option Value) (toString : Value → String)

/-- The content a client replays for a response. -/
def Exchange.content (x : Exchange) : Value :=
  .array (contentBlocks (answeredMessage fromStr x.responseId x.resp))

/-- A conversation, with perhaps a last user message that waits for its answer. -/
def Conversation (ids : List String) : List Exchange → Option Value → Prop
  | [], last => ∀ content ∈ last, PromptContent ids content
  | x :: xs, last =>
      PromptContent ids x.prompt ∧ Replayable x.completion ∧
        (∀ c ∈ x.completion.calls, (fromStr c.arguments).isSome) ∧
        Conversation (callIds x.completion) xs last

/-- A message of the request. -/
def entry (role : String) (content : Value) : Value :=
  .object [("role", .string role), ("content", content)]

/-- The `messages` of a conversation. -/
def entries (xs : List Exchange) (last : Option Value) : List Value :=
  xs.flatMap (fun x => [entry "user" x.prompt, entry "assistant" (x.content fromStr)]) ++
    last.toList.map (entry "user")

/-- The text of a user message. -/
def promptText (blocks : List Value) : String :=
  String.join ((blocks.filter isText).map fun b => strOr b "text" "")

/-- A tool result as a message. -/
def resultMessage (b : Value) : Message := .tool (resultId b) (blockText toString (b.get "content"))

/-- A user message as messages: its results, then its text. -/
def promptMessages : Value → List Message
  | .string s => [.user s]
  | .array blocks =>
      (blocks.filter isResult).map (resultMessage toString) ++
        (nonEmpty (promptText blocks)).toList.map .user
  | _ => []

/-- A call whose arguments have been parsed and printed again. -/
def reprint (c : ToolCall) : ToolCall :=
  { c with arguments := toString (toolInput fromStr c.arguments) }

/-- A completion whose arguments have been parsed and printed again. -/
def reprinted (m : Completion) : Completion :=
  { m with calls := m.calls.map (reprint fromStr toString) }

/-- An exchange as a turn. -/
def Exchange.turn (x : Exchange) : Turn :=
  ⟨promptMessages toString x.prompt, reprinted fromStr toString x.completion⟩

@[simp] theorem callIds_reprinted (m : Completion) :
    callIds (reprinted fromStr toString m) = callIds m := by
  simp [callIds, reprinted, reprint, Function.comp_def]

/-! ## Parsing a user message -/

theorem foldl_parseUserBlock (blocks : List Value) (text : String) (messages : List Message) :
    blocks.foldl (parseUserBlock toString) (text, messages) =
      (text ++ promptText blocks,
        messages ++ (blocks.filter isResult).map (resultMessage toString)) := by
  induction blocks generalizing text messages with
  | nil => simp [promptText]
  | cons b blocks ih =>
      by_cases ht : blockType b = some "text"
      · simp [parseUserBlock, ht, ih, isText, isResult, promptText, String.append_assoc]
      · by_cases hr : blockType b = some "tool_result"
        · simp [parseUserBlock, hr, ih, isText, isResult, promptText, resultMessage, resultId]
        · simp [parseUserBlock, ht, hr, ih, isText, isResult, promptText]

theorem parseMessage_prompt {ids : List String} {content : Value} (h : PromptContent ids content)
    (messages : List Message) :
    parseMessage toString "user" (some content) messages =
      messages ++ promptMessages toString content := by
  rcases h with ⟨-, s, rfl⟩ | ⟨blocks, rfl, -, -⟩
  · rfl
  · rw [parseMessage, if_pos rfl]
    simp only [foldl_parseUserBlock]
    by_cases ht : promptText blocks = "" <;> simp [promptMessages, nonEmpty, ht]

/-! ## Parsing content blocks -/

/-- **What the blocks of a client parse to.** The texts are concatenated, of the
thinking the last piece is kept, and the calls follow each other. -/
theorem foldl_parseAssistantBlock (bs : List ClientBlock) (p : AssistantParts) :
    (bs.map (ClientBlock.toValue fromStr)).foldl (parseAssistantBlock toString) p =
      { text := if bs.filterMap ClientBlock.said = [] then p.text
          else some (p.text.getD "" ++ String.join (bs.filterMap ClientBlock.said))
        reasoningContent := (bs.filterMap ClientBlock.thought).getLast?.or p.reasoningContent
        toolCalls := p.toolCalls ++
          (bs.filterMap ClientBlock.called).map (reprint fromStr toString) } := by
  induction bs generalizing p with
  | nil => simp
  | cons b bs ih =>
      rw [List.map_cons, List.foldl_cons, ih]
      cases b with
      | thinking t s =>
          -- an empty thought does not replace an earlier one
          by_cases ht : t = ""
          · simp [parseAssistantBlock, ClientBlock.toValue, blockType, strOr, ht, nonEmpty,
              List.filterMap_cons]
          · cases hlast : (bs.filterMap ClientBlock.thought).getLast? <;>
              simp [parseAssistantBlock, ClientBlock.toValue, blockType, strOr, ht, nonEmpty,
                List.filterMap_cons, List.getLast?_cons, hlast]
      | text t =>
          -- texts are appended, whether more of them follow or not
          by_cases hs : bs.filterMap ClientBlock.said = []
          · simp [parseAssistantBlock, ClientBlock.toValue, AnthropicEmitter.textBlock, blockType,
              strOr, hs, List.filterMap_cons]
          · simp [parseAssistantBlock, ClientBlock.toValue, AnthropicEmitter.textBlock, blockType,
              strOr, hs, List.filterMap_cons, String.append_assoc]
      | toolUse id name json =>
          simp [parseAssistantBlock, ClientBlock.toValue, AnthropicEmitter.toolUseBlock, blockType,
            strOr, reprint, List.filterMap_cons]

/-- The blocks of a completion, kind by kind. -/
theorem filterMap_messageBlocks (m : Completion) :
    (messageBlocks m).filterMap ClientBlock.said = (nonEmpty m.content).toList ∧
      (messageBlocks m).filterMap ClientBlock.thought = (nonEmpty m.reasoning).toList ∧
      (messageBlocks m).filterMap ClientBlock.called = m.calls := by
  have hcalls : ∀ cs : List ToolCall, (cs.map callBlock).filterMap ClientBlock.said = [] ∧
      (cs.map callBlock).filterMap ClientBlock.thought = [] ∧
      (cs.map callBlock).filterMap ClientBlock.called = cs := by
    intro cs
    simp [List.filterMap_map, Function.comp_def, callBlock]
  obtain ⟨hsaid, hthought, hcalled⟩ := hcalls m.calls
  simp only [messageBlocks, List.filterMap_append, hsaid, hthought, hcalled]
  by_cases hr : m.reasoning = "" <;> by_cases hc : m.content = "" <;>
    simp [thinkingBlocks, textBlocks, nonEmpty, hr, hc, List.filterMap_cons]

/-- **The content of a message is one assistant message.** -/
theorem parseMessage_content {x : Exchange} (hx : Replayable x.completion)
    (messages : List Message) :
    parseMessage toString "assistant" (some (x.content fromStr)) messages =
      messages ++ [assistantOf (reprinted fromStr toString x.completion)] := by
  have hcontent : x.content fromStr =
      .array ((messageBlocks x.completion).map (ClientBlock.toValue fromStr)) := by
    rw [Exchange.content, answeredMessage_eq, contentBlocks_completionMessage, Exchange.completion]
  obtain ⟨hsaid, hthought, hcalled⟩ := filterMap_messageBlocks x.completion
  have hparts : ((messageBlocks x.completion).map (ClientBlock.toValue fromStr)).foldl
      (parseAssistantBlock toString) ⟨none, none, []⟩ =
        ⟨nonEmpty x.completion.content, nonEmpty x.completion.reasoning,
          x.completion.calls.map (reprint fromStr toString)⟩ := by
    rw [foldl_parseAssistantBlock, hsaid, hthought, hcalled]
    by_cases hc : x.completion.content = "" <;> by_cases hr : x.completion.reasoning = "" <;>
      simp [nonEmpty, hc, hr]
  rw [hcontent, parseMessage, if_neg (by decide), if_pos rfl]
  simp only [hparts]
  -- with content or calls there is no need for an empty text
  have hneed : ¬ (nonEmpty x.completion.content = none ∧
      x.completion.calls.map (reprint fromStr toString) = [] ∧
      nonEmpty x.completion.reasoning ≠ none) := by
    rintro ⟨hc, hcalls, -⟩
    have hc : x.completion.content = "" := by
      by_contra hne
      simp [nonEmpty, hne] at hc
    rcases hx.2 with h | h
    · exact h hc
    · exact h (List.map_eq_nil_iff.1 hcalls)
  rw [AssistantParts.message, if_neg hneed]
  rfl

/-! ## Parsing a conversation -/

variable {fromStr toString}

theorem PromptContent.prompts {ids : List String} {content : Value} (h : PromptContent ids content) :
    Prompts ids (promptMessages toString content) := by
  intro m hm
  rcases h with ⟨-, s, rfl⟩ | ⟨blocks, rfl, -, hperm⟩
  · rw [List.mem_singleton.1 hm]
    trivial
  · rcases List.mem_append.1 hm with hresult | htext
    · obtain ⟨b, hb, rfl⟩ := List.mem_map.1 hresult
      exact hperm.mem_iff.1 (List.mem_map_of_mem hb)
    · obtain ⟨text, -, rfl⟩ := List.mem_map.1 htext
      trivial

/-- The results of a conversation answer the calls before them. -/
theorem Conversation.answers {ids : List String} {xs : List Exchange} {last : Option Value}
    (h : Conversation fromStr ids xs last) :
    Answers ids (xs.map (Exchange.turn fromStr toString))
      (last.toList.flatMap (promptMessages toString)) := by
  induction xs generalizing ids with
  | nil =>
      cases last with
      | none => simp [Answers, Prompts]
      | some content => simpa [Answers] using PromptContent.prompts (h content rfl)
  | cons x xs ih =>
      rcases h with ⟨hprompt, hx, -, hrest⟩
      refine ⟨hprompt.prompts, ?_, ?_⟩
      · rw [Exchange.turn, callIds_reprinted]
        exact hx.1
      · rw [Exchange.turn, callIds_reprinted]
        exact ih hrest

/-- Read one message of the request. -/
def readEntry (toString : Value → String) (messages : List Message) (m : Value) : List Message :=
  parseMessage toString (strOr m "role" "user") (m.get "content") messages

theorem readEntry_entry (messages : List Message) (role : String) (content : Value) :
    readEntry toString messages (entry role content) =
      parseMessage toString role (some content) messages := by
  simp [readEntry, entry, strOr]

/-- **Parsing the messages of a conversation gives its transcript.** -/
theorem foldl_entries {ids : List String} {xs : List Exchange} {last : Option Value}
    (h : Conversation fromStr ids xs last) (messages : List Message) :
    (entries fromStr xs last).foldl (readEntry toString) messages =
      messages ++ transcript (xs.map (Exchange.turn fromStr toString))
        (last.toList.flatMap (promptMessages toString)) := by
  induction xs generalizing ids messages with
  | nil =>
      cases last with
      | none => simp [entries, transcript]
      | some content =>
          simp [entries, transcript, readEntry_entry, parseMessage_prompt toString (h content rfl)]
  | cons x xs ih =>
      rcases h with ⟨hprompt, hx, -, hrest⟩
      have hsplit : entries fromStr (x :: xs) last =
          entry "user" x.prompt :: entry "assistant" (x.content fromStr) ::
            entries fromStr xs last := by
        simp [entries]
      rw [hsplit, List.foldl_cons, List.foldl_cons, readEntry_entry, readEntry_entry,
        parseMessage_prompt toString hprompt, parseMessage_content fromStr toString hx, ih hrest]
      simp [transcript, Exchange.turn]

/-- What the request parser makes of the messages. -/
theorem parseRequest_of_messages (toString : Value → String) {obj : Map} {model : String}
    {items : List Value} (hmodel : obj.lookup "model" = some (.string model))
    (hmessages : obj.lookup "messages" = some (.array items)) :
    ∃ req, parseRequest toString (.object obj) = .ok req ∧
      req.system = parseSystem (obj.lookup "system") ∧
      req.messages = items.foldl (readEntry toString) [] ∧
      req.maxOutputTokens = ((obj.lookup "max_tokens").bind Value.asU64).map asU32 := by
  have hparse : Chat.parseModel (.object obj) = .ok (obj, model) := by
    simp [Chat.parseModel, hmodel]
  rw [parseRequest]
  rw [hparse]
  simp only [bind, Except.bind, hmessages]
  exact ⟨_, rfl, rfl, rfl, rfl⟩

/-- The arguments of every call of a conversation are JSON. -/
theorem Conversation.arguments {ids : List String} {xs : List Exchange} {last : Option Value}
    (h : Conversation fromStr ids xs last) :
    ∀ x ∈ xs, ∀ c ∈ x.completion.calls, (fromStr c.arguments).isSome := by
  induction xs generalizing ids with
  | nil => simp
  | cons x xs ih =>
      rcases h with ⟨-, -, hargs, hrest⟩
      intro x' hx'
      rcases List.mem_cons.1 hx' with rfl | hx'
      · exact hargs
      · exact ih hrest x' hx'

/-- Printing parsed arguments keeps their value. -/
theorem fromStr_reprint (hprint : ∀ s v, fromStr s = some v → fromStr (toString v) = some v)
    {c : ToolCall} (hc : (fromStr c.arguments).isSome) :
    fromStr (reprint fromStr toString c).arguments = fromStr c.arguments := by
  obtain ⟨v, hv⟩ := Option.isSome_iff_exists.1 hc
  rw [reprint, toolInput, hv, Option.getD_some, hprint _ v hv]

end Replay

/-- **A replayed conversation reaches the upstream as it was.** Each completion
is one assistant message with its content, its reasoning and its calls, the
results that answer them come directly behind it, and no tool parent is
synthesized. The arguments have been parsed and printed, which leaves their value
as it was. -/
theorem buildRequest_replayedMessages {fromStr : String → Option Value} {toString : Value → String}
    (hprint : ∀ s v, fromStr s = some v → fromStr (toString v) = some v)
    {obj : Map} {model : String} {xs : List Exchange} {last : Option Value}
    (hmodel : obj.lookup "model" = some (.string model))
    (hmessages : obj.lookup "messages" = some (.array (entries fromStr xs last)))
    (h : Conversation fromStr [] xs last) (upstreamModel : String) {provider : Provider}
    (hcap : provider.maxTokensField ≠ "messages" ∨ obj.lookup "max_tokens" = none) :
    (∃ req, parseRequest toString (.object obj) = .ok req ∧
      (buildRequest req upstreamModel provider).get "messages" =
        some (.array (systemJson (parseSystem (obj.lookup "system")) ++
          (transcript (xs.map (Exchange.turn fromStr toString))
            (last.toList.flatMap (promptMessages toString))).map messageJson))) ∧
      ∀ x ∈ xs, ∀ c ∈ x.completion.calls,
        fromStr (reprint fromStr toString c).arguments = fromStr c.arguments := by
  constructor
  · obtain ⟨req, hreq, hsystem, hread, hmax⟩ :=
      parseRequest_of_messages toString hmodel hmessages
    rw [foldl_entries h, List.nil_append] at hread
    -- the token limit does not overwrite the messages
    have hcap' : provider.maxTokensField ≠ "messages" ∨ req.maxOutputTokens = none :=
      hcap.imp_right fun hnone => by rw [hmax, hnone]; rfl
    refine ⟨req, hreq, ?_⟩
    rw [Chat.get_messages_transcript hread h.answers upstreamModel hcap', hsystem]
  · intro x hx c hc
    exact fromStr_reprint hprint (h.arguments x hx c hc)

/-- A call with spaced arguments, its result between two pieces of text, and an
answer. -/
theorem buildRequest_replayedMessages_results :
    let fromStr := fun s => if s = "[ ]" ∨ s = "[]" then some (Value.array []) else none
    let toString := fun v => if v = Value.array [] then "[]" else ""
    let text := fun s => Value.object [("type", .string "text"), ("text", .string s)]
    let result := Value.object [("type", .string "tool_result"), ("tool_use_id", .string "c0"),
      ("content", .string "ok")]
    let call := Value.object [("model", .string "m"), ("choices", .array [.object [("message",
      .object [("reasoning", .string "think"), ("tool_calls", .array [.object
        [("id", .string "c0"), ("function", .object [("name", .string "f"),
          ("arguments", .string "[ ]")])]])])]])]
    let answer := Value.object [("model", .string "m"), ("choices", .array [.object [("message",
      .object [("content", .string "done")])]])]
    let xs : List Exchange :=
      [⟨.string "hi", "r0", call⟩, ⟨.array [text "a", result, text "b"], "r1", answer⟩]
    let obj : Map := [("model", .string "m"), ("messages", .array (entries fromStr xs none))]
    (∃ req, parseRequest toString (.object obj) = .ok req ∧
      (buildRequest req "m" Chat.plainProvider).get "messages" =
        some (.array ((transcript (xs.map (Exchange.turn fromStr toString)) []).map messageJson))) ∧
      ∀ x ∈ xs, ∀ c ∈ x.completion.calls,
        fromStr (reprint fromStr toString c).arguments = fromStr c.arguments := by
  intro fromStr toString text result call answer xs obj
  -- the parser knows two spellings of the empty array
  have hprint : ∀ s v, fromStr s = some v → fromStr (toString v) = some v := by
    intro s v hv
    have hv : v = .array [] := by
      by_cases hs : s = "[ ]" ∨ s = "[]" <;> simp_all [fromStr]
    rw [hv]
    decide
  have hconversation : Conversation fromStr [] xs none := by
    refine ⟨Or.inl ⟨rfl, _, rfl⟩, by decide, by decide, Or.inr ⟨_, rfl, by decide, ?_⟩, by decide,
      by decide, by simp [Conversation]⟩
    exact List.Perm.refl _
  exact @buildRequest_replayedMessages fromStr toString hprint obj "m" xs none rfl rfl hconversation
    "m" Chat.plainProvider (Or.inr rfl)

/-- A prompt with its answer, replayed with a token cap to a provider that wants the cap
under `messages`: the upstream gets the cap in place of the transcript. -/
theorem not_buildRequest_replayedMessages_capAsMessages :
    let answer := Value.object [("model", .string "m"), ("choices", .array [.object [("message",
      .object [("content", .string "done")])]])]
    let xs : List Exchange := [⟨.string "hi", "r0", answer⟩]
    let obj : Map := [("model", .string "m"),
      ("messages", .array (entries (fun _ => none) xs none)), ("max_tokens", .ofNat 5)]
    let provider : Provider := { Chat.plainProvider with maxTokensField := "messages" }
    Conversation (fun _ => none) [] xs none ∧
      (∃ req, parseRequest (fun _ => "") (.object obj) = .ok req ∧
        (buildRequest req "m" provider).get "messages" = some (.ofNat 5)) ∧
      ¬ ∃ req, parseRequest (fun _ => "") (.object obj) = .ok req ∧
        (buildRequest req "m" provider).get "messages" =
          some (.array ((transcript
            (xs.map (Exchange.turn (fun _ => none) fun _ => "")) []).map messageJson)) := by
  intro answer xs obj provider
  have hconversation : Conversation (fun _ => none) [] xs none :=
    ⟨Or.inl ⟨rfl, _, rfl⟩, by decide, by decide, by simp [Conversation]⟩
  have hmodel : obj.lookup "model" = some (.string "m") := rfl
  have hitems : obj.lookup "messages" = some (.array (entries (fun _ => none) xs none)) := rfl
  obtain ⟨req, hreq, -, -, hmax⟩ := parseRequest_of_messages (fun _ => "") hmodel hitems
  have hcap : (buildRequest req "m" provider).get "messages" = some (.ofNat 5) :=
    Chat.get_messages_of_cap hmax "m" rfl
  refine ⟨hconversation, ⟨req, hreq, hcap⟩, ?_⟩
  rintro ⟨req', hreq', hmessages⟩
  obtain rfl : req = req' := Except.ok.inj (hreq.symm.trans hreq')
  rw [hcap] at hmessages
  cases hmessages

end AiApiBridge.Anthropic
