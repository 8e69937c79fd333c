import AiApiBridge.StreamedResponse
import AiApiBridge.Transcript
import AiApiBridge.Wire.ResponsesRequest

/-!
# Replayed responses

A Responses client sends the conversation back with every request: its own items
and the output items of the responses it got. The item parser merges each output
array into one assistant message again, so the upstream gets every completion as
it was (`buildRequest_replayedItems`).
-/

set_option autoImplicit false

namespace AiApiBridge.Responses

open Chat (strOr Replayable Turn transcript Answers Prompts callIds assistantOf nonEmpty systemJson
  messageJson buildRequest)
open ResponsesEmitter (reasoningItemJson messageItemJson functionCallJson)

/-! ## Conversations -/

/-- A message item of the user. -/
def UserItem (item : Value) : Prop :=
  strOr item "type" "message" = "message" ∧ strOr item "role" "user" = "user"

/-- A function call output that answers one of these calls. -/
def ResultItem (ids : List String) (item : Value) : Prop :=
  strOr item "type" "message" = "function_call_output" ∧ strField item "call_id" ∈ ids

instance (item : Value) : Decidable (UserItem item) := inferInstanceAs (Decidable (_ ∧ _))

instance (ids : List String) (item : Value) : Decidable (ResultItem ids item) :=
  inferInstanceAs (Decidable (_ ∧ _))

/-- The items of a prompt: a user text, or results of the calls before it. -/
def PromptItems (ids : List String) (items : List Value) : Prop :=
  (∃ item, items = [item] ∧ UserItem item) ∨ items ≠ [] ∧ ∀ item ∈ items, ResultItem ids item

/-- A prompt, and the upstream response that answered it. -/
structure Exchange where
  prompt : List Value
  uuid : Nat → String
  responseId : String
  resp : Value

/-- The completion of an exchange. -/
def Exchange.completion (x : Exchange) : Completion := completionOf x.resp

/-- The items a client replays for a response: its output array. -/
def Exchange.output (x : Exchange) : List Value :=
  outputItems (answered x.uuid x.responseId x.resp).finalResponse

/-- A conversation, with perhaps a last prompt that waits for its answer. -/
def Conversation (ids : List String) : List Exchange → List Value → Prop
  | [], last => last = [] ∨ PromptItems ids last
  | x :: xs, last =>
      PromptItems ids x.prompt ∧ Replayable x.completion ∧
        Conversation (callIds x.completion) xs last

/-- The input items of a conversation. -/
def inputItems (xs : List Exchange) (last : List Value) : List Value :=
  xs.flatMap (fun x => x.prompt ++ x.output) ++ last

section Parse

variable (toString : Value → String)

/-- A prompt item as a message. -/
def itemMessage (item : Value) : Message :=
  if strOr item "type" "message" = "function_call_output" then
    .tool (strField item "call_id") (outputText toString (item.get "output"))
  else .user (extractText (item.get "content"))

/-- An exchange as a turn. -/
def Exchange.turn (x : Exchange) : Turn := ⟨x.prompt.map (itemMessage toString), x.completion⟩

/-! ## Parsing a prompt -/

theorem parseInputItem_user (st : InputState) {item : Value} (h : UserItem item) :
    parseInputItem toString st item =
      { st with messages := st.messages ++ [itemMessage toString item], pendingReasoning := none } := by
  simp [parseInputItem, itemMessage, h.1, h.2]

theorem parseInputItem_result {ids : List String} (st : InputState) {item : Value}
    (h : ResultItem ids item) :
    parseInputItem toString st item =
      { st with messages := st.messages ++ [itemMessage toString item], pendingReasoning := none } := by
  simp [parseInputItem, itemMessage, h.1]

theorem foldl_results {ids : List String} {items : List Value}
    (h : ∀ item ∈ items, ResultItem ids item) (messages : List Message) (system : Option String) :
    items.foldl (parseInputItem toString) ⟨messages, system, none⟩ =
      ⟨messages ++ items.map (itemMessage toString), system, none⟩ := by
  induction items generalizing messages with
  | nil => simp
  | cons item items ih =>
      rw [List.foldl_cons, parseInputItem_result toString _ (h item (by simp)),
        ih fun item' h' => h item' (by simp [h'])]
      simp

/-- A prompt ends whatever was pending. -/
theorem foldl_prompt {ids : List String} {items : List Value} (h : PromptItems ids items)
    (st : InputState) :
    items.foldl (parseInputItem toString) st =
      ⟨st.messages ++ items.map (itemMessage toString), st.system, none⟩ := by
  rcases h with ⟨item, rfl, huser⟩ | ⟨hne, hresults⟩
  · rw [List.foldl_cons, parseInputItem_user toString st huser]
    simp
  · cases items with
    | nil => exact absurd rfl hne
    | cons item items =>
        rw [List.foldl_cons, parseInputItem_result toString st (hresults item (by simp)),
          foldl_results toString fun item' h' => hresults item' (by simp [h'])]
        simp

/-! ## Parsing a replayed completion -/

theorem get_withoutId (v : Value) {key : String} (h : key ≠ "id") :
    (withoutId v).get key = v.get key := by
  cases v with
  | object m => rw [withoutId, Value.get_object, Map.lookup_remove, if_neg h, Value.get_object]
  | _ => rfl

theorem strOr_withoutId (v : Value) {key : String} (h : key ≠ "id") (default : String) :
    strOr (withoutId v) key default = strOr v key default := by
  rw [strOr, get_withoutId v h, strOr]

theorem summaryText_withoutId (v : Value) : summaryText (withoutId v) = summaryText v := by
  rw [summaryText, get_withoutId v (by decide), summaryText]

/-- The parser does not look at item ids. -/
theorem parseInputItem_withoutId (st : InputState) (item : Value) :
    parseInputItem toString st (withoutId item) = parseInputItem toString st item := by
  simp only [parseInputItem]
  simp only [strField, strOr_withoutId, summaryText_withoutId, get_withoutId, ne_eq,
    String.reduceEq, not_false_eq_true]

theorem parseInputItem_reasoning (st : InputState) {t : String} (ht : t ≠ "") :
    parseInputItem toString st (withoutId (reasoningItemJson "" t)) =
      { st with pendingReasoning := some t } := by
  rw [parseInputItem_withoutId]
  simp [parseInputItem, reasoningItemJson, strOr, summaryText, partsText, ht]

theorem parseInputItem_message (st : InputState) (t : String) :
    parseInputItem toString st (withoutId (messageItemJson "" t)) =
      { st with
        messages := st.messages ++ [.assistant (some t) st.pendingReasoning []]
        pendingReasoning := none } := by
  rw [parseInputItem_withoutId]
  simp [parseInputItem, messageItemJson, strOr, extractText, partsText,
    ResponsesEmitter.outputTextPart]

theorem parseInputItem_call (st : InputState) (c : ToolCall) :
    parseInputItem toString st (callItem c) = addCall st c := by
  rw [callItem, parseInputItem_withoutId]
  simp [parseInputItem, functionCallJson, strOr, strField]

/-- A call joins the assistant message before it. -/
theorem addCall_joins (messages : List Message) (system text reasoning : Option String)
    (calls : List ToolCall) (c : ToolCall) :
    addCall ⟨messages ++ [.assistant text reasoning calls], system, none⟩ c =
      ⟨messages ++ [.assistant text reasoning (calls ++ [c])], system, none⟩ := by
  cases reasoning <;> simp [addCall]

theorem foldl_calls (messages : List Message) (system text reasoning : Option String)
    (calls cs : List ToolCall) :
    (cs.map callItem).foldl (parseInputItem toString)
        ⟨messages ++ [.assistant text reasoning calls], system, none⟩ =
      ⟨messages ++ [.assistant text reasoning (calls ++ cs)], system, none⟩ := by
  induction cs generalizing calls with
  | nil => simp
  | cons c cs ih =>
      rw [List.map_cons, List.foldl_cons, parseInputItem_call, addCall_joins, ih]
      simp

/-- The messages do not end in an assistant message. -/
def EndsPrompt (messages : List Message) : Prop :=
  ∀ text reasoning calls, messages.getLast? ≠ some (.assistant text reasoning calls)

/-- A call behind a prompt opens an assistant message. -/
theorem addCall_opens {messages : List Message} (h : EndsPrompt messages)
    (system reasoning : Option String) (c : ToolCall) :
    addCall ⟨messages, system, reasoning⟩ c =
      ⟨messages ++ [.assistant none reasoning [c]], system, none⟩ := by
  rw [addCall]
  split
  · rename_i hlast
    exact absurd hlast (h _ _ _)
  · rename_i hlast
    exact absurd hlast (h _ _ _)
  · rfl

/-- **The output array of a response is one assistant message.** -/
theorem foldl_output {x : Exchange} (hx : Replayable x.completion) {messages : List Message}
    (h : EndsPrompt messages) (system : Option String) :
    x.output.foldl (parseInputItem toString) ⟨messages, system, none⟩ =
      ⟨messages ++ [assistantOf x.completion], system, none⟩ := by
  have hshow := showsCompletion_answered x.uuid x.responseId x.resp
  have houtput : x.output.map withoutId = reasoningItems x.completion.reasoning ++
      messageItems x.completion.content ++ x.completion.calls.map callItem := by
    refine Eq.trans ?_ hshow.items_eq
    simp [Exchange.output, outputItems, ResponsesEmitter.finalResponse,
      ResponsesEmitter.completedResponse]
  have hids : x.output.foldl (parseInputItem toString) ⟨messages, system, none⟩ =
      (x.output.map withoutId).foldl (parseInputItem toString) ⟨messages, system, none⟩ := by
    rw [List.foldl_map]
    simp only [parseInputItem_withoutId]
  have hreasoning : (reasoningItems x.completion.reasoning).foldl (parseInputItem toString)
      ⟨messages, system, none⟩ = ⟨messages, system, nonEmpty x.completion.reasoning⟩ := by
    by_cases hr : x.completion.reasoning = ""
    · simp [reasoningItems, nonEmpty, hr]
    · simp [reasoningItems, nonEmpty, hr, parseInputItem_reasoning toString _ hr]
  rw [hids, houtput, List.foldl_append, List.foldl_append, hreasoning]
  by_cases hc : x.completion.content = ""
  · -- no message item, so the first call opens the assistant message
    obtain ⟨c, cs, hcalls⟩ := List.exists_cons_of_ne_nil (hx.2.resolve_left (not_not.2 hc))
    rw [messageItems, if_pos hc, List.foldl_nil, hcalls, List.map_cons, List.foldl_cons,
      parseInputItem_call, addCall_opens h, foldl_calls]
    simp [assistantOf, nonEmpty, hc, hcalls]
  · rw [messageItems, if_neg hc, List.foldl_cons, List.foldl_nil, parseInputItem_message,
      foldl_calls]
    simp [assistantOf, nonEmpty, hc]

/-! ## Parsing a conversation -/

variable {toString}

theorem PromptItems.ne_nil {ids : List String} {items : List Value} (h : PromptItems ids items) :
    items ≠ [] := by
  rcases h with ⟨item, rfl, -⟩ | ⟨hne, -⟩
  · simp
  · exact hne

theorem endsPrompt_append {items : List Value} (hne : items ≠ []) (messages : List Message) :
    EndsPrompt (messages ++ items.map (itemMessage toString)) := by
  intro text reasoning calls hlast
  obtain ⟨front, item, rfl⟩ := List.eq_nil_or_concat items |>.resolve_left hne
  rw [List.concat_eq_append, List.map_append, ← List.append_assoc, List.map_singleton,
    List.getLast?_concat, Option.some.injEq] at hlast
  rw [itemMessage] at hlast
  split at hlast <;> cases hlast

theorem PromptItems.prompts {ids : List String} {items : List Value} (h : PromptItems ids items) :
    Prompts ids (items.map (itemMessage toString)) := by
  intro m hm
  obtain ⟨item, hitem, rfl⟩ := List.mem_map.1 hm
  rcases h with ⟨item', rfl, huser⟩ | ⟨-, hresults⟩
  · rw [List.mem_singleton.1 hitem, itemMessage, huser.1]
    trivial
  · obtain ⟨htype, hid⟩ := hresults item hitem
    rw [itemMessage, if_pos htype]
    exact hid

/-- The results of a conversation answer the calls before them. -/
theorem Conversation.answers {ids : List String} {xs : List Exchange} {last : List Value}
    (h : Conversation ids xs last) :
    Answers ids (xs.map (Exchange.turn toString)) (last.map (itemMessage toString)) := by
  induction xs generalizing ids with
  | nil =>
      rcases h with rfl | hprompt
      · simp [Answers, Prompts]
      · exact hprompt.prompts
  | cons x xs ih =>
      rcases h with ⟨hprompt, hx, hrest⟩
      exact ⟨hprompt.prompts, hx.1, ih hrest⟩

/-- **Parsing the items of a conversation gives its transcript.** -/
theorem foldl_inputItems {ids : List String} {xs : List Exchange} {last : List Value}
    (h : Conversation ids xs last) (messages : List Message) (system : Option String) :
    (inputItems xs last).foldl (parseInputItem toString) ⟨messages, system, none⟩ =
      ⟨messages ++ transcript (xs.map (Exchange.turn toString)) (last.map (itemMessage toString)),
        system, none⟩ := by
  induction xs generalizing ids messages with
  | nil =>
      rcases h with rfl | hprompt
      · simp [inputItems, transcript]
      · simpa [inputItems, transcript] using foldl_prompt toString hprompt ⟨messages, system, none⟩
  | cons x xs ih =>
      rcases h with ⟨hprompt, hx, hrest⟩
      have hsplit : inputItems (x :: xs) last = x.prompt ++ (x.output ++ inputItems xs last) := by
        simp [inputItems]
      rw [hsplit, List.foldl_append, List.foldl_append, foldl_prompt toString hprompt,
        foldl_output toString hx (endsPrompt_append hprompt.ne_nil messages), ih hrest]
      simp [transcript, Exchange.turn]

/-- What the request parser makes of the items. -/
theorem parseRequest_of_input {obj : Map} {model : String} {tools : List ToolDef} {st : InputState}
    (hmodel : obj.lookup "model" = some (.string model))
    (hinput : parseInput toString ((obj.lookup "instructions").bind Value.asStr)
      (obj.lookup "input") = .ok st)
    (htools : parseTools (obj.lookup "tools") = .ok tools) :
    ∃ req, parseRequest toString (.object obj) = .ok req ∧ req.system = st.system ∧
      req.messages = st.messages ∧
      req.maxOutputTokens = ((obj.lookup "max_output_tokens").bind Value.asU64).map asU32 := by
  have hparse : Chat.parseModel (.object obj) = .ok (obj, model) := by
    simp [Chat.parseModel, hmodel]
  rw [parseRequest]
  rw [hparse]
  simp only [bind, Except.bind, hinput, htools]
  exact ⟨_, rfl, rfl, rfl, rfl⟩

end Parse

/-- **A replayed conversation reaches the upstream as it was.** Each completion
is one assistant message with its content, reasoning and calls, and no tool
parent is synthesized. -/
theorem buildRequest_replayedItems (toString : Value → String) {obj : Map} {model : String}
    {tools : List ToolDef} {xs : List Exchange} {last : List Value}
    (hmodel : obj.lookup "model" = some (.string model))
    (hinput : obj.lookup "input" = some (.array (inputItems xs last)))
    (htools : parseTools (obj.lookup "tools") = .ok tools) (h : Conversation [] xs last)
    (upstreamModel : String) {provider : Provider}
    (hcap : provider.maxTokensField ≠ "messages" ∨ obj.lookup "max_output_tokens" = none) :
    ∃ req, parseRequest toString (.object obj) = .ok req ∧
      (buildRequest req upstreamModel provider).get "messages" =
        some (.array (systemJson ((obj.lookup "instructions").bind Value.asStr) ++
          (transcript (xs.map (Exchange.turn toString)) (last.map (itemMessage toString))).map
            messageJson)) := by
  have hinput' : parseInput toString ((obj.lookup "instructions").bind Value.asStr)
      (obj.lookup "input") =
        .ok ⟨transcript (xs.map (Exchange.turn toString)) (last.map (itemMessage toString)),
          (obj.lookup "instructions").bind Value.asStr, none⟩ := by
    rw [hinput, parseInput, foldl_inputItems h, List.nil_append]
  obtain ⟨req, hreq, hsystem, hmessages, hmax⟩ := parseRequest_of_input hmodel hinput' htools
  refine ⟨req, hreq, ?_⟩
  -- the token limit does not overwrite the messages
  have hcap' : provider.maxTokensField ≠ "messages" ∨ req.maxOutputTokens = none :=
    hcap.imp_right fun hnone => by rw [hmax, hnone]; rfl
  rw [Chat.get_messages_transcript hmessages h.answers upstreamModel hcap', hsystem]

/-- A prompt with its answer, a call, and the results of the call. -/
theorem buildRequest_replayedItems_results :
    let user := Value.object [("type", .string "message"), ("role", .string "user"),
      ("content", .string "hi")]
    let result := Value.object [("type", .string "function_call_output"),
      ("call_id", .string "c0"), ("output", .string "ok")]
    let call := Value.object [("model", .string "m"), ("choices", .array [.object [("message",
      .object [("reasoning", .string "think"), ("tool_calls", .array [.object
        [("id", .string "c0"), ("function", .object [("name", .string "f"),
          ("arguments", .string "{}")])]])])]])]
    let answer := Value.object [("model", .string "m"), ("choices", .array [.object [("message",
      .object [("content", .string "done")])]])]
    let xs : List Exchange := [⟨[user], unaryId, "r0", call⟩, ⟨[result], unaryId, "r1", answer⟩]
    let obj : Map := [("model", .string "m"), ("input", .array (inputItems xs []))]
    ∃ req, parseRequest (fun _ => "") (.object obj) = .ok req ∧
      (buildRequest req "m" Chat.plainProvider).get "messages" =
        some (.array ((transcript (xs.map (Exchange.turn fun _ => "")) []).map messageJson)) := by
  intro user result call answer xs obj
  have hconversation : Conversation [] xs [] :=
    ⟨Or.inl ⟨_, rfl, by decide⟩, by decide, Or.inr ⟨by decide, by decide⟩, by decide, Or.inl rfl⟩
  exact @buildRequest_replayedItems (fun _ => "") obj "m" [] xs [] rfl rfl rfl hconversation "m"
    Chat.plainProvider (Or.inr rfl)

/-- A prompt with its answer, replayed with a token cap to a provider that wants the cap
under `messages`: the upstream gets the cap in place of the transcript. -/
theorem not_buildRequest_replayedItems_capAsMessages :
    let user := Value.object [("type", .string "message"), ("role", .string "user"),
      ("content", .string "hi")]
    let answer := Value.object [("model", .string "m"), ("choices", .array [.object [("message",
      .object [("content", .string "done")])]])]
    let xs : List Exchange := [⟨[user], unaryId, "r0", answer⟩]
    let obj : Map := [("model", .string "m"), ("input", .array (inputItems xs [])),
      ("max_output_tokens", .ofNat 5)]
    let provider : Provider := { Chat.plainProvider with maxTokensField := "messages" }
    Conversation [] xs [] ∧
      (∃ req, parseRequest (fun _ => "") (.object obj) = .ok req ∧
        (buildRequest req "m" provider).get "messages" = some (.ofNat 5)) ∧
      ¬ ∃ req, parseRequest (fun _ => "") (.object obj) = .ok req ∧
        (buildRequest req "m" provider).get "messages" =
          some (.array ((transcript (xs.map (Exchange.turn fun _ => "")) []).map messageJson)) := by
  intro user answer xs obj provider
  have hconversation : Conversation [] xs [] := ⟨Or.inl ⟨_, rfl, by decide⟩, by decide, Or.inl rfl⟩
  have hinput : parseInput (fun _ => "") ((obj.lookup "instructions").bind Value.asStr)
      (obj.lookup "input") =
        .ok ⟨transcript (xs.map (Exchange.turn fun _ => "")) [], none, none⟩ := by
    have hitems : obj.lookup "input" = some (.array (inputItems xs [])) := rfl
    rw [hitems, parseInput, foldl_inputItems hconversation]
    rfl
  have hmodel : obj.lookup "model" = some (.string "m") := rfl
  have htools : parseTools (obj.lookup "tools") = .ok [] := rfl
  obtain ⟨req, hreq, -, -, hmax⟩ := parseRequest_of_input hmodel hinput htools
  have hcap : (buildRequest req "m" provider).get "messages" = some (.ofNat 5) :=
    Chat.get_messages_of_cap hmax "m" rfl
  refine ⟨hconversation, ⟨req, hreq, hcap⟩, ?_⟩
  rintro ⟨req', hreq', hmessages⟩
  obtain rfl : req = req' := Except.ok.inj (hreq.symm.trans hreq')
  rw [hcap] at hmessages
  cases hmessages

end AiApiBridge.Responses
