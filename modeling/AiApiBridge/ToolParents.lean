import AiApiBridge.Wire.ChatRequest
import AiApiBridge.Lib.Splits

/-!
# Where tool messages end up in an upstream request

Strict upstreams want every tool message in an unbroken run of tool messages
that directly follows the assistant message announcing its id
(`ToolsAnswered`). `normalizeToolParents` keeps one set of announced ids for the
whole transcript, so it looks for an announcement anywhere before the result.
`toolsAnswered_buildRequest_iff` says for exactly which transcripts the two
agree: those whose repeated ids are all `ResultsInPlace`.
-/

set_option autoImplicit false

namespace AiApiBridge.Chat

/-! ## The structure an upstream validates -/

/-- The role of an upstream message. -/
def roleOf (v : Value) : Option String := (v.get "role").bind Value.asStr

/-- The ids of an upstream message's tool calls. -/
def callIdsOf (v : Value) : List String :=
  (((v.get "tool_calls").bind Value.asArray).getD []).filterMap fun tc =>
    (tc.get "id").bind Value.asStr

/-- The id an upstream tool message answers. -/
def resultIdOf (v : Value) : Option String := (v.get "tool_call_id").bind Value.asStr

/-- Every tool message lies in an unbroken run of tool messages that starts
directly after an assistant message whose calls contain the tool message's id. -/
def ToolsAnswered (messages : List Value) : Prop :=
  EverySplit (fun pre m => roleOf m = some "tool" →
    ∃ before a run id, pre = before ++ a :: run ∧ roleOf a = some "assistant" ∧
      resultIdOf m = some id ∧ id ∈ callIdsOf a ∧ ∀ x ∈ run, roleOf x = some "tool") messages

/-! ## The condition on the transcript -/

/-- The ids a message mentions: those of its calls, or the one it answers. -/
def mentionedBy : Message → List String
  | .user _ => []
  | .assistant _ _ calls => calls.map ToolCall.callId
  | .tool callId _ => [callId]

/-- A non-empty id that some earlier message has mentioned. -/
def Mentioned (pre : List Message) (id : String) : Prop :=
  id ≠ "" ∧ id ∈ pre.flatMap mentionedBy

/-- A message that a tool result with this id may follow directly: an assistant
message that calls it, or a result with the same id that is itself the first
mention. -/
def Precedes (before : List Message) (m : Message) (id : String) : Prop :=
  match m with
  | .user _ => False
  | .assistant _ _ calls => id ∈ calls.map ToolCall.callId
  | .tool callId _ => callId = id ∧ ¬ Mentioned before callId

/-- A tool result whose id an earlier message has mentioned. -/
def RepeatsId (pre : List Message) (m : Message) : Prop :=
  ∃ id output, m = .tool id output ∧ Mentioned pre id

/-- Going back from every tool result with a mentioned id, over results with
mentioned ids only, one meets a message the result may follow. -/
def ResultsInPlace (msgs : List Message) : Prop :=
  EverySplit (fun pre m => ∀ id output, m = .tool id output → Mentioned pre id →
    ∃ before a run, pre = before ++ a :: run ∧ Precedes before a id ∧
      EverySplit (fun mid x => RepeatsId (before ++ a :: mid) x) run) msgs

/-! ## Owners

Reading a transcript from the left, the owners are the call ids that the current
run of tool messages may answer. -/

/-- Owners after one more upstream message. -/
def jsonOwners (own : List String) (m : Value) : List String :=
  if roleOf m = some "assistant" then callIdsOf m
  else if roleOf m = some "tool" then own
  else []

/-- Owners after one more canonical message. -/
def owners (own : List String) : Message → List String
  | .user _ => []
  | .assistant _ _ calls => calls.map ToolCall.callId
  | .tool _ _ => own

@[simp] theorem roleOf_messageJson (m : Message) :
    roleOf (messageJson m) = some (match m with
      | .user _ => "user"
      | .assistant _ _ _ => "assistant"
      | .tool _ _ => "tool") := by
  cases m <;> simp [messageJson, roleOf]

@[simp] theorem resultIdOf_messageJson_tool (id output : String) :
    resultIdOf (messageJson (.tool id output)) = some id := by
  simp [messageJson, resultIdOf]

theorem callIdsOf_messageJson (text reasoning : Option String) (calls : List ToolCall) :
    callIdsOf (messageJson (.assistant text reasoning calls)) = calls.map ToolCall.callId := by
  have hids : (calls.map toolCallJson).filterMap (fun tc => (tc.get "id").bind Value.asStr) =
      calls.map ToolCall.callId := by
    induction calls with
    | nil => rfl
    | cons tc calls ih => simp [toolCallJson, ih]
  cases reasoning <;> by_cases hc : calls = [] <;>
    simp [callIdsOf, messageJson, hc, hids]

theorem jsonOwners_messageJson (own : List String) (m : Message) :
    jsonOwners own (messageJson m) = owners own m := by
  cases m with
  | user text => simp [jsonOwners, owners]
  | assistant text reasoning calls => simp [jsonOwners, owners, callIdsOf_messageJson]
  | tool id output => simp [jsonOwners, owners]

theorem foldl_jsonOwners (own : List String) (msgs : List Message) :
    (msgs.map messageJson).foldl jsonOwners own = msgs.foldl owners own := by
  induction msgs generalizing own with
  | nil => rfl
  | cons m msgs ih => simp [jsonOwners_messageJson, ih]

/-- The owners are the calls of an assistant message with tool messages only
behind it. -/
theorem mem_foldl_jsonOwners (pre : List Value) (id : String) :
    id ∈ pre.foldl jsonOwners [] ↔
      ∃ before a run, pre = before ++ a :: run ∧ roleOf a = some "assistant" ∧
        id ∈ callIdsOf a ∧ ∀ x ∈ run, roleOf x = some "tool" := by
  induction pre using List.reverseRecOn with
  | nil => simp
  | append_singleton pre m ih =>
      rw [List.foldl_append, List.foldl_cons, List.foldl_nil]
      constructor
      · intro h
        -- the last entry owns the calls itself, or hands on those of the run it
        -- continues
        by_cases ha : roleOf m = some "assistant"
        · exact ⟨pre, m, [], rfl, ha, by simpa [jsonOwners, ha] using h, by simp⟩
        · by_cases ht : roleOf m = some "tool"
          · obtain ⟨before, a, run, rfl, hrole, hmem, hrun⟩ :=
              ih.1 (by simpa [jsonOwners, ht] using h)
            refine ⟨before, a, run ++ [m], by simp, hrole, hmem, ?_⟩
            intro x hx
            rcases List.mem_append.1 hx with hx | hx
            · exact hrun x hx
            · rwa [List.mem_singleton.1 hx]
          · simp [jsonOwners, ha, ht] at h
      · rintro ⟨before, a, run, heq, hrole, hmem, hrun⟩
        rcases split_append_singleton heq with ⟨rfl, rfl, rfl⟩ | ⟨run', rfl, rfl⟩
        · simpa [jsonOwners, hrole] using hmem
        · have ht : roleOf m = some "tool" := hrun m (by simp)
          have hown := ih.2 ⟨before, a, run', rfl, hrole, hmem,
            fun x hx => hrun x (List.mem_append_left _ hx)⟩
          simpa [jsonOwners, ht] using hown

/-- Each tool message is answered by the current owners. -/
def Answered (own : List String) (msgs : List Message) : Prop :=
  EverySplit (fun pre m => ∀ id output, m = .tool id output → id ∈ pre.foldl owners own) msgs

theorem toolsAnswered_map (own : List String) (msgs : List Message) :
    EverySplit (fun pre m => roleOf m = some "tool" →
      ∃ id, resultIdOf m = some id ∧ id ∈ pre.foldl jsonOwners own) (msgs.map messageJson) ↔
    Answered own msgs := by
  rw [everySplit_map]
  apply EverySplit.congr
  intro pre m _ _
  rw [foldl_jsonOwners]
  cases m with
  | user text => simp
  | assistant text reasoning calls => simp
  | tool id output => simp

/-- **The upstream's condition in terms of owners.** A leading system message
owns nothing. -/
theorem toolsAnswered_iff_answered (system : Option String) (msgs : List Message) :
    ToolsAnswered (systemJson system ++ msgs.map messageJson) ↔ Answered [] msgs := by
  -- the owners of a prefix are the calls of the assistant its run of results follows
  have hP : ∀ pre m, (roleOf m = some "tool" →
      ∃ before a run id, pre = before ++ a :: run ∧ roleOf a = some "assistant" ∧
        resultIdOf m = some id ∧ id ∈ callIdsOf a ∧ ∀ x ∈ run, roleOf x = some "tool") ↔
      (roleOf m = some "tool" →
        ∃ id, resultIdOf m = some id ∧ id ∈ pre.foldl jsonOwners []) := by
    intro pre m
    apply imp_congr_right
    intro _
    simp only [mem_foldl_jsonOwners]
    constructor
    · rintro ⟨before, a, run, id, h1, h2, h3, h4, h5⟩
      exact ⟨id, h3, before, a, run, h1, h2, h4, h5⟩
    · rintro ⟨id, h3, before, a, run, h1, h2, h4, h5⟩
      exact ⟨before, a, run, id, h1, h2, h3, h4, h5⟩
  rw [ToolsAnswered]
  rw [EverySplit.congr (fun pre m _ _ => hP pre m), everySplit_append]
  -- the system entry is no result and owns nothing
  have hsys : EverySplit (fun pre m => roleOf m = some "tool" →
      ∃ id, resultIdOf m = some id ∧ id ∈ pre.foldl jsonOwners []) (systemJson system) := by
    cases system with
    | none => simp [systemJson]
    | some s => simp [systemJson, everySplit_cons, roleOf]
  have hown : (systemJson system).foldl jsonOwners [] = [] := by
    cases system <;> simp [systemJson, jsonOwners, roleOf]
  simp only [hsys, true_and, List.foldl_append, hown]
  exact toolsAnswered_map [] msgs

/-! ## Owners in the normalized transcript -/

instance (pre : List Message) (id : String) : Decidable (Mentioned pre id) :=
  inferInstanceAs (Decidable (_ ∧ _))

/-- Owners after one more input message, a parent synthesized in front of it
included. `seen` are the messages before it. -/
def ownersAfter (seen : List Message) (own : List String) : Message → List String
  | .user _ => []
  | .assistant _ _ calls => calls.map ToolCall.callId
  | .tool id _ => if Mentioned seen id then own else [id]

/-- Owners behind a stretch of the input. -/
def ownersBehind (seen : List Message) (own : List String) : List Message → List String
  | [] => own
  | m :: ms => ownersBehind (seen ++ [m]) (ownersAfter seen own m) ms

theorem ownersBehind_append (seen : List Message) (own : List String) (ms ms' : List Message) :
    ownersBehind seen own (ms ++ ms') =
      ownersBehind (seen ++ ms) (ownersBehind seen own ms) ms' := by
  induction ms generalizing seen own with
  | nil => simp [ownersBehind]
  | cons m ms ih => simp [ownersBehind, ih]

/-- The owners are what a message calls behind which all ids repeat. -/
theorem mem_ownersBehind (pre : List Message) (id : String) :
    id ∈ ownersBehind [] [] pre ↔
      ∃ before a run, pre = before ++ a :: run ∧ Precedes before a id ∧
        EverySplit (fun mid x => RepeatsId (before ++ a :: mid) x) run := by
  induction pre using List.reverseRecOn with
  | nil => simp [ownersBehind]
  | append_singleton pre m ih =>
      rw [ownersBehind_append, List.nil_append]
      change id ∈ ownersAfter pre (ownersBehind [] [] pre) m ↔ _
      by_cases hrep : RepeatsId pre m
      · -- the run that leads to `m` goes on behind it
        rcases hrep with ⟨callId, output, rfl, hment⟩
        have hown : ownersAfter pre (ownersBehind [] [] pre) (.tool callId output) =
            ownersBehind [] [] pre := by simp [ownersAfter, hment]
        rw [hown, ih]
        constructor
        · rintro ⟨before, a, run, rfl, hp, hrun⟩
          refine ⟨before, a, run ++ [.tool callId output], by simp, hp, ?_⟩
          rw [everySplit_append, everySplit_cons]
          exact ⟨hrun, ⟨callId, output, rfl, by simpa using hment⟩, everySplit_nil _⟩
        · rintro ⟨before, a, run, heq, hp, hrun⟩
          rcases split_append_singleton heq with ⟨rfl, rfl, rfl⟩ | ⟨run', rfl, rfl⟩
          · exact absurd hment hp.2
          · exact ⟨before, a, run', rfl, hp, ((everySplit_append _ _ _).1 hrun).1⟩
      · -- every other message is one that a result may follow directly, or none
        have hown : id ∈ ownersAfter pre (ownersBehind [] [] pre) m ↔ Precedes pre m id := by
          cases m with
          | user text => simp [ownersAfter, Precedes]
          | assistant text reasoning calls => simp [ownersAfter, Precedes]
          | tool callId output =>
              have hment : ¬ Mentioned pre callId := fun h => hrep ⟨callId, output, rfl, h⟩
              simp [ownersAfter, Precedes, hment, eq_comm]
        rw [hown]
        constructor
        · exact fun hp => ⟨pre, m, [], rfl, hp, everySplit_nil _⟩
        · rintro ⟨before, a, run, heq, hp, hrun⟩
          rcases split_append_singleton heq with ⟨rfl, rfl, rfl⟩ | ⟨run', rfl, rfl⟩
          · exact hp
          · rw [everySplit_append, everySplit_cons] at hrun
            exact absurd (by simpa using hrun.2.1) hrep

/-! ## The pass -/

/-- What `announced` holds: the non-empty ids mentioned so far. -/
def Announces (announced : List String) (seen : List Message) : Prop :=
  ∀ id, id ∈ announced ↔ Mentioned seen id

theorem announces_nil : Announces [] [] := by simp [Announces, Mentioned]

theorem mentioned_snoc {seen : List Message} {m : Message} {id : String} :
    Mentioned (seen ++ [m]) id ↔ Mentioned seen id ∨ id ≠ "" ∧ id ∈ mentionedBy m := by
  simp only [Mentioned, List.flatMap_append, List.flatMap_cons, List.flatMap_nil,
    List.append_nil, List.mem_append]
  tauto

theorem Announces.snoc {announced : List String} {seen : List Message}
    (h : Announces announced seen) {m : Message} {ids : List String}
    (hids : ∀ id, id ∈ ids ↔ id ≠ "" ∧ id ∈ mentionedBy m) :
    Announces (announced ++ ids) (seen ++ [m]) := by
  intro id
  rw [List.mem_append, h id, hids id, mentioned_snoc]

/-- An announcement that adds nothing new. -/
theorem Announces.snoc_same {announced : List String} {seen : List Message}
    (h : Announces announced seen) {m : Message}
    (hm : ∀ id ∈ mentionedBy m, id ≠ "" → id ∈ announced) :
    Announces announced (seen ++ [m]) := by
  intro id
  rw [mentioned_snoc, ← h id]
  constructor
  · exact .inl
  · rintro (hid | ⟨hne, hmem⟩)
    · exact hid
    · exact hm id hmem hne

/-- What the pass puts in the place of a message. -/
def placed (seen : List Message) : Message → List Message
  | .user text => [.user text]
  | .assistant text reasoning calls => [.assistant text reasoning calls]
  | .tool callId output =>
      if Mentioned seen callId then [.tool callId output]
      else [synthesizedParent callId, .tool callId output]

/-- **One step of the pass**: a result that nobody has mentioned gets a parent of its own. -/
theorem Announces.normalizeLoop_cons {announced : List String} {seen : List Message}
    (h : Announces announced seen) (m : Message) :
    ∃ announced', Announces announced' (seen ++ [m]) ∧
      ∀ ms, normalizeLoop announced (m :: ms) = placed seen m ++ normalizeLoop announced' ms := by
  cases m with
  | user text => exact ⟨announced, h.snoc_same (by simp [mentionedBy]), fun ms => rfl⟩
  | assistant text reasoning calls =>
      exact ⟨announced ++ announcedBy calls,
        h.snoc (by simp [announcedBy, mentionedBy, and_comm]), fun ms => rfl⟩
  | tool callId output =>
      by_cases hfresh : callId = "" ∨ callId ∉ announced
      · -- an empty id counts as never mentioned
        have hment : ¬ Mentioned seen callId := by
          rw [← h callId]
          rintro hmem
          rcases hfresh with rfl | hn
          · exact ((h "").1 hmem).1 rfl
          · exact hn hmem
        refine ⟨if callId = "" then announced else announced ++ [callId], ?_, fun ms => ?_⟩
        · split
          · rename_i he
            exact h.snoc_same (by simp [mentionedBy, he])
          · rename_i he
            apply h.snoc
            intro id
            simp only [mentionedBy, List.mem_singleton]
            exact ⟨fun e => ⟨e ▸ he, e⟩, fun e => e.2⟩
        · rw [normalizeLoop, if_pos hfresh, placed, if_neg hment]
          rfl
      · -- the id is known, and the result stays alone
        have hin : callId ∈ announced := not_not.1 (not_or.1 hfresh).2
        refine ⟨announced, h.snoc_same (by simp [mentionedBy, hin]), fun ms => ?_⟩
        rw [normalizeLoop, if_neg hfresh, placed, if_pos ((h callId).1 hin)]
        rfl

/-- A result left in its place must be answered by the owners in front of it. -/
theorem answered_placed (seen : List Message) (own : List String) (m : Message)
    (msgs : List Message) :
    Answered own (placed seen m ++ msgs) ↔
      (∀ id output, m = .tool id output → Mentioned seen id → id ∈ own) ∧
        Answered (ownersAfter seen own m) msgs := by
  cases m with
  | user text => simp [placed, Answered, everySplit_cons, owners, ownersAfter]
  | assistant text reasoning calls =>
      simp [placed, Answered, everySplit_cons, owners, ownersAfter]
  | tool callId output =>
      by_cases hment : Mentioned seen callId <;>
        simp [placed, Answered, everySplit_cons, owners, ownersAfter, synthesizedParent, hment]

/-- The pass leaves the owners that `ownersAfter` says, so the results it did not
give a parent are the ones to check. -/
theorem answered_normalizeLoop (msgs : List Message) :
    ∀ announced seen own, Announces announced seen →
      (Answered own (normalizeLoop announced msgs) ↔
        EverySplit (fun pre m => ∀ id output, m = .tool id output → Mentioned (seen ++ pre) id →
          id ∈ ownersBehind seen own pre) msgs) := by
  induction msgs with
  | nil => simp [normalizeLoop, Answered]
  | cons m msgs ih =>
      intro announced seen own h
      obtain ⟨announced', h', hloop⟩ := h.normalizeLoop_cons m
      rw [hloop, answered_placed, ih announced' _ _ h', everySplit_cons]
      simp [ownersBehind]

/-- Without tool messages the pass changes nothing. -/
theorem normalizeLoop_eq_self {msgs : List Message} (h : msgs.any isTool = false) :
    ∀ announced, normalizeLoop announced msgs = msgs := by
  induction msgs with
  | nil => intro _; rfl
  | cons m msgs ih =>
      intro announced
      rw [List.any_cons, Bool.or_eq_false_iff] at h
      cases m with
      | user text => simp [normalizeLoop, ih h.2]
      | assistant text reasoning calls => simp [normalizeLoop, ih h.2]
      | tool callId output => simp [isTool] at h

/-- The fast path of the source is no special case. -/
theorem normalizeToolParents_eq (msgs : List Message) :
    normalizeToolParents msgs = normalizeLoop [] msgs := by
  rw [normalizeToolParents]
  split
  · rfl
  · rename_i h
    exact (normalizeLoop_eq_self (by simpa using h) []).symm

theorem toolsAnswered_messagesJson (req : CanonicalRequest) :
    ToolsAnswered (messagesJson req) ↔ ResultsInPlace req.messages := by
  rw [messagesJson]
  rw [toolsAnswered_iff_answered, normalizeToolParents_eq,
    answered_normalizeLoop req.messages [] [] [] announces_nil]
  exact EverySplit.congr fun pre m _ _ => by simp only [List.nil_append, mem_ownersBehind]

/-! ## The request body -/

theorem lookup_insertSome {α : Type} (field : Option α) (key k : String) (json : α → Value)
    (m : Map) :
    List.lookup k (insertSome field key json m) =
      if k = key then (field.map json).or (List.lookup k m) else List.lookup k m := by
  cases field <;> simp [insertSome]

/-- The messages survive in the body unless the provider wants the token cap
under that very name. -/
theorem get_messages_buildRequest (req : CanonicalRequest) (upstreamModel : String)
    (provider : Provider) (h : provider.maxTokensField ≠ "messages" ∨ req.maxOutputTokens = none) :
    (buildRequest req upstreamModel provider).get "messages" =
      some (.array (messagesJson req)) := by
  have hfield : ¬ ("messages" = provider.maxTokensField) ∨ req.maxOutputTokens = none :=
    h.imp_left fun hne heq => hne heq.symm
  by_cases hs : req.stream = true <;> by_cases ht : req.tools = [] <;>
    rcases hfield with hf | hf <;> simp [buildRequest, lookup_insertSome, hs, ht, hf]

/-- A token cap that goes under the name of the messages takes their place. -/
theorem get_messages_of_cap {req : CanonicalRequest} {n : Nat} (hcap : req.maxOutputTokens = some n)
    (upstreamModel : String) {provider : Provider} (hkey : provider.maxTokensField = "messages") :
    (buildRequest req upstreamModel provider).get "messages" = some (.ofNat n) := by
  by_cases hs : req.stream = true <;> by_cases ht : req.tools = [] <;>
    simp [buildRequest, lookup_insertSome, hs, ht, hkey, hcap]

theorem messages_buildRequest {req : CanonicalRequest} {upstreamModel : String}
    {provider : Provider} {messages : List Value}
    (h : (buildRequest req upstreamModel provider).get "messages" = some (.array messages)) :
    messages = messagesJson req := by
  by_cases hf : provider.maxTokensField ≠ "messages" ∨ req.maxOutputTokens = none
  · rw [get_messages_buildRequest req upstreamModel provider hf] at h
    simpa using h.symm
  · -- the token cap has taken the place of the messages, and it is no array
    obtain ⟨hkey, hcap⟩ := not_or.1 hf
    obtain ⟨n, hn⟩ := Option.ne_none_iff_exists'.1 hcap
    rw [get_messages_of_cap hn upstreamModel (not_not.1 hkey)] at h
    cases h

/-- **When an upstream accepts the tool messages.** The messages of a request
body have the structure a strict upstream validates exactly when every repeated
id of the transcript is in place. -/
theorem toolsAnswered_buildRequest_iff (req : CanonicalRequest) (upstreamModel : String)
    (provider : Provider) (messages : List Value)
    (h : (buildRequest req upstreamModel provider).get "messages" = some (.array messages)) :
    ToolsAnswered messages ↔ ResultsInPlace req.messages := by
  rw [messages_buildRequest h]
  exact toolsAnswered_messagesJson req

/-- A request with these messages and nothing else. -/
def plainRequest (messages : List Message) : CanonicalRequest where
  model := "m"
  system := none
  messages := messages
  tools := []
  toolChoice := .auto
  temperature := none
  topP := none
  maxOutputTokens := none
  reasoningEffort := none
  parallelToolCalls := none
  stream := false

/-- A Chat Completions provider with default settings. -/
def plainProvider : Provider where
  wire := .openaiChat
  baseUrl := "https://upstream/v1"
  apiKey := none
  modelPrefix := none
  maxTokensField := "max_tokens"
  extraHeaders := []
  probeScript := none
  probeScriptText := none
  probeSource := .path
  probeEnabled := none
  probeIntervalSecs := none
  quotaMin := none
  costWindows := []
  modelPrices := []
  usage := []
  models := []

/-- A call followed by its result, read as one transcript. -/
theorem toolsAnswered_buildRequest_iff_paired :
    ToolsAnswered (messagesJson
        (plainRequest [.assistant none none [⟨"c1", "f", "{}"⟩], .tool "c1" "out"])) ↔
      ResultsInPlace [.assistant none none [⟨"c1", "f", "{}"⟩], .tool "c1" "out"] :=
  toolsAnswered_buildRequest_iff
    (plainRequest [.assistant none none [⟨"c1", "f", "{}"⟩], .tool "c1" "out"]) "m" plainProvider _
    (get_messages_buildRequest _ "m" plainProvider (Or.inr rfl))

/-- A call, a user message, then the result of the call: the id is announced, so
no parent is synthesized, and the result is left behind the user message. -/
theorem not_toolsAnswered_late_result :
    ∃ messages,
      (buildRequest (plainRequest
        [.assistant none none [⟨"c1", "f", "{}"⟩], .user "wait", .tool "c1" "out"])
        "m" plainProvider).get "messages" = some (.array messages) ∧ ¬ ToolsAnswered messages := by
  refine ⟨_, get_messages_buildRequest _ "m" plainProvider (Or.inr rfl), ?_⟩
  rw [toolsAnswered_messagesJson]
  intro h
  have hown : "c1" ∈ ownersBehind [] []
      [.assistant none none [⟨"c1", "f", "{}"⟩], .user "wait"] := by
    rw [mem_ownersBehind]
    exact h _ (.tool "c1" "out") [] rfl "c1" "out" rfl (by decide)
  exact absurd hown (by decide)

end AiApiBridge.Chat
