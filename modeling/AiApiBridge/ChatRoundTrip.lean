import AiApiBridge.ToolParents

/-!
# Chat requests parsed again

The chat endpoint parses every request and builds it again. Each part of a built
body is read back as what it was built from, with two exceptions: the parser reads
neither `top_p` nor `reasoning_effort`, so a request survives exactly when it has
neither (`roundTrips_iff`).
-/

set_option autoImplicit false

namespace AiApiBridge.Chat

/-! ## The parts of a body -/

theorem parseChatToolCalls_map (calls : List ToolCall) :
    parseChatToolCalls (some (.array (calls.map toolCallJson))) = calls := by
  rw [parseChatToolCalls, Option.bind_some, Value.asArray_array, Option.getD_some,
    List.filterMap_map]
  have hread : ∀ c : ToolCall, ((fun tc : Value => (tc.get "function").bind fun f =>
      ((f.get "name").bind Value.asStr).map fun name =>
        (⟨strOr tc "id" "", name, strOr f "arguments" ""⟩ : ToolCall)) ∘ toolCallJson) c =
      some c := by
    intro c
    simp [toolCallJson, strOr]
  rw [funext hread, List.filterMap_some]

/-- A definition with its schema repaired. -/
def sanitizedTool (t : ToolDef) : ToolDef := { t with parameters := sanitizeParameters t.parameters }

theorem parseChatTools_map (tools : List ToolDef) :
    parseChatTools (some (.array (tools.map toolJson))) = tools.map sanitizedTool := by
  rw [parseChatTools, Option.bind_some, Value.asArray_array, Option.getD_some, List.filterMap_map,
    ← List.filterMap_eq_map]
  congr 1
  funext t
  cases hd : t.description <;> simp [toolJson, sanitizedTool, Value.ofOption, Value.asStr, hd]

theorem parseChatToolChoice_json (choice : ToolChoice) :
    parseChatToolChoice (some (toolChoiceJson choice)) = choice := by
  cases choice <;> simp [toolChoiceJson, parseChatToolChoice]

/-- A message with empty assistant text read as absent. -/
def readBack : Message → Message
  | .assistant text reasoning calls => .assistant (text.filter fun s => s ≠ "") reasoning calls
  | m => m

theorem parseChatMessage_messageJson (acc : Option String × List Message) (m : Message) :
    parseChatMessage acc (messageJson m) = (acc.1, acc.2 ++ [readBack m]) := by
  cases m with
  | user text => simp [parseChatMessage, messageJson, strOr, readBack]
  | tool callId output => simp [parseChatMessage, messageJson, strOr, readBack]
  | assistant text reasoning calls =>
      have hcalls : parseChatToolCalls
          ((messageJson (.assistant text reasoning calls)).get "tool_calls") = calls := by
        -- no calls are printed as no member
        by_cases hempty : calls = []
        · cases reasoning <;> simp [messageJson, hempty, parseChatToolCalls]
        · cases reasoning <;> simp [messageJson, hempty, parseChatToolCalls_map]
      have htext : ((messageJson (.assistant text reasoning calls)).get "content").bind
          Value.asStr = text := by
        cases text <;> simp [messageJson, Value.ofOption, Value.asStr]
      have hreasoning : ((messageJson (.assistant text reasoning calls)).get
          "reasoning_content").bind Value.asStr = reasoning := by
        by_cases hempty : calls = [] <;> cases reasoning <;>
          simp [messageJson, hempty, Value.asStr]
      have hrole : strOr (messageJson (.assistant text reasoning calls)) "role" "user" =
          "assistant" := by
        simp [messageJson, strOr]
      simp only [parseChatMessage, hrole, hcalls, htext, hreasoning, readBack]
      rfl

theorem foldl_parseChatMessage (ms : List Message) (acc : Option String × List Message) :
    (ms.map messageJson).foldl parseChatMessage acc = (acc.1, acc.2 ++ ms.map readBack) := by
  induction ms generalizing acc with
  | nil => simp
  | cons m ms ih => rw [List.map_cons, List.foldl_cons, parseChatMessage_messageJson, ih]; simp

/-- The messages of a body. -/
theorem foldl_messagesJson (req : CanonicalRequest) :
    (messagesJson req).foldl parseChatMessage (none, []) =
      (req.system, (normalizeToolParents req.messages).map readBack) := by
  rw [messagesJson, List.foldl_append, foldl_parseChatMessage]
  cases hs : req.system <;> simp [systemJson, parseChatMessage, strOr]

/-! ## The members of a body -/

section Members

variable (req : CanonicalRequest) (upstreamModel : String) {provider : Provider}
  (hcap : provider.maxTokensField = "max_tokens")

include hcap

/-- The members that the parser reads. -/
theorem get_buildRequest :
    (buildRequest req upstreamModel provider).get "model" = some (.string upstreamModel) ∧
    (buildRequest req upstreamModel provider).get "tools" =
      (if req.tools = [] then none else some (.array (req.tools.map toolJson))) ∧
    (buildRequest req upstreamModel provider).get "tool_choice" =
      (if req.tools = [] then none else some (toolChoiceJson req.toolChoice)) ∧
    (buildRequest req upstreamModel provider).get "temperature" = req.temperature.map floatJson ∧
    (buildRequest req upstreamModel provider).get "max_tokens" =
      req.maxOutputTokens.map Value.ofNat ∧
    (buildRequest req upstreamModel provider).get "parallel_tool_calls" =
      req.parallelToolCalls.map Value.bool ∧
    (buildRequest req upstreamModel provider).get "stream" =
      (if req.stream then some (.bool true) else none) := by
  by_cases ht : req.tools = [] <;> by_cases hs : req.stream = true <;>
    simp [buildRequest, lookup_insertSome, hcap, ht, hs]

end Members

/-! ## The round trip -/

/-- A finite binary32 value. -/
def IsBinary32 (v : FloatValue) : Prop :=
  ∃ q, v = .finite q ∧ FloatValue.toBinary32 q = .finite q

/-- The ranges of the numeric fields: finite `f32` values and a `u32`. -/
structure InRange (req : CanonicalRequest) : Prop where
  temperature : ∀ v, req.temperature = some v → IsBinary32 v
  topP : ∀ v, req.topP = some v → IsBinary32 v
  maxOutputTokens : ∀ n, req.maxOutputTokens = some n → n < 2 ^ 32

theorem asF32_floatJson {v : FloatValue} (h : IsBinary32 v) : asF32 (floatJson v) = some v := by
  rcases h with ⟨q, rfl, hq⟩
  simp [floatJson, asF32, Value.asF64, FloatValue.narrow, hq]

/-- What a built body is parsed as. -/
def reparsed (req : CanonicalRequest) : CanonicalRequest :=
  { req with
    messages := (normalizeToolParents req.messages).map readBack
    tools := req.tools.map sanitizedTool
    toolChoice := if req.tools = [] then .auto else req.toolChoice
    topP := none
    reasoningEffort := none }

/-- **Parsing a built body.** -/
theorem parseRequest_buildRequest {req : CanonicalRequest} (hreq : InRange req)
    {provider : Provider} (hcap : provider.maxTokensField = "max_tokens") :
    parseRequest (buildRequest req req.model provider) = .ok (reparsed req) := by
  obtain ⟨hmodel, htools, hchoice, htemperature, hmax, hparallel, hstream⟩ :=
    get_buildRequest req req.model hcap
  have hmessages := get_messages_buildRequest req req.model provider (Or.inl (by simp [hcap]))
  obtain ⟨obj, hobj⟩ : ∃ obj, buildRequest req req.model provider = .object obj := ⟨_, rfl⟩
  rw [hobj] at hmodel htools hchoice htemperature hmax hparallel hstream hmessages ⊢
  simp only [Value.get_object] at hmodel htools hchoice htemperature hmax hparallel hstream hmessages
  -- the numbers pass through a double and through 64 bits and come back as they were
  have htemperature' : (obj.lookup "temperature").bind asF32 = req.temperature := by
    cases h : req.temperature with
    | none => simp [htemperature, h]
    | some v => simp [htemperature, h, asF32_floatJson (hreq.temperature v h)]
  have hmax' : ((obj.lookup "max_tokens").bind Value.asU64).map asU32 = req.maxOutputTokens := by
    cases h : req.maxOutputTokens with
    | none => simp [hmax, h]
    | some n => simp [hmax, h, asU32_of_lt (hreq.maxOutputTokens n h)]
  have htools' : parseChatTools (obj.lookup "tools") = req.tools.map sanitizedTool := by
    rw [htools]
    split
    · rename_i hnil
      rw [hnil]
      rfl
    · exact parseChatTools_map req.tools
  -- a tool choice is sent along with tools only
  have hchoice' : parseChatToolChoice (obj.lookup "tool_choice") =
      if req.tools = [] then .auto else req.toolChoice := by
    rw [hchoice]
    split
    · rfl
    · exact parseChatToolChoice_json req.toolChoice
  have hparallel' : (obj.lookup "parallel_tool_calls").bind Value.asBool =
      req.parallelToolCalls := by
    rw [hparallel]
    cases req.parallelToolCalls <;> rfl
  have hstream' : ((obj.lookup "stream").bind Value.asBool).getD false = req.stream := by
    rw [hstream]
    cases req.stream <;> rfl
  have hparse : parseModel (.object obj) = .ok (obj, req.model) := by
    simp [parseModel, hmodel]
  rw [parseRequest, hparse]
  simp only [bind, Except.bind, pure, Except.pure, hmessages, Option.bind_some,
    Value.asArray_array, Option.getD_some, foldl_messagesJson, htools', hchoice', htemperature',
    hmax', hparallel', hstream']
  rfl

/-- The second request forwards everything that the first one represents. -/
structure Forwards (req req' : CanonicalRequest) : Prop where
  model : req'.model = req.model
  system : req'.system = req.system
  messages : req'.messages = (normalizeToolParents req.messages).map readBack
  tools : req'.tools = req.tools.map sanitizedTool
  toolChoice : req.tools ≠ [] → req'.toolChoice = req.toolChoice
  temperature : req'.temperature = req.temperature
  topP : req'.topP = req.topP
  maxOutputTokens : req'.maxOutputTokens = req.maxOutputTokens
  reasoningEffort : req'.reasoningEffort = req.reasoningEffort
  parallelToolCalls : req'.parallelToolCalls = req.parallelToolCalls
  stream : req'.stream = req.stream

/-- The body built from a request is parsed as one that forwards it. -/
def RoundTrips (req : CanonicalRequest) (provider : Provider) : Prop :=
  ∃ req', parseRequest (buildRequest req req.model provider) = .ok req' ∧ Forwards req req'

/-- **Which requests survive the chat endpoint.** Those without `top_p` and without a
reasoning effort. -/
theorem roundTrips_iff (req : CanonicalRequest) (hreq : InRange req) (provider : Provider)
    (hcap : provider.maxTokensField = "max_tokens") :
    RoundTrips req provider ↔ req.topP = none ∧ req.reasoningEffort = none := by
  constructor
  · rintro ⟨req', hparse, hforwards⟩
    -- the parser reads neither of the two back
    rw [parseRequest_buildRequest hreq hcap] at hparse
    cases hparse
    exact ⟨hforwards.topP.symm, hforwards.reasoningEffort.symm⟩
  · rintro ⟨htop, heffort⟩
    refine ⟨reparsed req, parseRequest_buildRequest hreq hcap, ?_⟩
    exact {
      model := rfl
      system := rfl
      messages := rfl
      tools := rfl
      toolChoice := fun hne => if_neg hne
      temperature := rfl
      topP := htop.symm
      maxOutputTokens := rfl
      reasoningEffort := heffort.symm
      parallelToolCalls := rfl
      stream := rfl }

/-- A request with a temperature, a token cap and nothing else set. -/
def warmRequest : CanonicalRequest :=
  { plainRequest [.user "hi"] with
    temperature := some (.finite (1 / 2))
    maxOutputTokens := some 64 }

theorem inRange_warmRequest : InRange warmRequest where
  temperature := by
    rintro v ⟨⟩
    exact ⟨1 / 2, rfl, by decide +kernel⟩
  topP := fun v h => by cases h
  maxOutputTokens := by
    rintro n ⟨⟩
    decide

theorem roundTrips_iff_warmRequest :
    RoundTrips warmRequest plainProvider ↔
      warmRequest.topP = none ∧ warmRequest.reasoningEffort = none :=
  roundTrips_iff warmRequest inRange_warmRequest plainProvider rfl

/-- The same request with a `top_p`. -/
def topRequest : CanonicalRequest := { warmRequest with topP := some (.finite (1 / 2)) }

/-- `top_p` is written into the body and not read back. -/
theorem not_roundTrips_topP : InRange topRequest ∧ ¬ RoundTrips topRequest plainProvider := by
  refine ⟨⟨inRange_warmRequest.temperature, ?_, inRange_warmRequest.maxOutputTokens⟩, ?_⟩
  · rintro v ⟨⟩
    exact ⟨1 / 2, rfl, by decide +kernel⟩
  · rintro ⟨req', hparse, hforwards⟩
    have htop : req'.topP = none := by
      cases hparse
      rfl
    rw [hforwards.topP] at htop
    cases htop

end AiApiBridge.Chat
