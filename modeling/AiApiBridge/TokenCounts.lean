import AiApiBridge.Lib.RoundingError
import AiApiBridge.RebuiltMessage
import AiApiBridge.StreamEnds
import AiApiBridge.StreamUsage
import AiApiBridge.StreamedResponse
import AiApiBridge.ToolParents
import AiApiBridge.Wire.AnthropicRequest
import AiApiBridge.Wire.ResponsesRequest
import AiApiBridge.Wire.UsageFrames

/-!
# Token counts

Token counts cross the bridge at four places: the cap of a request goes into the body
sent upstream, the usage object of the answer comes back in a Responses usage or in an
Anthropic usage, and the meter charges the tokens. Each place narrows or adds without a
check, so a count arrives as it was sent exactly below the limit of that place
(`Crossing.tokenCounts_iff`).
-/

set_option autoImplicit false

namespace AiApiBridge

open Chat ChatStreamParser

theorem Value.ofNat_inj {m n : Nat} : Value.ofNat m = .ofNat n ↔ m = n := by
  simp [Value.ofNat]

/-- Narrowing keeps a `u32` and nothing else. -/
theorem asU32_eq_self_iff (n : Nat) : asU32 n = n ↔ n < 2 ^ 32 :=
  Nat.mod_eq_iff_lt (by decide)

/-! ## The cap of a request -/

/-- The dialect of a request body. -/
inductive RequestDialect where
  | responses
  | anthropic
  | chat
  deriving DecidableEq, Repr

namespace RequestDialect

/-- The member with the cap on the output tokens. -/
def capKey : RequestDialect → String
  | responses => "max_output_tokens"
  | anthropic => "max_tokens"
  | chat => "max_tokens"

/-- The request parser of a dialect. -/
def parseRequest (toString : Value → String) :
    RequestDialect → Value → Except BridgeError CanonicalRequest
  | responses, body => Responses.parseRequest toString body
  | anthropic, body => Anthropic.parseRequest toString body
  | chat, body => Chat.parseRequest body

/-- The cap of a body, when it is a `u64`. -/
def cap (d : RequestDialect) (body : Value) : Option Nat := (body.get d.capKey).bind Value.asU64

/-- The effort a body asks for. -/
def effort : RequestDialect → Value → Option ReasoningEffort
  | responses, body => ((body.get "reasoning").bind fun r => (r.get "effort").bind Value.asStr).bind
      ReasoningEffort.fromStrOpt
  | anthropic, body =>
      if ((body.get "thinking").bind fun t => (t.get "type").bind Value.asStr) = some "enabled" then
        some .high
      else none
  | chat, _ => none

/-- Whether a body settles that calls may be made in parallel. -/
def parallel : RequestDialect → Value → Option Bool
  | anthropic, _ => none
  | _, body => (body.get "parallel_tool_calls").bind Value.asBool

/-- Whether a body asks for a stream. -/
def streams (body : Value) : Bool := ((body.get "stream").bind Value.asBool).getD false

/-- A computation that succeeds does so at every step. -/
theorem exists_of_bind_ok {ε α β : Type} {x : Except ε α} {f : α → Except ε β} {b : β}
    (h : x >>= f = .ok b) : ∃ a, x = .ok a ∧ f a = .ok b := by
  cases x with
  | error e => cases h
  | ok a => exact ⟨a, rfl, h⟩

/-- Only an object has a model. -/
theorem eq_object_of_parseModel {body : Value} {r : Map × String} (h : parseModel body = .ok r) :
    body = .object r.1 := by
  cases body with
  | object obj =>
      rw [parseModel] at h
      split at h
      · cases h
        rfl
      · cases h
  | _ => cases h

/-- What the parser of a dialect makes of the cap, and of the members that are written
behind it. -/
theorem parseRequest_cap {d : RequestDialect} {toString : Value → String} {body : Value}
    {req : CanonicalRequest} (h : d.parseRequest toString body = .ok req) :
    req.maxOutputTokens = (d.cap body).map asU32 ∧ req.reasoningEffort = d.effort body ∧
      req.parallelToolCalls = d.parallel body ∧ req.stream = streams body := by
  cases d with
  | responses =>
      rw [parseRequest, Responses.parseRequest] at h
      obtain ⟨⟨obj, model⟩, hmodel, hrest⟩ := exists_of_bind_ok h
      obtain rfl := eq_object_of_parseModel hmodel
      -- the input and the tools may be refused, and have no part in the rest
      obtain ⟨st, -, htools⟩ := exists_of_bind_ok hrest
      obtain ⟨tools, -, hreq⟩ := exists_of_bind_ok htools
      cases hreq
      exact ⟨rfl, rfl, rfl, rfl⟩
  | anthropic =>
      rw [parseRequest, Anthropic.parseRequest] at h
      obtain ⟨⟨obj, model⟩, hmodel, hrest⟩ := exists_of_bind_ok h
      obtain rfl := eq_object_of_parseModel hmodel
      cases hrest
      exact ⟨rfl, rfl, rfl, rfl⟩
  | chat =>
      rw [parseRequest, Chat.parseRequest] at h
      obtain ⟨⟨obj, model⟩, hmodel, hrest⟩ := exists_of_bind_ok h
      obtain rfl := eq_object_of_parseModel hmodel
      cases hrest
      exact ⟨rfl, rfl, rfl, rfl⟩

end RequestDialect

/-- The members that are written behind the cap. -/
def laterMembers (effort : Option ReasoningEffort) (parallel : Option Bool) (stream : Bool) :
    List String :=
  (if effort.isSome then ["reasoning_effort"] else []) ++
    (if parallel.isSome then ["parallel_tool_calls"] else []) ++
    (if stream then ["stream", "stream_options"] else [])

theorem not_mem_laterMembers {effort : Option ReasoningEffort} {parallel : Option Bool}
    {stream : Bool} {key : String} :
    key ∉ laterMembers effort parallel stream ↔
      (effort.isSome → key ≠ "reasoning_effort") ∧
        (parallel.isSome → key ≠ "parallel_tool_calls") ∧
          (stream = true → key ≠ "stream" ∧ key ≠ "stream_options") := by
  cases effort <;> cases parallel <;> cases stream <;> simp [laterMembers]

/-- A member with another value takes the place of one with this value, or leaves it. -/
theorem lookup_insert_eq_iff {m : Map} {key k : String} {v w : Value} (hv : v ≠ w) :
    (m.insert k v).lookup key = some w ↔ key ≠ k ∧ m.lookup key = some w := by
  rw [Map.lookup_insert]
  by_cases h : key = k <;> simp [h, hv]

theorem lookup_insertSome_eq_iff {α : Type} {field : Option α} {json : α → Value} {m : Map}
    {key k : String} {w : Value} (hjson : ∀ a, json a ≠ w) :
    (insertSome field k json m).lookup key = some w ↔
      (field.isSome → key ≠ k) ∧ m.lookup key = some w := by
  cases field with
  | none => simp [insertSome]
  | some a =>
      rw [insertSome, lookup_insert_eq_iff (hjson a)]
      simp

/-- **The cap in the body sent upstream**: under the field the provider names, and
nowhere when a later member takes that field. -/
theorem get_maxTokensField_buildRequest {req : CanonicalRequest} {c : Nat}
    (hcap : req.maxOutputTokens = some c) (upstreamModel : String) (provider : Provider) (n : Nat) :
    (buildRequest req upstreamModel provider).get provider.maxTokensField = some (.ofNat n) ↔
      n = c ∧ provider.maxTokensField ∉
        laterMembers req.reasoningEffort req.parallelToolCalls req.stream := by
  have hlater : ∀ body : Map, ((if req.stream then
        (body.insert "stream" (.bool true)).insert "stream_options"
          (.object [("include_usage", .bool true)])
      else body).lookup provider.maxTokensField = some (.ofNat n) ↔
        (req.stream = true → provider.maxTokensField ≠ "stream_options" ∧
          provider.maxTokensField ≠ "stream") ∧
            body.lookup provider.maxTokensField = some (.ofNat n)) := by
    intro body
    cases req.stream with
    | false => simp
    | true =>
        rw [if_pos rfl, lookup_insert_eq_iff (by simp [Value.ofNat]),
          lookup_insert_eq_iff (by simp [Value.ofNat])]
        simp [and_assoc]
  -- the members behind the cap from the last one to the first, and then the cap
  simp only [buildRequest, Value.get_object]
  rw [hlater, lookup_insertSome_eq_iff (by simp [Value.ofNat]),
    lookup_insertSome_eq_iff (by simp [Value.ofNat]), lookup_insertSome, if_pos rfl, hcap,
    not_mem_laterMembers]
  simp only [Option.map_some, Option.some_or, Option.some.injEq, Value.ofNat_inj, @eq_comm Nat c]
  tauto

/-! ## The usage of an answer -/

/-- A token count of a usage object. -/
inductive TokenCount where
  | prompt
  | completion
  | total
  | cached
  | reasoning
  deriving DecidableEq, Repr

namespace TokenCount

/-- The count an upstream usage object states, when it is a `u64`. -/
def stated (u : Value) : TokenCount → Option Nat
  | prompt => (u.get "prompt_tokens").bind Value.asU64
  | completion => (u.get "completion_tokens").bind Value.asU64
  | total => (u.get "total_tokens").bind Value.asU64
  | cached => ((u.get "prompt_tokens_details").bind fun d =>
      (d.get "cached_tokens").bind Value.asU64).or
        ((u.get "prompt_cache_hit_tokens").bind Value.asU64)
  | reasoning => ((u.get "completion_tokens_details").bind fun d =>
      d.get "reasoning_tokens").bind Value.asU64

/-- The count in canonical form. -/
def held (c : UsageCounts) : TokenCount → Nat
  | prompt => c.inputTokens
  | completion => c.outputTokens
  | total => c.totalTokens
  | cached => c.cachedInputTokens
  | reasoning => c.reasoningTokens

/-- The member of a Responses usage with the count. -/
def shown (usage : Value) : TokenCount → Option Value
  | prompt => usage.get "input_tokens"
  | completion => usage.get "output_tokens"
  | total => usage.get "total_tokens"
  | cached => (usage.get "input_tokens_details").bind fun d => d.get "cached_tokens"
  | reasoning => (usage.get "output_tokens_details").bind fun d => d.get "reasoning_tokens"

/-- **Every count is narrowed**, and one that is not stated is zero. -/
theorem held_usageCounts (k : TokenCount) (u : Value) :
    k.held (usageCounts u) = asU32 ((k.stated u).getD 0) := by
  cases k <;> rfl

end TokenCount

/-- An upstream answer: a response in one piece, or a stream that ends normally. -/
inductive Answer where
  | whole (resp : Value)
  | streamed (chunks : List Value) (noError : ∀ c ∈ chunks, NoError c)

namespace Answer

/-- The JSON of an answer, piece by piece. -/
def parts : Answer → List Value
  | whole resp => [resp]
  | streamed chunks _ => chunks

/-- The usage object of an answer. A later one replaces an earlier one. -/
def usage (a : Answer) : Option Value := latest chunkUsage a.parts

/-- The usages of the response objects a Responses client gets. -/
def responsesUsages (uuid : Nat → String) (responseId : String) : Answer → List Value
  | whole resp => ((answered uuid responseId resp).finalResponse.get "usage").toList
  | streamed chunks _ =>
      (completedResponses (streamFrames uuid responseId chunks)).filterMap fun r => r.get "usage"

/-- The usage a `message_delta` frame carries. -/
def deltaUsage (fr : SseFrame) : Option Value :=
  if fr.event = "message_delta" then fr.get "usage" else none

/-- The usages an Anthropic client gets with the end of a message. -/
def anthropicUsages (fromStr : String → Option Value) (responseId : String) : Answer → List Value
  | whole resp => ((answeredMessage fromStr responseId resp).get "usage").toList
  | streamed chunks _ => (messageFrames fromStr responseId chunks).filterMap deltaUsage

/-- What the meter reads off an answer. -/
def caught : Answer → Caught
  | whole resp => usageOfResponse resp
  | streamed chunks _ => chunks.foldl Caught.read ⟨none, none, none⟩

/-- The count an answer states last. -/
def lastStated (a : Answer) (k : TokenCount) : Option Nat :=
  latest (fun j => (j.get "usage").bind fun u => k.stated u) a.parts

end Answer

/-! ### What a Responses client gets -/

namespace ResponsesEmitter

/-- A response object shows the counts the emitter holds. -/
theorem shown_finalResponse (e : ResponsesEmitter) :
    ∃ v, e.finalResponse.get "usage" = some v ∧
      ∀ k : TokenCount, k.shown v = some (.ofNat (k.held (e.usage.getD ⟨0, 0, 0, 0, 0⟩))) := by
  refine ⟨_, rfl, ?_⟩
  intro k
  cases k <;> rfl

/-- Before the last event no response object is sent. -/
theorem completedResponses_run (uuid : Nat → String) {evs : List CanonicalEvent}
    (h : ∀ ev ∈ evs, ev ≠ .completed) (e : ResponsesEmitter) :
    completedResponses (Transducer.run (onEvent uuid) e evs).2 = [] := by
  apply Transducer.filterMap_run_eq_nil
  intro e ev hev
  rw [onEvent]
  exact (completedResponses_number _ _).trans (completedResponses_onEventCore uuid e (h ev hev))

/-- The last event sends one. -/
theorem completedResponses_completed (uuid : Nat → String) (e : ResponsesEmitter) :
    completedResponses (onEvent uuid e .completed).2 =
      [(onEvent uuid e .completed).1.finalResponse] := by
  obtain ⟨e', items, heq, hitems⟩ := onEventCore_completed uuid e
  have hquiet : completedResponses items = [] := by
    rw [completedResponses, List.filterMap_eq_nil_iff]
    intro fr hfr
    rw [if_neg]
    intro hevent
    exact absurd (hevent ▸ hitems.2 fr hfr) (by decide)
  rw [onEvent, heq, completedResponses_number, completedResponses_append, hquiet]
  rfl

end ResponsesEmitter

/-- The events of a stream before its end. -/
theorem quiet_run_onChunk {chunks : List Value} (h : ∀ c ∈ chunks, NoError c)
    (p : ChatStreamParser) :
    ∀ ev ∈ (Transducer.run onChunk p chunks).2, ev ≠ .completed ∧ ev.isError = false :=
  mem_run_onChunk (fun _ c hc _ hev => quiet_onChunk (h c hc) hev) p

/-- The events of an answer. -/
def Answer.events (responseId : String) : Answer → List CanonicalEvent
  | whole resp => completionToEvents resp responseId
  | streamed chunks _ => streamEvents responseId chunks

/-- **Both kinds of answers report their usage object last.** -/
theorem Answer.latest_reportOf_events (responseId : String) (a : Answer) :
    latest reportOf (a.events responseId) = a.usage.map usageCounts := by
  cases a with
  | whole resp =>
      rw [events, latest_reportOf_completionToEvents, usage, parts, latest_singleton]
  | streamed chunks noError => exact latest_reportOf_streamEvents responseId noError

/-- An emitter holds the usage of the answer when it has seen its events. -/
theorem KeepsReport.answer {σ : Type} {usage : σ → Option UsageCounts}
    {emit : Transducer.Step σ CanonicalEvent SseFrame} (h : KeepsReport usage emit) (s : σ)
    (responseId : String) {a : Answer} {u : Value} (hu : a.usage = some u) :
    usage (Transducer.run emit s (a.events responseId)).1 = some (usageCounts u) := by
  rw [h.run, a.latest_reportOf_events, hu]
  rfl

/-- **A Responses client gets one usage**, and it shows every count narrowed. -/
theorem Answer.responsesUsages_eq (uuid : Nat → String) (responseId : String) {a : Answer}
    {u : Value} (hu : a.usage = some u) :
    ∃ v, a.responsesUsages uuid responseId = [v] ∧
      ∀ k : TokenCount, k.shown v = some (.ofNat (asU32 ((k.stated u).getD 0))) := by
  have hheld := (ResponsesEmitter.keepsReport_onEvent uuid).answer .new responseId hu
  obtain ⟨v, hv, hshown⟩ := (Transducer.run (ResponsesEmitter.onEvent uuid) .new
    (a.events responseId)).1.shown_finalResponse
  refine ⟨v, ?_, ?_⟩
  · cases a with
    | whole resp =>
        rw [events] at hv
        rw [responsesUsages, answered, hv]
        rfl
    | streamed chunks noError =>
        -- the response object comes with the last event
        rw [events, streamEvents, Transducer.run_append_fst, Transducer.run_singleton] at hv
        rw [responsesUsages, streamFrames, streamEvents, Transducer.run_append_snd,
          Transducer.run_singleton, completedResponses_append,
          ResponsesEmitter.completedResponses_run uuid (fun ev hev =>
            (quiet_run_onChunk noError _ ev hev).1),
          ResponsesEmitter.completedResponses_completed]
        simp [hv]
  · intro k
    rw [hshown, hheld, Option.getD_some, TokenCount.held_usageCounts]

/-! ### What an Anthropic client gets -/

namespace AnthropicEmitter

/-- Before the last event no frame carries the usage. -/
theorem filterMap_deltaUsage_run (fromStr : String → Option Value) {evs : List CanonicalEvent}
    (h : ∀ ev ∈ evs, ev ≠ .completed ∧ ev.isError = false) (e : AnthropicEmitter) :
    (Transducer.run (onEvent fromStr) e evs).2.filterMap Answer.deltaUsage = [] := by
  rw [List.filterMap_eq_nil_iff]
  apply Transducer.forall_mem_run
  intro e ev hev fr hfr
  have hevent := event_mem_onEvent (h ev hev).1 (h ev hev).2 hfr
  rw [Answer.deltaUsage, if_neg]
  intro hdelta
  exact absurd (hdelta ▸ hevent) (by decide)

/-- The last event sends it. -/
theorem filterMap_deltaUsage_completed (fromStr : String → Option Value) (e : AnthropicEmitter) :
    (onEvent fromStr e .completed).2.filterMap Answer.deltaUsage =
      [(onEvent fromStr e .completed).1.usageJson] := by
  obtain ⟨e', blocks, heq, hblocks⟩ := onEvent_completed fromStr e
  have hquiet : blocks.filterMap Answer.deltaUsage = [] := by
    rw [List.filterMap_eq_nil_iff]
    intro fr hfr
    rw [Answer.deltaUsage, if_neg]
    intro hdelta
    exact absurd (hdelta ▸ hblocks.2 fr hfr) (by decide)
  rw [heq, List.filterMap_append, hquiet]
  rfl

end AnthropicEmitter

/-- **An Anthropic client gets one usage.** The narrowed prompt is split in what was not
read from the cache and what was. -/
theorem Answer.anthropicUsages_eq (fromStr : String → Option Value) (responseId : String)
    {a : Answer} {u : Value} (hu : a.usage = some u) :
    ∃ v, a.anthropicUsages fromStr responseId = [v] ∧
      v.get "input_tokens" = some (.ofNat (asU32 ((TokenCount.prompt.stated u).getD 0) -
        asU32 ((TokenCount.cached.stated u).getD 0))) ∧
      v.get "cache_read_input_tokens" =
        some (.ofNat (asU32 ((TokenCount.cached.stated u).getD 0))) := by
  have hheld := (AnthropicEmitter.keepsReport_onEvent fromStr).answer .new responseId hu
  refine ⟨(Transducer.run (AnthropicEmitter.onEvent fromStr) .new
    (a.events responseId)).1.usageJson, ?_, ?_, ?_⟩
  · cases a with
    | whole resp => rfl
    | streamed chunks noError =>
        rw [anthropicUsages, messageFrames, events, streamEvents, Transducer.run_append_snd,
          Transducer.run_append_fst, Transducer.run_singleton, List.filterMap_append,
          AnthropicEmitter.filterMap_deltaUsage_run fromStr (quiet_run_onChunk noError _),
          AnthropicEmitter.filterMap_deltaUsage_completed]
        rfl
  · simp only [AnthropicEmitter.usageJson, AnthropicEmitter.anthropicUsage, hheld]
    rfl
  · simp only [AnthropicEmitter.usageJson, AnthropicEmitter.anthropicUsage, hheld]
    rfl

/-! ### What the meter charges -/

/-- The meter reads the counts that were stated last. -/
theorem Answer.caught_tokens (a : Answer) :
    a.caught.promptTokens = a.lastStated .prompt ∧
      a.caught.completionTokens = a.lastStated .completion := by
  cases a with
  | whole resp =>
      rw [lastStated, lastStated, parts, latest_singleton, latest_singleton]
      exact ⟨rfl, rfl⟩
  | streamed chunks noError =>
      rw [caught, foldl_read]
      simp only [Option.or_none]
      exact ⟨rfl, rfl⟩

/-- A tracked byte stream without errors has caught what its chunks say. -/
theorem Answer.caught_of_runStream {σ : Type} (emit : Transducer.Step σ CanonicalEvent SseFrame)
    (fromStr : String → Option Value) (responseId : String) (emitter : σ)
    {chunks : List UpstreamChunk} (h : ErrorFree fromStr chunks) :
    (runStream emit fromStr true responseId emitter chunks).2 =
      some (Answer.streamed (chunkJsons fromStr chunks) h.2).caught :=
  caught_runStream emit fromStr responseId emitter h

/-- The tokens of an answer. -/
def Answer.tokens (a : Answer) : Nat :=
  (a.lastStated .prompt).getD 0 + (a.lastStated .completion).getD 0

/-- **The charge for the tokens of an answer** is taken at 64 bits. -/
theorem Answer.mem_requestAmounts_token {a : Answer} {kinds : List (UsageKind × Option ModelPrice)}
    {amount : FloatValue} :
    (.token, amount) ∈ requestAmounts kinds a.caught ↔
      (∃ price, (.token, price) ∈ kinds) ∧ amount = .ofNat (a.tokens % 2 ^ 64) := by
  obtain ⟨hprompt, hcompletion⟩ := a.caught_tokens
  have hcharge : ∀ price, Usage.amountFor .token price a.caught.cost a.caught.promptTokens
      a.caught.completionTokens = some (.ofNat (a.tokens % 2 ^ 64)) := by
    intro price
    rw [hprompt, hcompletion]
    rfl
  simp only [requestAmounts, List.mem_filterMap, Option.map_eq_some_iff, Prod.mk.injEq,
    Prod.exists]
  constructor
  · rintro ⟨kind, price, hmem, amount', hamount, rfl, rfl⟩
    rw [hcharge, Option.some.injEq] at hamount
    exact ⟨⟨price, hmem⟩, hamount.symm⟩
  · rintro ⟨⟨price, hmem⟩, rfl⟩
    exact ⟨.token, price, hmem, _, hcharge price, rfl, rfl⟩

/-! ## Counts that cross the bridge -/

/-- One request that the bridge accepts, and an answer to it with a usage object. -/
structure Crossing where
  dialect : RequestDialect
  toString : Value → String
  body : Value
  request : CanonicalRequest
  accepted : dialect.parseRequest toString body = .ok request
  upstreamModel : String
  provider : Provider
  answer : Answer
  usage : Value
  reported : answer.usage = some usage
  uuid : Nat → String
  fromStr : String → Option Value
  responseId : String
  kinds : List (UsageKind × Option ModelPrice)

namespace Crossing

/-- The prompt count of the answer, zero when it has none. -/
def prompt (x : Crossing) : Nat := (TokenCount.prompt.stated x.usage).getD 0

/-- The cached part of the prompt. -/
def cached (x : Crossing) : Nat := (TokenCount.cached.stated x.usage).getD 0

/-- The cap appears in the body sent upstream. -/
def CapArrives (x : Crossing) : Prop :=
  ∀ n, x.dialect.cap x.body = some n →
    (buildRequest x.request x.upstreamModel x.provider).get x.provider.maxTokensField =
      some (.ofNat n)

/-- A Responses client gets one usage, with the counts of the answer. -/
def CountsArrive (x : Crossing) : Prop :=
  ∃ v, x.answer.responsesUsages x.uuid x.responseId = [v] ∧
    ∀ (k : TokenCount) (n : Nat), k.stated x.usage = some n → k.shown v = some (.ofNat n)

/-- An Anthropic client gets one usage, and what it has as read from the cache and as
not adds up to the prompt. -/
def PromptArrives (x : Crossing) : Prop :=
  ∃ v, x.answer.anthropicUsages x.fromStr x.responseId = [v] ∧ (x.cached ≤ x.prompt →
    ∃ input cacheRead, v.get "input_tokens" = some (.ofNat input) ∧
      v.get "cache_read_input_tokens" = some (.ofNat cacheRead) ∧ input + cacheRead = x.prompt)

/-- Metered tokens are charged as the sum of the counts. -/
def SumCharged (x : Crossing) : Prop :=
  ∀ amount, (.token, amount) ∈ requestAmounts x.kinds x.answer.caught ↔
    (∃ price, (.token, price) ∈ x.kinds) ∧ amount = .ofNat x.answer.tokens

/-- The cap is a `u32`, and no later member has the name of its field. -/
def CapFits (x : Crossing) : Prop :=
  ∀ n, x.dialect.cap x.body = some n → n < 2 ^ 32 ∧ x.provider.maxTokensField ∉
    laterMembers (x.dialect.effort x.body) (x.dialect.parallel x.body)
      (RequestDialect.streams x.body)

/-- Every count of the answer is a `u32`. -/
def CountsFit (x : Crossing) : Prop :=
  ∀ (k : TokenCount) (n : Nat), k.stated x.usage = some n → n < 2 ^ 32

/-- The prompt is a `u32`, unless its cached part exceeds it. -/
def PromptFits (x : Crossing) : Prop := x.cached ≤ x.prompt → x.prompt < 2 ^ 32

/-- The sum is a `u64` when tokens are metered. -/
def SumFits (x : Crossing) : Prop :=
  (∃ price, (.token, price) ∈ x.kinds) → x.answer.tokens < 2 ^ 64

theorem capArrives_iff (x : Crossing) : x.CapArrives ↔ x.CapFits := by
  obtain ⟨hmax, heffort, hparallel, hstream⟩ := RequestDialect.parseRequest_cap x.accepted
  apply forall_congr'
  intro n
  apply imp_congr_right
  intro hn
  have hcap : x.request.maxOutputTokens = some (asU32 n) := by
    rw [hmax, hn]
    rfl
  rw [get_maxTokensField_buildRequest hcap, eq_comm, asU32_eq_self_iff, heffort, hparallel, hstream]

theorem countsArrive_iff (x : Crossing) : x.CountsArrive ↔ x.CountsFit := by
  obtain ⟨v, hv, hshown⟩ := x.answer.responsesUsages_eq x.uuid x.responseId x.reported
  have hcount : ∀ (k : TokenCount) (n : Nat), k.stated x.usage = some n →
      (k.shown v = some (.ofNat n) ↔ n < 2 ^ 32) := by
    intro k n hn
    rw [hshown, hn, Option.getD_some, Option.some.injEq, Value.ofNat_inj, asU32_eq_self_iff]
  constructor
  · rintro ⟨v', hv', h⟩ k n hn
    rw [hv, List.singleton_inj] at hv'
    exact (hcount k n hn).1 (hv' ▸ h k n hn)
  · intro h
    exact ⟨v, hv, fun k n hn => (hcount k n hn).2 (h k n hn)⟩

/-- A split that saturates adds up to the prompt when the prompt is a `u32`, and then
only. -/
theorem split_asU32_iff {prompt cached : Nat} (h : cached ≤ prompt) :
    asU32 prompt - asU32 cached + asU32 cached = prompt ↔ prompt < 2 ^ 32 := by
  have hprompt : asU32 prompt < 2 ^ 32 := Nat.mod_lt _ (by decide)
  have hcached : asU32 cached < 2 ^ 32 := Nat.mod_lt _ (by decide)
  constructor
  · omega
  · intro hlt
    rw [asU32_of_lt hlt, asU32_of_lt (by omega)]
    omega

theorem promptArrives_iff (x : Crossing) : x.PromptArrives ↔ x.PromptFits := by
  obtain ⟨v, hv, hinput, hcache⟩ := x.answer.anthropicUsages_eq x.fromStr x.responseId x.reported
  constructor
  · rintro ⟨v', hv', h⟩ hle
    obtain ⟨input, cacheRead, hinput', hcache', hsum⟩ := h hle
    rw [hv, List.singleton_inj] at hv'
    subst hv'
    rw [hinput, Option.some.injEq, Value.ofNat_inj] at hinput'
    rw [hcache, Option.some.injEq, Value.ofNat_inj] at hcache'
    subst hinput' hcache'
    exact (split_asU32_iff hle).1 hsum
  · intro h
    exact ⟨v, hv, fun hle => ⟨_, _, hinput, hcache, (split_asU32_iff hle).2 (h hle)⟩⟩

theorem sumCharged_iff (x : Crossing) : x.SumCharged ↔ x.SumFits := by
  have hcharged : ∀ amount, (.token, amount) ∈ requestAmounts x.kinds x.answer.caught ↔
      (∃ price, (.token, price) ∈ x.kinds) ∧ amount = .ofNat (x.answer.tokens % 2 ^ 64) :=
    fun amount => Answer.mem_requestAmounts_token
  constructor
  · intro h hmetered
    obtain ⟨-, heq⟩ := (h _).1 ((hcharged _).2 ⟨hmetered, rfl⟩)
    exact (FloatValue.ofNat_mod_eq_iff _).1 heq
  · intro h amount
    rw [hcharged]
    apply and_congr_right
    intro hmetered
    rw [(FloatValue.ofNat_mod_eq_iff _).2 (h hmetered)]

/-- **When token counts cross the bridge unchanged.** For every accepted request in one of
the three dialects, and every answer in one piece or streamed: the cap appears in the body
sent upstream exactly when it is a `u32` and its field is not written once more; the counts
of the answer appear in the Responses usage exactly when all of them are `u32`; the
Anthropic usage adds up to the prompt exactly when that is a `u32`, or less than its cached
part; and metered tokens are charged at their exact sum exactly when that is a `u64`. -/
theorem tokenCounts_iff (x : Crossing) :
    (x.CapArrives ↔ x.CapFits) ∧ (x.CountsArrive ↔ x.CountsFit) ∧
      (x.PromptArrives ↔ x.PromptFits) ∧ (x.SumCharged ↔ x.SumFits) :=
  ⟨x.capArrives_iff, x.countsArrive_iff, x.promptArrives_iff, x.sumCharged_iff⟩

/-- A cap of `2 ^ 32 + 100`, a prompt of `2 ^ 32` and the greatest `u64` of completion
tokens. -/
def oversized : Crossing where
  dialect := .responses
  toString := fun _ => ""
  body := .object [("model", .string "m"), ("max_output_tokens", .ofNat (2 ^ 32 + 100))]
  request := ⟨"m", none, [], [], .auto, none, none, some 100, none, none, false⟩
  accepted := rfl
  upstreamModel := "m"
  provider := ⟨.openaiChat, "http://localhost", none, none, "max_tokens", [], none, none, .path,
    none, none, none, [], [], [.token []], []⟩
  answer := .whole (.object [("usage", .object [("prompt_tokens", .ofNat (2 ^ 32)),
    ("completion_tokens", .ofNat (2 ^ 64 - 1))])])
  usage := .object [("prompt_tokens", .ofNat (2 ^ 32)), ("completion_tokens", .ofNat (2 ^ 64 - 1))]
  reported := rfl
  uuid := unaryId
  fromStr := fun _ => none
  responseId := "r"
  kinds := [(.token, none)]

/-- The cap arrives as `100`, the prompt as `0`, and the sum wraps around. -/
theorem not_arrives_oversized :
    ¬ oversized.CapArrives ∧ ¬ oversized.CountsArrive ∧ ¬ oversized.PromptArrives ∧
      ¬ oversized.SumCharged := by
  rw [capArrives_iff, countsArrive_iff, promptArrives_iff, sumCharged_iff]
  refine ⟨?_, ?_, ?_, ?_⟩
  · intro h
    exact absurd (h (2 ^ 32 + 100) rfl).1 (by decide)
  · intro h
    exact absurd (h .prompt (2 ^ 32) rfl) (by decide)
  · intro h
    exact absurd (h (by decide)) (by decide)
  · intro h
    exact absurd (h ⟨none, List.mem_singleton_self _⟩) (by decide)

end Crossing

end AiApiBridge
