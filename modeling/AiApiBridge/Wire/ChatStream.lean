import AiApiBridge.Wire.ChatRequest
import AiApiBridge.Lib.Transducer

/-!
# Chat Completions responses

The two translators from upstream responses to canonical events of
`wire/chat.rs`: `ChatStreamParser.onChunk` for one chunk of a stream and
`completionToEvents` for a whole completion.
-/

set_option autoImplicit false

namespace AiApiBridge

/-- The stream parser. `startedTools` holds the tool indices seen so far, each
once, in order of appearance. -/
structure ChatStreamParser where
  responseId : String
  model : String
  created : Bool
  startedTools : List Nat
  deriving DecidableEq, Repr

namespace Chat

/-- A count of an upstream usage object, narrowed to a `u32`. -/
def usageCount (v : Option Value) : Nat := asU32 ((v.bind Value.asU64).getD 0)

/-- The counts of an upstream usage object. Prefix-cache hits are read from
`prompt_tokens_details.cached_tokens`, else from `prompt_cache_hit_tokens`. -/
def usageCounts (u : Value) : UsageCounts :=
  let cached := ((u.get "prompt_tokens_details").bind fun d =>
    (d.get "cached_tokens").bind Value.asU64).or
      ((u.get "prompt_cache_hit_tokens").bind Value.asU64)
  { inputTokens := usageCount (u.get "prompt_tokens")
    outputTokens := usageCount (u.get "completion_tokens")
    totalTokens := usageCount (u.get "total_tokens")
    cachedInputTokens := asU32 (cached.getD 0)
    reasoningTokens := usageCount ((u.get "completion_tokens_details").bind fun d =>
      d.get "reasoning_tokens") }

/-- The usage event of an upstream usage object. -/
def usageEvent (u : Value) : CanonicalEvent := .usage (usageCounts u)

/-- The error event of a non-null `error` member. -/
def errorEvent (err : Value) : CanonicalEvent :=
  .error (strOr err "message" "upstream error")
    ((((err.get "code").bind Value.asU64).map asU16).getD 502)

/-- A member that is there and not `null`. -/
def nonNull (v : Option Value) : Option Value := v.filter fun w => !w.isNull

/-- The string under `key`, when it is one and not empty. -/
def nonEmptyStr (v : Option Value) : Option String :=
  (v.bind Value.asStr).filter fun s => s ≠ ""

/-- The reasoning text of a delta or a message: `reasoning_content` when that
member is there, `reasoning` otherwise. -/
def reasoningText (v : Value) : Option String :=
  nonEmptyStr ((v.get "reasoning_content").or (v.get "reasoning"))

/-- The first choice of a response or chunk. -/
def firstChoice (v : Value) : Option Value :=
  ((v.get "choices").bind Value.asArray).bind List.head?

/-- `tc.function.<key>` as a string. -/
def functionStr (tc : Value) (key : String) : Option String :=
  (tc.get "function").bind fun f => (f.get key).bind Value.asStr

end Chat

namespace ChatStreamParser

open Chat

def new (responseId : String) : ChatStreamParser := ⟨responseId, "", false, []⟩

/-- The index of a tool fragment, narrowed to a `u32`. -/
def fragmentIndex (tc : Value) : Nat := asU32 (((tc.get "index").bind Value.asU64).getD 0)

/-- One tool fragment: a start the first time its index occurs, then its
argument text. -/
def onFragment (started : List Nat) (tc : Value) : List Nat × List CanonicalEvent :=
  let index := fragmentIndex tc
  let start := if index ∈ started then (started, [])
    else (started ++ [index],
      [.toolCallStart index (strOr tc "id" "") ((functionStr tc "name").getD "")])
  let args := match nonEmptyStr ((tc.get "function").bind fun f => f.get "arguments") with
    | some args => [.toolCallArgsDelta index args]
    | none => []
  (start.1, start.2 ++ args)

/-- The events of one delta. -/
def onDelta (started : List Nat) (delta : Value) : List Nat × List CanonicalEvent :=
  let fragments := Transducer.run onFragment started
    (((delta.get "tool_calls").bind Value.asArray).getD [])
  (fragments.1,
    ((reasoningText delta).map CanonicalEvent.reasoningDelta).toList ++
      ((nonEmptyStr (delta.get "content")).map CanonicalEvent.textDelta).toList ++ fragments.2)

/-- The events of the first choice: its delta, then, when it carries a finish
reason, the end of every tool started so far, in index order. -/
def onChoice (started : List Nat) (choice : Value) : List Nat × List CanonicalEvent :=
  let r := match choice.get "delta" with
    | some delta => onDelta started delta
    | none => (started, [])
  let finish := if ((choice.get "finish_reason").bind Value.asStr).isSome then
      (r.1.insertionSort (· ≤ ·)).map CanonicalEvent.toolCallDone
    else []
  (r.1, r.2 ++ finish)

/-- Translate one chunk. A non-null `error` member gives the error event and
nothing else; the first other chunk opens the response. -/
def onChunk (p : ChatStreamParser) (chunk : Value) : ChatStreamParser × List CanonicalEvent :=
  match nonNull (chunk.get "error") with
  | some err => (p, [errorEvent err])
  | none =>
      let model := if p.created then p.model else strOr chunk "model" ""
      let opening := if p.created then [] else [.created p.responseId model]
      let r := match firstChoice chunk with
        | some choice => onChoice p.startedTools choice
        | none => (p.startedTools, [])
      ({ p with model, created := true, startedTools := r.1 },
        opening ++ r.2 ++ ((nonNull (chunk.get "usage")).map usageEvent).toList)

end ChatStreamParser

namespace Chat

/-- The events of the `i`-th tool call of a complete message. -/
def completedCallEvents (i : Nat) (tc : Value) : List CanonicalEvent :=
  let index := asU32 i
  let args := (functionStr tc "arguments").getD ""
  [.toolCallStart index (strOr tc "id" "") ((functionStr tc "name").getD "")] ++
    (if args = "" then [] else [.toolCallArgsDelta index args]) ++ [.toolCallDone index]

/-- The events of the message of a complete response. -/
def messageEvents (msg : Value) : List CanonicalEvent :=
  ((reasoningText msg).map CanonicalEvent.reasoningDelta).toList ++
    ((nonEmptyStr (msg.get "content")).map CanonicalEvent.textDelta).toList ++
    ((((msg.get "tool_calls").bind Value.asArray).getD []).mapIdx completedCallEvents).flatten

/-- Translate a full (non-streaming) response. -/
def completionToEvents (resp : Value) (responseId : String) : List CanonicalEvent :=
  [.created responseId (strOr resp "model" "")] ++
    (match (firstChoice resp).bind fun c => c.get "message" with
      | some msg => messageEvents msg
      | none => []) ++
    ((nonNull (resp.get "usage")).map usageEvent).toList ++ [.completed]

end Chat

end AiApiBridge
