import AiApiBridge.AdminViews
import AiApiBridge.StreamUsage
import AiApiBridge.Upstream
import AiApiBridge.Lib.Purge
import AiApiBridge.Wire.AnthropicRequest
import AiApiBridge.Wire.ResponsesRequest

/-!
# The endpoints

The request handlers of `server.rs` with everything they share: the live configuration and
the database, the status map, the usage meter and its switch. A handler is an attempt on this
state; its accesses are the points where the source takes a lock, awaits an upstream or a
statement. A `Party` is whoever takes part: a client, an admin, a probe that reports, a
reload that cleans up the status map. Parties take turns in any way.

The accesses of a handler walk over its candidates as `tryFrom` does
(`tryCandidates_alone`) and record what `recordAmounts` records (`recordEach_alone`).
-/

set_option autoImplicit false

namespace AiApiBridge

open Router Failover Refresh
open Transducer (Step)

/-! ## The shared state -/

/-- What all requests share. The rows of `usage_events` are left to the database. -/
structure LiveState where
  app : AppState
  status : StatusMap
  meter : UsageMeter
  usageOn : Bool

/-- What an access does. -/
inductive Effect where
  | quiet
  /-- The chain of a request has been resolved. -/
  | resolved (chain : List Resolved)
  /-- A candidate has been sent a request; it has accepted, or failed with an error. -/
  | posted (c : Resolved) (req : UpstreamRequest) (failure : Option BridgeError)
  | degraded (name : String)
  | recorded (provider : String) (kind : UsageKind) (amount : FloatValue)
  | toggled
  | stored (e : Refresh.Event Table)
  /-- A configuration has become the live one. -/
  | swapped (cfg : Config)
  | probed (name : String)
  | retained

/-- A request handler, or a part of one. -/
abbrev Live (α : Type) : Type := Attempt LiveState Effect BridgeError α

/-- A handler reads, and leaves everything as it is. -/
def observe {α : Type} (read : LiveState → Except BridgeError α) : Live α :=
  .access (fun s => (s, .quiet)) read

/-- An access of the admin API; a swap makes the configuration known. -/
def Effect.ofApp (app : AppState) : Refresh.Event Table → Effect
  | .swapped => .swapped app.config
  | e => .stored e

/-- A handler of the admin API, on the part of the state it knows. -/
def onApp {ε α : Type} (t : Handler ε α) : Attempt LiveState Effect ε α :=
  Task.focus LiveState.app (fun app s => { s with app }) Effect.ofApp t

section OnApp

variable {ε ε' α β : Type}

theorem onApp_bind (t : Handler ε α) (k : α → Handler ε β) :
    onApp (t >>= k : Handler ε β) = (onApp t >>= fun a => onApp (k a)) := by
  refine (Task.focus_bind t _).trans ?_
  rw [onApp]
  apply congrArg (Task.bind _)
  funext r
  cases r <;> rfl

theorem onApp_mapError (f : ε → ε') (t : Handler ε α) :
    onApp (t.mapError f) = (onApp t).mapError f :=
  Task.focus_bind t _

end OnApp

/-- `serde_json` at type `Value`. -/
structure JsonText where
  toString : Value → String
  fromStr : String → Except String Value

/-- A client's request, and what is to come of it outside of the bridge: the answers of the
upstreams to its attempts and the times its clock reads. -/
structure ClientCall where
  headers : HeaderMap
  body : Value
  responseId : String
  stream : Nat → UpstreamRequest → Option (Except String UpstreamResponse)
  json : Nat → UpstreamRequest → Except String UpstreamResponse
  decideAt : Int
  recordAt : Int

/-- An answer to a client. -/
inductive Reply where
  | json (v : Value)
  | frames (frames : List SseFrame)
  /-- The bytes of an upstream, as they come. -/
  | bytes (chunks : List UpstreamChunk)

/-! ## Handlers -/

section Walk

variable {α : Type} (post : Nat → UpstreamRequest → Except BridgeError α)

/-- The request a candidate is sent. -/
def requestTo (req : CanonicalRequest) (c : Resolved) : UpstreamRequest :=
  Upstream.request c.provider "/chat/completions" (Chat.buildRequest req c.upstreamModel c.provider)

/-- Send a candidate its request. The answer comes with the access; what the others do
meanwhile comes before or after it. -/
def send (req : CanonicalRequest) (i : Nat) (c : Resolved) : Live (Except BridgeError α) :=
  .access
    (fun s => (s, .posted c (requestTo req c) (match post i (requestTo req c) with
      | .ok _ => none
      | .error e => some e)))
    fun _ => .ok (post i (requestTo req c))

/-- `mark_degraded`; the probe it spawns is another party. -/
def degrade (c : Resolved) (e : BridgeError) : Live Unit :=
  .access
    (fun s => ({ s with status := markDegraded c.providerName e s.status },
      .degraded c.providerName))
    fun _ => .ok ()

/-- `open_upstream_stream` and `call_upstream_json`, from the `i`-th attempt on. -/
def tryCandidates (req : CanonicalRequest) (i : Nat) (lastErr : Option BridgeError) :
    List Resolved → Live (String × String × α)
  | [] => Attempt.lift (.error (lastErr.getD (.internal "no upstream candidates")))
  | c :: cs => do
      match verdict (← send post req i c) (cs ≠ []) with
      | .accepted a => pure (c.providerName, c.upstreamModel, a)
      | .advance e => do
          degrade c e
          tryCandidates req (i + 1) (some e) cs
      | .failed e => Attempt.lift (.error e)

end Walk

/-- One call of `UsageMeter::record`. -/
def recordOne (provider : String) (now : Int) (kind : UsageKind) (amount : FloatValue) :
    Live Unit :=
  .access
    (fun s => ({ s with meter := s.meter.record provider kind amount now },
      .recorded provider kind amount))
    fun _ => .ok ()

/-- `record_amounts`, amount by amount. -/
def recordEach (provider : String) (now : Int) : List (UsageKind × FloatValue) → Live Unit
  | [] => pure ()
  | (kind, amount) :: rest => do
      recordOne provider now kind amount
      recordEach provider now rest

/-- Whether usage is tracked. -/
def usageEnabled : Live Bool := observe fun s => .ok s.usageOn

/-- Authentication and a snapshot of the configuration. -/
def authorized (headers : HeaderMap) : Live Config :=
  observe fun s => (checkAuth s.app.config headers).map fun _ => s.app.config

/-- The candidates of a request, from its snapshot and the live status and usage. -/
def resolve (cfg : Config) (now : Int) (model : String) : Live (List Resolved) := do
  let on ← usageEnabled
  .access
    (fun s => (s, .resolved ((resolveCandidates cfg s.status
      (if on then s.meter.exhaustedSet cfg.providers now else []) model).toOption.getD [])))
    fun s => resolveCandidates cfg s.status
      (if on then s.meter.exhaustedSet cfg.providers now else []) model

/-- `record_nonstream`. -/
def recordResponse (cfg : Config) (provider model : String) (resp : Value) (now : Int) :
    Live Unit := do
  let on ← usageEnabled
  if on then recordEach provider now (requestAmounts (usageKinds cfg provider model)
    (usageOfResponse resp))
  else pure ()

/-- A dialect that is translated: how its requests are read and its responses written. -/
structure Translation (σ : Type) where
  parseRequest : Value → Except BridgeError CanonicalRequest
  emit : Step σ CanonicalEvent SseFrame
  new : σ
  final : σ → Value

section Handlers

variable (text : JsonText)

/-- The recording at the end of a stream. A client that has gone away by then leaves nothing
recorded. -/
def recordCaught (now : Int) : Option CostRecorder → Option Caught → Live Unit
  | some recorder, some caught =>
      recordEach recorder.provider now (requestAmounts recorder.kinds caught)
  | _, _ => pure ()

/-- The frames of a translated stream. -/
def respondStream {σ : Type} (T : Translation σ) (cfg : Config) (call : ClientCall)
    (provider model : String) (chunks : List UpstreamChunk) : Live Reply := do
  let on ← usageEnabled
  let recorder := costRecorder on cfg provider model
  let (frames, caught) := runStream T.emit (fun s => (text.fromStr s).toOption) recorder.isSome
    call.responseId T.new chunks
  recordCaught call.recordAt recorder caught
  pure (.frames frames)

/-- `responses_handler` and `messages_handler`. -/
def translated {σ : Type} (T : Translation σ) (call : ClientCall) : Live Reply := do
  let cfg ← authorized call.headers
  let req ← T.parseRequest call.body
  let candidates ← resolve cfg call.decideAt req.model
  if req.stream then do
    let (provider, model, chunks) ← tryCandidates
      (fun i r => Upstream.postStream (call.stream i r)) req 0 none candidates
    respondStream text T cfg call provider model chunks
  else do
    let (provider, model, resp) ← tryCandidates
      (fun i r => Upstream.postJson text.fromStr (call.json i r)) req 0 none candidates
    recordResponse cfg provider model resp call.recordAt
    pure (.json (T.final
      (Transducer.run T.emit T.new (Chat.completionToEvents resp call.responseId)).1))

/-- The Responses dialect. -/
def responsesTranslation (uuid : Nat → String) : Translation ResponsesEmitter where
  parseRequest := Responses.parseRequest text.toString
  emit := ResponsesEmitter.onEvent uuid
  new := .new
  final := ResponsesEmitter.finalResponse

/-- The Anthropic Messages dialect. -/
def anthropicTranslation : Translation AnthropicEmitter where
  parseRequest := Anthropic.parseRequest text.toString
  emit := AnthropicEmitter.onEvent fun s => (text.fromStr s).toOption
  new := .new
  final := AnthropicEmitter.finalMessage

def responsesHandler (uuid : Nat → String) (call : ClientCall) : Live Reply :=
  translated text (responsesTranslation text uuid) call

def messagesHandler (call : ClientCall) : Live Reply :=
  translated text (anthropicTranslation text) call

/-- `chat_handler`: the answer is passed on as it is, and a stream is not recorded. -/
def chatHandler (call : ClientCall) : Live Reply := do
  let cfg ← authorized call.headers
  let req ← Chat.parseRequest call.body
  let candidates ← resolve cfg call.decideAt req.model
  if req.stream then do
    let (_, _, chunks) ← tryCandidates
      (fun i r => Upstream.postStream (call.stream i r)) req 0 none candidates
    pure (.bytes chunks)
  else do
    let (provider, model, resp) ← tryCandidates
      (fun i r => Upstream.postJson text.fromStr (call.json i r)) req 0 none candidates
    recordResponse cfg provider model resp call.recordAt
    pure (.json resp)

end Handlers

/-- The configuration for a view. Those that are not guarded are open to anybody. -/
def snapshotFor (headers : HeaderMap) (q : Query) : Live Config :=
  if q.guarded then authorized headers else observe fun s => .ok s.app.config

/-- A reading request. -/
def answerQuery (headers : HeaderMap) (q : Query) (now : Int) : Live Reply := do
  let cfg ← snapshotFor headers q
  observe fun s => .ok (.json (q.view ⟨s.status, s.meter, now, s.usageOn⟩ cfg))

/-- `set_usage`. -/
def setUsage (headers : HeaderMap) (on : Bool) : Live Reply := do
  let _ ← authorized headers
  .access (fun s => ({ s with usageOn := on }, .toggled)) fun _ =>
    .ok (.json (.object [("ok", .bool true), ("enabled", .bool on)]))

/-! ## Parties -/

/-- Whoever takes part. -/
inductive Party where
  | responses (uuid : Nat → String) (call : ClientCall)
  | messages (call : ClientCall)
  | chat (call : ClientCall)
  | query (headers : HeaderMap) (q : Query) (now : Int)
  | setUsage (headers : HeaderMap) (on : Bool)
  | write (headers : HeaderMap) (w : Admin.Write)
  /-- A probe task that has found a status. -/
  | probed (name : String) (status : ProviderStatus)
  /-- The end of a reload: entries of other providers are dropped from the status map. -/
  | retained (providers : List (String × Provider))

/-- An admin write as it is modelled without the rest of the server. -/
def adminReply (host : Host) (headers : HeaderMap) (w : Admin.Write) : Handler BridgeError Reply :=
  w.handler host headers >>= fun v => pure (.json v)

/-- What a party does. -/
def Party.task (host : Host) (text : JsonText) : Party → Live Reply
  | responses uuid call => responsesHandler text uuid call
  | messages call => messagesHandler text call
  | chat call => chatHandler text call
  | query headers q now => answerQuery headers q now
  | setUsage headers on => AiApiBridge.setUsage headers on
  | write headers w => onApp (adminReply host headers w)
  | probed name status =>
      .access (fun s => ({ s with status := Function.update s.status name (some status) },
        .probed name)) fun _ => .ok (.json .null)
  | retained providers =>
      .access (fun s => ({ s with status := fun name =>
        if (providers.lookup name).isSome then s.status name else none }, .retained)) fun _ =>
          .ok (.json .null)

/-- Parties over one state. -/
def serving {ι : Type} (host : Host) (text : JsonText) (parties : ι → Party) (s : LiveState) :
    Pool ι LiveState Effect (Except BridgeError Reply) :=
  ⟨s, fun i => (parties i).task host text⟩

/-! ## Handlers with nobody in their way -/

/-- **The walk of a handler** is the walk of `tryFrom`. -/
theorem tryCandidates_alone {α : Type} (post : Nat → UpstreamRequest → Except BridgeError α)
    (req : CanonicalRequest) (i : Nat) (lastErr : Option BridgeError) (cs : List Resolved)
    (s : LiveState) :
    Task.alone (tryCandidates post req i lastErr cs) s =
      let r := tryFrom (fun i p body => post i (Upstream.request p "/chat/completions" body)) req i
        s.status lastErr cs
      (r.1, { s with status := r.2 }) := by
  induction cs generalizing i lastErr s with
  | nil => rfl
  | cons c cs ih =>
      have hanswer : post i (requestTo req c) =
          answerOf (fun i p body => post i (Upstream.request p "/chat/completions" body)) req i c :=
        rfl
      rw [tryCandidates, tryFrom]
      simp only [bind, Attempt.bind, send, Attempt.access, Task.bind, Task.alone, hanswer]
      cases verdict (answerOf (fun i p body => post i (Upstream.request p "/chat/completions" body))
          req i c) (cs ≠ []) with
      | accepted a => rfl
      | failed e => rfl
      | advance e =>
          exact ih (i + 1) (some e) { s with status := markDegraded c.providerName e s.status }

/-- **What a handler records** is what `recordAmounts` records. -/
theorem recordEach_alone (provider : String) (kinds : List (UsageKind × Option ModelPrice))
    (c : Caught) (now : Int) (s : LiveState) :
    Task.alone (recordEach provider now (requestAmounts kinds c)) s =
      (.ok (), { s with
        meter := recordAmounts s.meter provider kinds c.cost c.promptTokens c.completionTokens
          now }) := by
  rw [recordAmounts_eq_requestAmounts]
  generalize requestAmounts kinds c = amounts
  induction amounts generalizing s with
  | nil => rfl
  | cons a amounts ih =>
      exact ih { s with meter := s.meter.record provider a.1 a.2 now }

/-! ## A small server -/

/-- `serde_json` at the text of the empty object. -/
def emptyObjectText : JsonText where
  toString _ := "\x7b\x7d"
  fromStr s :=
    if s = "\x7b\x7d" then .ok (.object []) else .error "expected value at line 1 column 1"

/-- A provider with a key and default settings. -/
def keyedProvider (baseUrl key : String) : Provider :=
  ⟨.openaiChat, baseUrl, some key, none, "max_tokens", [], none, none, .path, none, none, none, [],
    [], [], []⟩

/-- A route with a fallback. -/
def fastConfig : Config :=
  { plainConfig with
    providers := [("go", keyedProvider "http://go" "k1"), ("zen", keyedProvider "http://zen" "k2")]
    routes := [⟨"fast", "go", "glm-5", [⟨"zen", "gpt-5.5"⟩]⟩] }

/-- A server that has just started. -/
def startedWith (cfg : Config) : LiveState :=
  ⟨⟨cfg, .empty⟩, fun _ => none, ⟨fun _ _ => []⟩, false⟩

/-- A request for that route; the upstream it is sent to first is overloaded. -/
def fastCall : ClientCall where
  headers := []
  body := .object [("model", .string "fast"), ("messages", .array [])]
  responseId := "chatcmpl"
  stream _ _ := none
  json i _ := .ok (if i = 0 then ⟨503, .ok "", []⟩ else ⟨200, .ok "\x7b\x7d", []⟩)
  decideAt := 0
  recordAt := 0

end AiApiBridge
