import AiApiBridge.Lib.Latest
import AiApiBridge.RunStream
import AiApiBridge.UsageMeter

/-!
# Usage of streamed completions

What a request records when its completion has been streamed, and when it has come
in one piece (`run_stream` and `record_nonstream` of `server.rs`). The loop picks
cost and tokens off the chunks one by one, behind `[DONE]` too; at the end it has
what the latest chunks with a reading have said (`caught_runStream`). A stream that
says each thing once is recorded like the response that says it
(`recordStream_eq_recordNonstream`).
-/

set_option autoImplicit false

namespace AiApiBridge

open Usage Chat Transducer

/-! ## Recording -/

/-- What is needed to record a streamed request: the served provider and its usage
kinds. -/
structure CostRecorder where
  provider : String
  kinds : List (UsageKind × Option ModelPrice)
  deriving DecidableEq, Repr

/-- The recorder of a stream: none when tracking is off or the provider has no usage
specs. -/
def costRecorder (usageEnabled : Bool) (cfg : Config) (provider model : String) :
    Option CostRecorder :=
  if usageEnabled then
    let kinds := usageKinds cfg provider model
    if kinds = [] then none else some ⟨provider, kinds⟩
  else none

/-- Record what a stream has caught, when there is a recorder. -/
def recordStream {σ : Type} (emit : Step σ CanonicalEvent SseFrame)
    (fromStr : String → Option Value) (recorder : Option CostRecorder) (responseId : String)
    (emitter : σ) (chunks : List UpstreamChunk) (now : Int) (m : UsageMeter) : UsageMeter :=
  match recorder, (runStream emit fromStr recorder.isSome responseId emitter chunks).2 with
  | some r, some c =>
      recordAmounts m r.provider r.kinds c.cost c.promptTokens c.completionTokens now
  | _, _ => m

/-- The cost and the tokens of a response in one piece. -/
def usageOfResponse (resp : Value) : Caught where
  cost := (resp.get "cost").bind parseCost
  promptTokens := (tokensFromUsage (resp.get "usage")).1
  completionTokens := (tokensFromUsage (resp.get "usage")).2

/-- Record the usage of a response in one piece. -/
def recordNonstream (usageEnabled : Bool) (cfg : Config) (provider model : String) (resp : Value)
    (now : Int) (m : UsageMeter) : UsageMeter :=
  if usageEnabled then
    let kinds := usageKinds cfg provider model
    if kinds = [] then m
    else
      let c := usageOfResponse resp
      recordAmounts m provider kinds c.cost c.promptTokens c.completionTokens now
  else m

/-- The amounts of one request, in the order of the provider's usage kinds. -/
def requestAmounts (kinds : List (UsageKind × Option ModelPrice)) (c : Caught) :
    List (UsageKind × FloatValue) :=
  kinds.filterMap fun (kind, price) =>
    (amountFor kind price c.cost c.promptTokens c.completionTokens).map fun amount => (kind, amount)

/-- What a request records are its amounts. -/
theorem recordAmounts_eq_requestAmounts (m : UsageMeter) (provider : String)
    (kinds : List (UsageKind × Option ModelPrice)) (c : Caught) (now : Int) :
    recordAmounts m provider kinds c.cost c.promptTokens c.completionTokens now =
      (requestAmounts kinds c).foldl (fun m a => m.record provider a.1 a.2 now) m := by
  induction kinds generalizing m with
  | nil => rfl
  | cons entry kinds ih =>
      rw [recordAmounts, List.foldl_cons, ← recordAmounts, ih]
      cases h : amountFor entry.1 entry.2 c.cost c.promptTokens c.completionTokens <;>
        simp [requestAmounts, UsageMeter.recordEntry, h]

/-! ## What a stream has caught -/

/-- Reading chunks one by one catches the latest of each. -/
theorem foldl_read (jsons : List Value) (c : Caught) :
    jsons.foldl Caught.read c =
      ⟨(latest (fun j => (usageOfResponse j).cost) jsons).or c.cost,
        (latest (fun j => (usageOfResponse j).promptTokens) jsons).or c.promptTokens,
        (latest (fun j => (usageOfResponse j).completionTokens) jsons).or c.completionTokens⟩ := by
  induction jsons generalizing c with
  | nil => rfl
  | cons json jsons ih =>
      rw [List.foldl_cons, ih, latest_cons_or, latest_cons_or, latest_cons_or]
      rfl

section Stream

variable {σ : Type} (emit : Step σ CanonicalEvent SseFrame) (fromStr : String → Option Value)

/-- The JSON of a data event. -/
def signalJson : Signal → Option Value
  | .item (.data d) => fromStr d
  | _ => none

/-- The JSON of an upstream stream, event by event, before and behind `[DONE]`. -/
def chunkJsons (chunks : List UpstreamChunk) : List Value :=
  (signals chunks).filterMap (signalJson fromStr)

/-- Neither a transport error nor an error in band. -/
def ErrorFree (chunks : List UpstreamChunk) : Prop :=
  (∀ chunk ∈ chunks, ∃ bytes, chunk = .ok bytes) ∧
    ∀ json ∈ chunkJsons fromStr chunks, nonNull (json.get "error") = none

/-- Whole chunks decode to items. -/
theorem item_of_mem_signals {chunks : List UpstreamChunk}
    (h : ∀ chunk ∈ chunks, ∃ bytes, chunk = .ok bytes) {sig : Signal}
    (hsig : sig ∈ signals chunks) : ∃ i, sig = .item i := by
  suffices hrun : ∀ d : SseDecoder, sig ∈ (run decodeChunk d chunks).2 → ∃ i, sig = .item i from
    hrun _ hsig
  clear hsig
  induction chunks with
  | nil => exact fun d hd => nomatch hd
  | cons chunk chunks ih =>
      intro d hd
      obtain ⟨bytes, rfl⟩ := h _ List.mem_cons_self
      rw [run_cons] at hd
      rcases List.mem_append.1 hd with hd | hd
      · obtain ⟨i, -, rfl⟩ := List.mem_map.1 hd
        exact ⟨i, rfl⟩
      · exact ih (fun c hc => h c (List.mem_cons_of_mem _ hc)) _ hd

/-- One item without an error: the loop goes on, and has read its JSON. -/
theorem caught_onSignal (s : StreamState σ) (i : SseItem)
    (h : ∀ json ∈ signalJson fromStr (.item i), nonNull (json.get "error") = none) :
    (onSignal emit fromStr true s (.item i)).2 = false ∧
      (onSignal emit fromStr true s (.item i)).1.1.caught =
        (signalJson fromStr (.item i)).toList.foldl Caught.read s.caught := by
  cases i with
  | done => exact ⟨rfl, rfl⟩
  | data d =>
      cases hj : fromStr d with
      | none => simp [onSignal, onItem, signalJson, hj]
      | some json =>
          have hquiet :
              (runUntil (emitEvent emit) s.emitter (s.parser.onChunk json).2).2 = false := by
            rw [runUntil_stops (emitEvent emit) CanonicalEvent.isError fun _ _ => rfl,
              any_isError_onChunk, h json hj, Option.isSome_none]
          cases hdone : s.done <;> simp [onSignal, onItem, signalJson, hj, hdone, hquiet]

/-- **A loop without errors reads the JSON of every event.** -/
theorem caught_runUntil (sigs : List Signal) (s : StreamState σ)
    (hitem : ∀ sig ∈ sigs, ∃ i, sig = .item i)
    (hquiet : ∀ json ∈ sigs.filterMap (signalJson fromStr), nonNull (json.get "error") = none) :
    (runUntil (onSignal emit fromStr true) s sigs).1.1.caught =
      (sigs.filterMap (signalJson fromStr)).foldl Caught.read s.caught := by
  induction sigs generalizing s with
  | nil => rfl
  | cons sig sigs ih =>
      obtain ⟨i, rfl⟩ := hitem sig List.mem_cons_self
      have hrest := fun sig hsig => hitem sig (List.mem_cons_of_mem _ hsig)
      cases hj : signalJson fromStr (.item i) with
      | none =>
          -- the end marker, or data that is no JSON
          rw [List.filterMap_cons_none hj] at hquiet ⊢
          have hfirst := caught_onSignal emit fromStr s i (by simp [hj])
          rw [runUntil_cons_go hfirst.1, ih _ hrest hquiet, hfirst.2, hj]
          rfl
      | some json =>
          rw [List.filterMap_cons_some hj] at hquiet ⊢
          have hfirst := caught_onSignal emit fromStr s i (by simp [hj, hquiet])
          rw [runUntil_cons_go hfirst.1,
            ih _ hrest fun j hj => hquiet j (List.mem_cons_of_mem _ hj), hfirst.2, hj]
          rfl

/-- **What a stream without errors has caught**: the latest reading of each. -/
theorem caught_runStream (responseId : String) (emitter : σ) {chunks : List UpstreamChunk}
    (h : ErrorFree fromStr chunks) :
    (runStream emit fromStr true responseId emitter chunks).2 =
      some ((chunkJsons fromStr chunks).foldl Caught.read ⟨none, none, none⟩) := by
  have hnested := runUntil_nested decodeChunk (onSignal emit fromStr true) SseDecoder.new
    ⟨.new responseId, emitter, false, false, ⟨none, none, none⟩⟩ chunks
  rw [← onUpstreamChunk_eq] at hnested
  have hcaught := caught_runUntil emit fromStr (signals chunks)
    ⟨.new responseId, emitter, false, false, ⟨none, none, none⟩⟩
    (fun _ hsig => item_of_mem_signals h.1 hsig) h.2
  rw [signals, ← hnested] at hcaught
  exact congrArg some hcaught

end Stream

/-! ## Streams that say each thing once -/

/-- The cost values among the chunks; a null is none. -/
def costValues (jsons : List Value) : List Value :=
  (jsons.filterMap fun j => j.get "cost").filter fun v => !v.isNull

/-- The usage objects among the chunks. -/
def usageObjects (jsons : List Value) : List Value :=
  (jsons.filterMap fun j => j.get "usage").filter fun v => v.asObject.isSome

/-- Only an object has members. -/
theorem get_of_asObject_isSome {v : Value} (h : v.asObject.isSome = false) (key : String) :
    v.get key = none := by
  cases v <;> simp_all [Value.get, Value.asObject]

/-- **One cost and one usage object** are caught as a response in one piece has them. -/
theorem foldl_read_once {jsons : List Value} {cost usage resp : Value}
    (hcost : costValues jsons = [cost]) (husage : usageObjects jsons = [usage])
    (hrespCost : resp.get "cost" = some cost) (hrespUsage : resp.get "usage" = some usage) :
    jsons.foldl Caught.read ⟨none, none, none⟩ = usageOfResponse resp := by
  have hcostRead :
      latest (fun j => (usageOfResponse j).cost) jsons = (usageOfResponse resp).cost := by
    -- a cost that is null is not read, like one that is not there
    have hnull : ∀ v : Value, (!v.isNull) = false → parseCost v = none := by
      intro v hv
      cases v <;> simp_all [Value.isNull, parseCost]
    have h := latest_bind (fun j : Value => j.get "cost") (fun v => !v.isNull) parseCost hnull jsons
    rw [← costValues, hcost, latest_singleton] at h
    rw [usageOfResponse, hrespCost]
    exact h
  -- and a usage that is no object has no tokens
  have htokens : ∀ key : String,
      latest (fun j => (j.get "usage").bind fun u => (u.get key).bind Value.asU64) jsons =
        (usage.get key).bind Value.asU64 := by
    intro key
    have h := latest_bind (fun j : Value => j.get "usage") (fun v => v.asObject.isSome)
      (fun u => (u.get key).bind Value.asU64)
      (fun v hv => by simp [get_of_asObject_isSome hv]) jsons
    rw [← usageObjects, husage, latest_singleton] at h
    exact h
  have hprompt : latest (fun j => (usageOfResponse j).promptTokens) jsons =
      (usageOfResponse resp).promptTokens := by
    simpa [usageOfResponse, tokensFromUsage, hrespUsage] using htokens "prompt_tokens"
  have hcompletion : latest (fun j => (usageOfResponse j).completionTokens) jsons =
      (usageOfResponse resp).completionTokens := by
    simpa [usageOfResponse, tokensFromUsage, hrespUsage] using htokens "completion_tokens"
  rw [foldl_read, hcostRead, hprompt, hcompletion]
  simp

/-- **Streaming makes no difference to what is recorded.** -/
theorem recordStream_eq_recordNonstream {σ : Type} (emit : Step σ CanonicalEvent SseFrame)
    (fromStr : String → Option Value) {usageEnabled : Bool} {cfg : Config} {provider model : String}
    {r : CostRecorder} (hr : costRecorder usageEnabled cfg provider model = some r)
    (responseId : String) (emitter : σ) {chunks : List UpstreamChunk}
    (h : ErrorFree fromStr chunks) {cost usage resp : Value}
    (hcost : costValues (chunkJsons fromStr chunks) = [cost])
    (husage : usageObjects (chunkJsons fromStr chunks) = [usage])
    (hrespCost : resp.get "cost" = some cost) (hrespUsage : resp.get "usage" = some usage) :
    (∃ c, (runStream emit fromStr true responseId emitter chunks).2 = some c ∧
      requestAmounts r.kinds c =
        requestAmounts (usageKinds cfg provider model) (usageOfResponse resp)) ∧
    ∀ now m, recordStream emit fromStr (some r) responseId emitter chunks now m =
      recordNonstream usageEnabled cfg provider model resp now m := by
  have hcaught : (runStream emit fromStr true responseId emitter chunks).2 =
      some (usageOfResponse resp) := by
    rw [caught_runStream emit fromStr responseId emitter h,
      foldl_read_once hcost husage hrespCost hrespUsage]
  rw [costRecorder] at hr
  split at hr
  next hon =>
    rw [ite_eq_iff] at hr
    rcases hr with ⟨-, hr⟩ | ⟨hkinds, hr⟩
    · cases hr
    · cases hr
      -- with a recorder both sides record, for the same kinds
      refine ⟨⟨_, hcaught, rfl⟩, fun now m => ?_⟩
      simp [recordStream, recordNonstream, hcaught, hon, hkinds]
  next => cases hr

/-- A parser that knows a usage chunk and a cost chunk. -/
def usageThenCost (d : String) : Option Value :=
  if d = "u" then
    some (.object [("usage", .object [("prompt_tokens", .number (.posInt 3))]), ("cost", .null)])
  else if d = "c" then some (.object [("cost", .string "0.5")])
  else none

/-- The usage, `[DONE]` and then the cost, cut inside `[DONE]`. -/
def costBehindDone : List UpstreamChunk :=
  [.ok [100, 97, 116, 97, 58, 32, 117, 10, 10, 100, 97, 116, 97, 58, 32, 91, 68],
    .ok [79, 78, 69, 93, 10, 10, 100, 97, 116, 97, 58, 32, 99, 10, 10]]

/-- The same in one piece. -/
def wholeResponse : Value :=
  .object [("cost", .string "0.5"), ("usage", .object [("prompt_tokens", .number (.posInt 3))])]

/-- A provider metered in all three kinds. -/
def meteredConfig : Config where
  listen := "127.0.0.1:8282"
  database := "bridge.db"
  defaultProvider := none
  authToken := none
  costTracking := true
  providers := [("zen", ⟨.openaiChat, "http://localhost", none, none, "max_tokens", [], none, none,
    .path, none, none, none, [], [], [.billing [] [], .count [], .token []], []⟩)]
  routes := []
  fallbackRoute := none

def meteredRecorder : CostRecorder :=
  ⟨"zen", [(.billing, none), (.count, none), (.token, none)]⟩

theorem chunkJsons_costBehindDone : chunkJsons usageThenCost costBehindDone =
    [.object [("usage", .object [("prompt_tokens", .number (.posInt 3))]), ("cost", .null)],
      .object [("cost", .string "0.5")]] := by decide

/-- The cost comes behind `[DONE]`. -/
theorem recordStream_costBehindDone :
    (∃ c, (runStream (AnthropicEmitter.onEvent usageThenCost) usageThenCost true "msg_1" .new
        costBehindDone).2 = some c ∧
      requestAmounts meteredRecorder.kinds c =
        requestAmounts (usageKinds meteredConfig "zen" "m") (usageOfResponse wholeResponse)) ∧
    ∀ now m, recordStream (AnthropicEmitter.onEvent usageThenCost) usageThenCost
        (some meteredRecorder) "msg_1" .new costBehindDone now m =
      recordNonstream true meteredConfig "zen" "m" wholeResponse now m := by
  have hfree : ErrorFree usageThenCost costBehindDone := by
    refine ⟨by simp [costBehindDone], ?_⟩
    rw [chunkJsons_costBehindDone]
    decide
  have hr : costRecorder true meteredConfig "zen" "m" = some meteredRecorder := by decide
  have hcost : costValues (chunkJsons usageThenCost costBehindDone) = [.string "0.5"] := by
    rw [chunkJsons_costBehindDone]
    decide
  have husage : usageObjects (chunkJsons usageThenCost costBehindDone) =
      [.object [("prompt_tokens", .number (.posInt 3))]] := by
    rw [chunkJsons_costBehindDone]
    decide
  exact recordStream_eq_recordNonstream _ _ hr _ _ hfree hcost husage (by decide) (by decide)

end AiApiBridge
