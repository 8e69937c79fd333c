import AiApiBridge.Router
import AiApiBridge.Sse
import AiApiBridge.Wire.ChatRequest
import Mathlib.Logic.Function.Basic

/-!
# Reactive failover

The walk over a candidate chain in `server.rs`: each candidate's upstream is tried
in order until one accepts; a retryable failure with a further candidate left marks
the provider unavailable and goes on. `post` is the upstream: the answer to the
`i`-th attempt of a request.
-/

set_option autoImplicit false

namespace AiApiBridge

/-- The text of an error (`BridgeError`'s `Display`). -/
def BridgeError.display : BridgeError → String
  | badRequest m => "bad request: " ++ m
  | notFound m => "not found: " ++ m
  | conflict m => "conflict: " ++ m
  | unauthorized m => "unauthorized: " ++ m
  | unknownModel m => "unknown model: " ++ m
  | upstream status m => "upstream error (" ++ Nat.repr status ++ "): " ++ m
  | upstreamUnreachable m => "upstream unreachable: " ++ m
  | notImplemented m => "not implemented: " ++ m
  | internal m => "internal error: " ++ m

/-- Whether the watcher runs for a provider. -/
def Provider.isProbed (p : Provider) : Bool :=
  p.probeEnabled.getD (match p.probeSource with
    | .path => p.probeScript.isSome
    | .text => p.probeScriptText.any fun s => Sse.trim s.toList ≠ [])

namespace Failover

/-- Whether an upstream failure should advance to the next candidate. -/
def isRetryable : BridgeError → Bool
  | .upstreamUnreachable _ => true
  | .upstream status _ =>
      status = 401 ∨ status = 402 ∨ status = 408 ∨ status = 429 ∨ (500 ≤ status ∧ status ≤ 599)
  | _ => false

/-- The status entry of a provider that has just failed. -/
def degraded (entry : Option ProviderStatus) (err : BridgeError) : ProviderStatus :=
  { entry.getD .new with
    available := false
    lastOk := false
    error := some ("request failed: " ++ err.display) }

/-- The status map after `mark_degraded`. -/
def markDegraded (name : String) (err : BridgeError) (status : StatusMap) : StatusMap :=
  Function.update status name (some (degraded (status name) err))

/-- What an attempt leads to. -/
inductive Verdict (α : Type) where
  | accepted (a : α)
  | advance (err : BridgeError)
  | failed (err : BridgeError)

/-- The match on the answer of one attempt; `more` says whether a candidate is left. -/
def verdict {α : Type} (answer : Except BridgeError α) (more : Bool) : Verdict α :=
  match answer with
  | .ok a => .accepted a
  | .error e => if isRetryable e && more then .advance e else .failed e

section Walk

variable {α : Type} (post : Nat → Provider → Value → Except BridgeError α) (req : CanonicalRequest)

/-- The answer of the upstream to the `i`-th attempt. -/
def answerOf (i : Nat) (c : Resolved) : Except BridgeError α :=
  post i c.provider (Chat.buildRequest req c.upstreamModel c.provider)

/-- Try the candidates in order from the `i`-th attempt on. -/
def tryFrom (i : Nat) (status : StatusMap) (lastErr : Option BridgeError) :
    List Resolved → Except BridgeError (String × String × α) × StatusMap
  | [] => (.error (lastErr.getD (.internal "no upstream candidates")), status)
  | c :: cs =>
      match verdict (answerOf post req i c) (cs ≠ []) with
      | .accepted a => (.ok (c.providerName, c.upstreamModel, a), status)
      | .advance e => tryFrom (i + 1) (markDegraded c.providerName e status) (some e) cs
      | .failed e => (.error e, status)

end Walk

/-- `open_upstream_stream`: the provider and model that accepted with the live
stream, and the status map it leaves. -/
def openUpstreamStream {ByteStream : Type}
    (postStream : Nat → Provider → Value → Except BridgeError ByteStream) (req : CanonicalRequest)
    (candidates : List Resolved) (status : StatusMap) :
    Except BridgeError (String × String × ByteStream) × StatusMap :=
  tryFrom postStream req 0 status none candidates

/-- `call_upstream_json`, the non-streaming counterpart. -/
def callUpstreamJson (postJson : Nat → Provider → Value → Except BridgeError Value)
    (req : CanonicalRequest) (candidates : List Resolved) (status : StatusMap) :
    Except BridgeError (String × String × Value) × StatusMap :=
  tryFrom postJson req 0 status none candidates

/-! ## Who serves a request -/

variable {α : Type} {post : Nat → Provider → Value → Except BridgeError α} {req : CanonicalRequest}

/-- A request is served by a candidate that accepted, and nobody before it did. -/
theorem tryFrom_eq_ok {i : Nat} {status status' : StatusMap} {lastErr : Option BridgeError}
    {cs : List Resolved} {name model : String} {a : α}
    (h : tryFrom post req i status lastErr cs = (.ok (name, model, a), status')) :
    ∃ before c after, cs = before ++ c :: after ∧ c.providerName = name ∧ c.upstreamModel = model ∧
      answerOf post req (i + before.length) c = .ok a ∧
      ∀ k, (hk : k < before.length) → ∀ b, answerOf post req (i + k) before[k] ≠ .ok b := by
  induction cs generalizing i status lastErr with
  | nil => simp [tryFrom] at h
  | cons c cs ih =>
      cases hans : answerOf post req i c with
      | ok a' =>
          simp only [tryFrom, hans, verdict, Prod.mk.injEq, Except.ok.injEq] at h
          -- the first to accept is the one that served
          rcases h with ⟨⟨rfl, rfl, rfl⟩, -⟩
          exact ⟨[], c, cs, rfl, rfl, rfl, hans, fun k hk => absurd hk (Nat.not_lt_zero k)⟩
      | error e =>
          simp only [tryFrom, hans, verdict] at h
          by_cases hadv : isRetryable e && decide (cs ≠ [])
          · rw [if_pos hadv] at h
            obtain ⟨before, c', after, rfl, hname, hmodel, hok, hnone⟩ := ih h
            refine ⟨c :: before, c', after, rfl, hname, hmodel, ?_, ?_⟩
            · rw [List.length_cons, show i + (before.length + 1) = i + 1 + before.length by omega]
              exact hok
            · intro k hk b
              cases k with
              | zero => simp [hans]
              | succ k =>
                  have := hnone k (by simpa using hk) b
                  rwa [List.getElem_cons_succ, show i + (k + 1) = i + 1 + k by omega]
          · rw [if_neg hadv] at h
            simp at h

end Failover

end AiApiBridge
