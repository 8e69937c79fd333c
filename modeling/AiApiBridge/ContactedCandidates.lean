import AiApiBridge.ChainOrder

/-!
# Whom a request contacts

The walk over a chain contacts the candidates in order, once each, up to the first one
that does not fail retryably, and returns what that one answered or the last error. The
documentation has every provider that fails a request marked unavailable; the guard that
ends the walk at the last candidate also leaves that candidate unmarked
(`failsOver_iff`).
-/

set_option autoImplicit false

namespace AiApiBridge.Failover

/-! ## Upstreams that write down what they are asked -/

section Upstream

variable {σ α : Type}

/-- The walk of `tryFrom` against an upstream with a state of its own. -/
def tryWith (post : σ → Provider → Value → Except BridgeError α × σ) (req : CanonicalRequest)
    (s : σ) (status : StatusMap) (lastErr : Option BridgeError) :
    List Resolved → (Except BridgeError (String × String × α) × StatusMap) × σ
  | [] => ((.error (lastErr.getD (.internal "no upstream candidates")), status), s)
  | c :: cs =>
      let r := post s c.provider (Chat.buildRequest req c.upstreamModel c.provider)
      match verdict r.1 (cs ≠ []) with
      | .accepted a => ((.ok (c.providerName, c.upstreamModel, a), status), r.2)
      | .advance e => tryWith post req r.2 (markDegraded c.providerName e status) (some e) cs
      | .failed e => ((.error e, status), r.2)

/-- The request a candidate's upstream receives. -/
abbrev Posted := Provider × Value

def posted (req : CanonicalRequest) (c : Resolved) : Posted :=
  (c.provider, Chat.buildRequest req c.upstreamModel c.provider)

variable (post : Nat → Provider → Value → Except BridgeError α) (req : CanonicalRequest)

/-- The upstream `post` that keeps a log of the requests it receives. -/
def recording (log : List Posted) (p : Provider) (body : Value) :
    Except BridgeError α × List Posted :=
  (post log.length p body, log ++ [(p, body)])

/-- The requests that a walk over `cs` sends. -/
def requests (status : StatusMap) (cs : List Resolved) : List Posted :=
  (tryWith (recording post) req [] status none cs).2

/-- An answer that sends the walk on. -/
def failsRetryably : Except BridgeError α → Bool
  | .ok _ => false
  | .error e => isRetryable e

theorem error_of_failsRetryably {answer : Except BridgeError α}
    (h : failsRetryably answer = true) : ∃ e, answer = .error e ∧ isRetryable e = true := by
  cases answer with
  | ok a => cases h
  | error e => exact ⟨e, rfl, h⟩

/-- What the walk returns for the answer of the candidate it ends at. -/
def served (c : Resolved) : Except BridgeError α → Except BridgeError (String × String × α)
  | .ok a => .ok (c.providerName, c.upstreamModel, a)
  | .error e => .error e

/-- The status map after a run of failures. -/
def markAll (status : StatusMap) (failures : List (String × BridgeError)) : StatusMap :=
  failures.foldl (fun status f => markDegraded f.1 f.2 status) status

end Upstream

/-! ## Marks -/

/-- The status map has the provider as unavailable. -/
def Unavailable (status : StatusMap) (name : String) : Prop :=
  ∃ entry, status name = some entry ∧ entry.available = false

theorem markDegraded_of_ne {name name' : String} (h : name ≠ name') (err : BridgeError)
    (status : StatusMap) : markDegraded name' err status name = status name :=
  Function.update_of_ne h _ _

theorem unavailable_markDegraded (name : String) (err : BridgeError) (status : StatusMap) :
    Unavailable (markDegraded name err status) name :=
  ⟨degraded (status name) err, Function.update_self _ _ _, rfl⟩

/-- Another mark takes none back. -/
theorem Unavailable.markDegraded {status : StatusMap} {name : String} (h : Unavailable status name)
    (name' : String) (err : BridgeError) : Unavailable (markDegraded name' err status) name := by
  by_cases hname : name = name'
  · rw [hname]
    exact unavailable_markDegraded name' err status
  · rw [Unavailable, markDegraded_of_ne hname]
    exact h

theorem markAll_cons (status : StatusMap) (f : String × BridgeError)
    (failures : List (String × BridgeError)) :
    markAll status (f :: failures) = markAll (markDegraded f.1 f.2 status) failures := rfl

/-- Who has not failed keeps its entry. -/
theorem markAll_of_not_mem {name : String} {failures : List (String × BridgeError)}
    (h : name ∉ failures.map Prod.fst) (status : StatusMap) :
    markAll status failures name = status name := by
  induction failures generalizing status with
  | nil => rfl
  | cons f failures ih =>
      rw [List.map_cons, List.mem_cons, not_or] at h
      rw [markAll_cons, ih h.2, markDegraded_of_ne h.1]

/-- Who has failed, or was unavailable before, is unavailable. -/
theorem unavailable_markAll {name : String} {failures : List (String × BridgeError)}
    {status : StatusMap} (h : name ∈ failures.map Prod.fst ∨ Unavailable status name) :
    Unavailable (markAll status failures) name := by
  induction failures generalizing status with
  | nil => exact h.resolve_left (by simp)
  | cons f failures ih =>
      rw [markAll_cons]
      apply ih
      rw [List.map_cons, List.mem_cons, or_assoc] at h
      rcases h with rfl | h | h
      · exact Or.inr (unavailable_markDegraded _ _ _)
      · exact Or.inl h
      · exact Or.inr (h.markDegraded _ _)

/-! ## The walk -/

section Walk

variable {α : Type} (post : Nat → Provider → Value → Except BridgeError α) (req : CanonicalRequest)

/-- The log does not change the answers. -/
theorem tryWith_recording_fst (log : List Posted) (status : StatusMap)
    (lastErr : Option BridgeError) (cs : List Resolved) :
    (tryWith (recording post) req log status lastErr cs).1 =
      tryFrom post req log.length status lastErr cs := by
  induction cs generalizing log status lastErr with
  | nil => rfl
  | cons c cs ih =>
      rw [tryWith, tryFrom]
      simp only [recording, answerOf]
      cases verdict (post log.length c.provider
          (Chat.buildRequest req c.upstreamModel c.provider)) (cs ≠ []) with
      | accepted a => rfl
      | failed e => rfl
      | advance e =>
          simp only [ih, List.length_append, List.length_singleton]

/-- The `j`-th candidate fails retryably in a walk whose first attempt is the `i`-th of its
request. -/
def FailsFrom (i : Nat) (cs : List Resolved) (j : Nat) : Prop :=
  ∃ c, cs[j]? = some c ∧ failsRetryably (answerOf post req (i + j) c) = true

/-- A candidate that does not fail retryably, or is the last one, ends the walk. -/
theorem tryWith_recording_stop {log : List Posted} {c : Resolved} {cs : List Resolved}
    (h : failsRetryably (answerOf post req log.length c) = true → cs = []) (status : StatusMap)
    (lastErr : Option BridgeError) :
    tryWith (recording post) req log status lastErr (c :: cs) =
      ((served c (answerOf post req log.length c), status), log ++ [posted req c]) := by
  rw [tryWith]
  simp only [recording]
  cases hans : answerOf post req log.length c with
  | ok a =>
      rw [answerOf] at hans
      simp [hans, verdict, served, posted]
  | error e =>
      have hlast : isRetryable e = true → cs = [] := fun hretry => h (by simpa [hans])
      have hverdict : verdict (.error e : Except BridgeError α) (cs ≠ []) = .failed e := by
        rw [verdict, if_neg (by simpa using hlast)]
      rw [answerOf] at hans
      rw [hans, hverdict]
      rfl

/-- Any other candidate sends it on, with one more request in the log. -/
theorem tryWith_recording_next {log : List Posted} {c : Resolved} {cs : List Resolved}
    {e : BridgeError} (hans : answerOf post req log.length c = .error e)
    (hretry : isRetryable e = true) (hcs : cs ≠ []) (status : StatusMap)
    (lastErr : Option BridgeError) :
    tryWith (recording post) req log status lastErr (c :: cs) =
      tryWith (recording post) req (log ++ [posted req c]) (markDegraded c.providerName e status)
        (some e) cs := by
  rw [answerOf] at hans
  rw [tryWith]
  simp [recording, verdict, hans, hretry, hcs, posted]

/-- **The walk**: it ends at the first candidate that does not fail retryably, or at the
last one, and marks the providers of those before it. -/
theorem tryWith_recording (log : List Posted) (status : StatusMap) (lastErr : Option BridgeError)
    {cs : List Resolved} (hne : cs ≠ []) :
    ∃ k c failures, cs[k]? = some c ∧
      (∀ j < k, FailsFrom post req log.length cs j) ∧
      (failsRetryably (answerOf post req (log.length + k) c) = true → k + 1 = cs.length) ∧
      failures.map Prod.fst = (cs.take k).map Resolved.providerName ∧
      tryWith (recording post) req log status lastErr cs =
        ((served c (answerOf post req (log.length + k) c), markAll status failures),
          log ++ (cs.take (k + 1)).map (posted req)) := by
  induction cs generalizing log status lastErr with
  | nil => exact absurd rfl hne
  | cons c cs ih =>
      by_cases hmore : failsRetryably (answerOf post req log.length c) = true → cs = []
      · refine ⟨0, c, [], rfl, by simp, ?_, rfl, tryWith_recording_stop post req hmore _ _⟩
        intro hfails
        rw [hmore hfails]
        rfl
      · rw [Classical.not_imp] at hmore
        rcases hmore with ⟨hfails, hcs⟩
        obtain ⟨e, hans, hretry⟩ := error_of_failsRetryably hfails
        -- the rest is a walk with one more request behind it
        have hlength : (log ++ [posted req c]).length = log.length + 1 := by simp
        rcases ih (log ++ [posted req c]) (markDegraded c.providerName e status) (some e) hcs
          with ⟨k, c', failures, hget, hbefore, hstops, hnames, hwalk⟩
        have hshift : ∀ j, log.length + 1 + j = log.length + (j + 1) := fun j => by omega
        rw [hlength, hshift] at hstops hwalk
        refine ⟨k + 1, c', (c.providerName, e) :: failures, hget, ?_, ?_, ?_, ?_⟩
        · intro j hj
          cases j with
          | zero => exact ⟨c, rfl, hfails⟩
          | succ j =>
              rcases hbefore j (by omega) with ⟨d, hd, hfails'⟩
              rw [hlength, hshift] at hfails'
              exact ⟨d, hd, hfails'⟩
        · intro hfails'
          rw [List.length_cons, hstops hfails']
        · rw [List.map_cons, hnames, List.take_succ_cons, List.map_cons]
        · rw [tryWith_recording_next post req hans hretry hcs, hwalk, markAll_cons,
            List.take_succ_cons, List.map_cons, List.append_assoc]
          rfl

end Walk

/-! ## What a request does -/

section Documented

variable {α : Type} (post : Nat → Provider → Value → Except BridgeError α) (req : CanonicalRequest)

/-- The `j`-th candidate fails retryably when its turn comes. -/
def FailsAt (cs : List Resolved) (j : Nat) : Prop :=
  ∃ c, cs[j]? = some c ∧ failsRetryably (answerOf post req j c) = true

/-- The candidates up to the `k`-th have been contacted, in order and once each; all but
the last of them have failed retryably, and that one as well only when there is no other.
Its answer is returned, and the providers of those that failed retryably, and no others,
have been marked. -/
structure EndsAt (cs : List Resolved) (status : StatusMap) (requests : List Posted)
    (r : Except BridgeError (String × String × α) × StatusMap) (k : Nat) (c : Resolved) :
    Prop where
  candidate : cs[k]? = some c
  before : ∀ j < k, FailsAt post req cs j
  stops : FailsAt post req cs k → k + 1 = cs.length
  contacted : requests = (cs.take (k + 1)).map (posted req)
  result : r.1 = served c (answerOf post req k c)
  marked : ∀ j ≤ k, ∀ d, cs[j]? = some d → FailsAt post req cs j → Unavailable r.2 d.providerName
  frame : ∀ name, (∀ j ≤ k, ∀ d, cs[j]? = some d → FailsAt post req cs j → d.providerName ≠ name) →
    r.2 name = status name

/-- The request has gone as documented. -/
def FailsOver (cs : List Resolved) (status : StatusMap) (requests : List Posted)
    (r : Except BridgeError (String × String × α) × StatusMap) : Prop :=
  ∃ k c, EndsAt post req cs status requests r k c

/-- Every candidate fails retryably, and the provider of the last one has neither been
tried before nor been unavailable from the start. -/
def LastUnmarked (cs : List Resolved) (status : StatusMap) : Prop :=
  (∀ j < cs.length, FailsAt post req cs j) ∧
    ∃ before last, cs = before ++ [last] ∧
      last.providerName ∉ before.map Resolved.providerName ∧
      ¬ Unavailable status last.providerName

variable {post req} {cs : List Resolved} {status : StatusMap}

theorem mem_take_iff {k : Nat} {d : Resolved} :
    d ∈ cs.take k ↔ ∃ j < k, cs[j]? = some d := by
  rw [List.mem_iff_getElem?]
  constructor
  · rintro ⟨j, hj⟩
    rw [List.getElem?_take] at hj
    split at hj
    · exact ⟨j, ‹_›, hj⟩
    · cases hj
  · rintro ⟨j, hlt, hj⟩
    exact ⟨j, by rw [List.getElem?_take_of_lt hlt, hj]⟩

/-- The walk from the first attempt on, and the requests it sends. -/
theorem tryFrom_walk (hne : cs ≠ []) :
    ∃ k c failures, cs[k]? = some c ∧ (∀ j < k, FailsAt post req cs j) ∧
      (FailsAt post req cs k → k + 1 = cs.length) ∧
      failures.map Prod.fst = (cs.take k).map Resolved.providerName ∧
      tryFrom post req 0 status none cs =
        (served c (answerOf post req k c), markAll status failures) ∧
      requests post req status cs = (cs.take (k + 1)).map (posted req) := by
  rcases tryWith_recording post req [] status none hne with
    ⟨k, c, failures, hget, hbefore, hstops, hnames, hwalk⟩
  have hfst := tryWith_recording_fst post req [] status none cs
  simp only [List.length_nil, Nat.zero_add, FailsFrom] at hbefore hstops hwalk hfst
  refine ⟨k, c, failures, hget, hbefore, ?_, hnames, ?_, ?_⟩
  · rintro ⟨c', hc', hfails⟩
    rw [hget] at hc'
    exact hstops (Option.some.inj hc' ▸ hfails)
  · rw [← hfst, hwalk]
  · rw [requests, hwalk]
    rfl

/-- A walk that ends with a retryable failure has failed everywhere, and leaves the last
candidate's provider as it is unless something else marks it. -/
theorem lastUnmarked_of_failsAt {k : Nat} {c : Resolved} (hget : cs[k]? = some c)
    (hbefore : ∀ j < k, FailsAt post req cs j) (hstops : FailsAt post req cs k → k + 1 = cs.length)
    (hfails : FailsAt post req cs k) (hnew : c.providerName ∉ (cs.take k).map Resolved.providerName)
    (hup : ¬ Unavailable status c.providerName) : LastUnmarked post req cs status := by
  have hlast := hstops hfails
  constructor
  · intro j hj
    rcases Nat.lt_or_eq_of_le (show j ≤ k by omega) with hj | rfl
    · exact hbefore j hj
    · exact hfails
  · have hdrop : cs.drop k = [c] := by
      rw [List.getElem?_eq_some_iff] at hget
      rcases hget with ⟨hk, rfl⟩
      rw [List.drop_eq_getElem_cons hk, List.drop_eq_nil_of_le (by omega)]
    have hsplit : cs = cs.take k ++ [c] := by rw [← hdrop, List.take_append_drop]
    exact ⟨cs.take k, c, hsplit, hnew, hup⟩

/-- **When a request goes as documented**: unless every candidate fails retryably and the
last one is the only one to tell of its provider. -/
theorem failsOver_tryFrom_iff (hne : cs ≠ []) :
    FailsOver post req cs status (requests post req status cs)
        (tryFrom post req 0 status none cs) ↔ ¬ LastUnmarked post req cs status := by
  rcases @tryFrom_walk α post req cs status hne with
    ⟨k, c, failures, hget, hbefore, hstops, hnames, hwalk, hrequests⟩
  have hk : k < cs.length := (List.getElem?_eq_some_iff.mp hget).1
  rw [hwalk, hrequests]
  constructor
  · rintro ⟨k', c', h⟩ ⟨hall, before, last, rfl, hnew, hup⟩
    -- both the walk and its description end at the last candidate
    have hlast := hstops (hall k hk)
    have hlast' := h.stops (hall k' (List.getElem?_eq_some_iff.mp h.candidate).1)
    rw [List.length_append, List.length_singleton, Nat.add_right_cancel_iff] at hlast hlast'
    subst hlast hlast'
    have hmarked : Unavailable (markAll status failures) last.providerName :=
      h.marked before.length (Nat.le_refl _) last (by simp) (hall _ hk)
    rw [List.take_left] at hnames
    rw [Unavailable, markAll_of_not_mem (by rwa [hnames])] at hmarked
    exact hup hmarked
  · intro hshown
    refine ⟨k, c, hget, hbefore, hstops, rfl, rfl, ?_, ?_⟩
    · intro j hj d hd hfails
      apply unavailable_markAll
      rw [hnames]
      rcases Nat.lt_or_eq_of_le hj with hj | rfl
      · left
        exact List.mem_map_of_mem (mem_take_iff.mpr ⟨j, hj, hd⟩)
      · -- the last candidate has been tried under its name before, or was unavailable
        by_contra hneither
        rw [not_or] at hneither
        exact hshown (lastUnmarked_of_failsAt hd hbefore hstops hfails hneither.1 hneither.2)
    · intro name hothers
      apply markAll_of_not_mem
      rw [hnames]
      intro hmem
      rcases List.mem_map.mp hmem with ⟨d, hd, rfl⟩
      rcases mem_take_iff.mp hd with ⟨j, hj, hget'⟩
      exact hothers j (Nat.le_of_lt hj) d hget' (hbefore j hj) rfl

end Documented

/-- **Both ways of calling an upstream** go as documented unless every candidate fails
retryably and the last one, whose provider has not been tried under another model and was
not unavailable before, is left unmarked. -/
theorem failsOver_iff {cs : List Resolved} (hne : cs ≠ []) (req : CanonicalRequest)
    (status : StatusMap) :
    (∀ (ByteStream : Type) (postStream : Nat → Provider → Value → Except BridgeError ByteStream),
      (FailsOver postStream req cs status (requests postStream req status cs)
          (openUpstreamStream postStream req cs status) ↔
        ¬ LastUnmarked postStream req cs status)) ∧
    ∀ postJson : Nat → Provider → Value → Except BridgeError Value,
      (FailsOver postJson req cs status (requests postJson req status cs)
          (callUpstreamJson postJson req cs status) ↔
        ¬ LastUnmarked postJson req cs status) := by
  constructor
  · intro ByteStream postStream
    exact failsOver_tryFrom_iff hne
  · intro postJson
    exact failsOver_tryFrom_iff hne

/-- A chain of two providers. -/
def goThenZen : List Resolved :=
  [⟨"go", defaultedProvider "https://go", "deepseek-v4-pro"⟩,
    ⟨"zen", defaultedProvider "https://zen", "gpt-5.5"⟩]

/-- Every upstream is overloaded. -/
def overloaded (_ : Nat) (_ : Provider) (_ : Value) : Except BridgeError Value :=
  .error (.upstream 503 "busy")

/-- The fallback serves a request that the primary has failed. -/
theorem failsOver_iff_fallback :
    (∀ (ByteStream : Type) (postStream : Nat → Provider → Value → Except BridgeError ByteStream),
      (FailsOver postStream routedRequest goThenZen (fun _ => none)
          (requests postStream routedRequest (fun _ => none) goThenZen)
          (openUpstreamStream postStream routedRequest goThenZen fun _ => none) ↔
        ¬ LastUnmarked postStream routedRequest goThenZen fun _ => none)) ∧
    ∀ postJson : Nat → Provider → Value → Except BridgeError Value,
      (FailsOver postJson routedRequest goThenZen (fun _ => none)
          (requests postJson routedRequest (fun _ => none) goThenZen)
          (callUpstreamJson postJson routedRequest goThenZen fun _ => none) ↔
        ¬ LastUnmarked postJson routedRequest goThenZen fun _ => none) :=
  failsOver_iff (by decide) routedRequest fun _ => none

/-- Both providers fail a request with 503, and only the first is marked. -/
theorem not_failsOver_overloaded :
    (callUpstreamJson overloaded routedRequest goThenZen fun _ => none).2 "zen" = none ∧
      ¬ FailsOver overloaded routedRequest goThenZen (fun _ => none)
        (requests overloaded routedRequest (fun _ => none) goThenZen)
        (callUpstreamJson overloaded routedRequest goThenZen fun _ => none) := by
  have hiff : FailsOver overloaded routedRequest goThenZen (fun _ => none)
        (requests overloaded routedRequest (fun _ => none) goThenZen)
        (callUpstreamJson overloaded routedRequest goThenZen fun _ => none) ↔
      ¬ LastUnmarked overloaded routedRequest goThenZen fun _ => none :=
    failsOver_tryFrom_iff (by decide)
  rw [hiff, not_not]
  refine ⟨by decide, ?_, [goThenZen[0]], goThenZen[1], rfl, by decide, ?_⟩
  · intro j hj
    exact ⟨goThenZen[j], List.getElem?_eq_getElem hj, rfl⟩
  · rintro ⟨entry, hentry, -⟩
    cases hentry

end AiApiBridge.Failover
