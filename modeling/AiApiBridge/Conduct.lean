import AiApiBridge.Endpoints
import AiApiBridge.Lib.Contracts
import AiApiBridge.Lib.Splits
import Mathlib

/-!
# How a request conducts itself

What one client request does, in any interleaving with other requests, admin writes, probes
and reloads: it contacts the candidates of the chain it has resolved one after the other,
marks a provider only after that one has failed it retryably and with another candidate left,
and charged only the provider that has accepted it. A request that fails charged nobody
(`conduct_of_requests`).
-/

set_option autoImplicit false

namespace AiApiBridge

open Router Failover Refresh

/-! ## The protocol -/

/-- How far a request has come. -/
inductive RequestStage where
  /-- No chain has been resolved. -/
  | entered
  /-- These candidates are left. -/
  | walking (left : List Resolved)
  /-- A candidate has failed retryably, and these are left. -/
  | failedOver (c : Resolved) (left : List Resolved)
  | accepted (c : Resolved)
  /-- The last candidate contacted has failed. -/
  | refused (c : Resolved) (e : BridgeError)
  /-- A party that is no client request. -/
  | aside
  deriving DecidableEq

namespace RequestStage

/-- What a request may do at a stage. -/
def next : RequestStage → Effect → Option RequestStage
  | entered, .quiet => some entered
  | entered, .resolved chain => some (walking chain)
  | walking (c :: left), .posted c' _ failure =>
      if c' = c then
        match failure with
        | none => some (accepted c)
        | some e =>
            if isRetryable e ∧ left ≠ [] then some (failedOver c left) else some (refused c e)
      else none
  | failedOver c left, .degraded name =>
      if name = c.providerName then some (walking left) else none
  | accepted c, .quiet => some (accepted c)
  | accepted c, .recorded provider _ _ =>
      if provider = c.providerName then some (accepted c) else none
  | aside, .quiet => some aside
  | aside, .toggled => some aside
  | aside, .stored _ => some aside
  | aside, .swapped _ => some aside
  | aside, .probed _ => some aside
  | aside, .retained => some aside
  | _, _ => none

/-- Where a request may end with an error. -/
def FailedBy (e : BridgeError) : RequestStage → Prop
  | entered | walking [] | aside => True
  | refused _ e' => e' = e
  | _ => False

end RequestStage

/-- The protocol as a contract; nothing is asked of the state. -/
def conductContract : Contract LiveState Effect Unit RequestStage where
  inv _ _ := True
  next w _ := w
  allowed _ _ _ := True
  step := RequestStage.next
  le_next _ _ := le_refl _

/-! ## Handlers keep to the protocol -/

section Handlers

/-- Attempts under the protocol. -/
abbrev Conducts {α : Type} (Post : RequestStage → α → Prop) (q : RequestStage)
    (t : Live α) : Prop :=
  Attempt.Meets conductContract (fun q _ a => Post q a) (fun q _ e => q.FailedBy e) q () t

variable {α β : Type} {Post : RequestStage → α → Prop} {Post' : RequestStage → β → Prop}
  {q : RequestStage}

theorem Conducts.bind {t : Live α} {k : α → Live β} (h : Conducts Post q t)
    (hk : ∀ q a, Post q a → Conducts Post' q (k a)) :
    Conducts Post' q (t >>= k : Live β) :=
  Attempt.Meets.bind h fun q _ a _ ha => hk q a ha

/-- Sequencing behind an attempt that leaves its request at one stage. -/
theorem Conducts.bind_at {t : Live α} {k : α → Live β} {q' : RequestStage}
    (h : Conducts (fun q _ => q = q') q t) (hk : ∀ a, Conducts Post' q' (k a)) :
    Conducts Post' q (t >>= k : Live β) := by
  apply h.bind
  rintro q a rfl
  exact hk a

theorem Conducts.weaken {Post' : RequestStage → α → Prop} {t : Live α} (h : Conducts Post q t)
    (hpost : ∀ q a, Post q a → Post' q a) : Conducts Post' q t := by
  apply Task.Meets.mono h
  intro q w r hr
  cases r with
  | ok a => exact hpost q a hr
  | error e => exact hr

/-- One access and the step of the protocol that it is. -/
theorem conducts_access {act : LiveState → LiveState × Effect}
    {result : LiveState → Except BridgeError α}
    (h : ∀ s, ∃ q', q.next (act s).2 = some q' ∧
      OnOk (fun q (_ : Unit) a => Post q a) (fun q _ e => q.FailedBy e) q' () (result s)) :
    Conducts Post q (.access act result) := by
  apply Attempt.Meets.access
  intro w' s _ _
  exact ⟨trivial, trivial, h s⟩

/-- Reading at a stage before acceptance. -/
theorem conducts_observe {read : LiveState → Except BridgeError α} (hq : q.next .quiet = some q)
    (hfails : ∀ e, q.FailedBy e) : Conducts (fun q' _ => q' = q) q (observe read) := by
  apply conducts_access
  intro s
  refine ⟨q, hq, ?_⟩
  cases read s with
  | ok a => rfl
  | error e => exact hfails e

/-- A check before anybody is contacted. -/
theorem conducts_check {x : Except BridgeError α} :
    Conducts (fun q _ => q = .entered) .entered (Attempt.lift x) :=
  Attempt.Meets.lift (fun _ _ => rfl) fun _ _ => trivial

theorem conducts_authorized (headers : HeaderMap) :
    Conducts (fun q _ => q = .entered) .entered (authorized headers) :=
  conducts_observe rfl fun _ => trivial

/-- Reading the switch goes well at any stage. -/
theorem conducts_usageEnabled (hq : q.next .quiet = some q) :
    Conducts (fun q' _ => q' = q) q usageEnabled :=
  conducts_access fun _ => ⟨q, hq, rfl⟩

theorem conducts_resolve (cfg : Config) (now : Int) (model : String) :
    Conducts (fun q chain => q = .walking chain) .entered (resolve cfg now model) := by
  apply (conducts_usageEnabled rfl).bind_at
  intro on
  apply conducts_access
  intro s
  refine ⟨_, rfl, ?_⟩
  cases resolveCandidates cfg s.status
      (if on then s.meter.exhaustedSet cfg.providers now else []) model with
  | ok chain => rfl
  | error e => trivial

/-- Where a request stands when a candidate has answered it. -/
def RequestStage.afterAnswer (c : Resolved) (cs : List Resolved) : Verdict α → RequestStage
  | .accepted _ => .accepted c
  | .advance _ => .failedOver c cs
  | .failed e => .refused c e

theorem conducts_send (post : Nat → UpstreamRequest → Except BridgeError α)
    (req : CanonicalRequest) (i : Nat) (c : Resolved) (cs : List Resolved) :
    Conducts (fun q answer => q = RequestStage.afterAnswer c cs (verdict answer (cs ≠ [])))
      (.walking (c :: cs)) (send post req i c) := by
  apply conducts_access
  intro s
  cases hans : post i (requestTo req c) with
  | ok a => exact ⟨_, if_pos rfl, rfl⟩
  | error e =>
      by_cases hadv : isRetryable e = true ∧ cs ≠ []
      · exact ⟨.failedOver c cs, by simp [RequestStage.next, hadv], by simp [OnOk, verdict, hadv,
          RequestStage.afterAnswer]⟩
      · have hverdict : ¬ (isRetryable e && decide (cs ≠ [])) = true := by simpa using hadv
        refine ⟨.refused c e, ?_, ?_⟩
        · simp only [RequestStage.next, if_true, if_neg hadv]
        · simp only [OnOk, verdict, if_neg hverdict, RequestStage.afterAnswer]

/-- **The walk over the candidates.** -/
theorem conducts_tryCandidates (post : Nat → UpstreamRequest → Except BridgeError α)
    (req : CanonicalRequest) (i : Nat) (lastErr : Option BridgeError) (cs : List Resolved) :
    Conducts (fun q r => ∃ c, q = .accepted c ∧ r.1 = c.providerName) (.walking cs)
      (tryCandidates post req i lastErr cs) := by
  induction cs generalizing i lastErr with
  | nil =>
      apply Attempt.Meets.lift
      · rintro a ⟨⟩
      · exact fun _ _ => trivial
  | cons c cs ih =>
      rw [tryCandidates]
      apply (conducts_send post req i c cs).bind
      rintro q answer rfl
      cases verdict answer (cs ≠ []) with
      | accepted a => exact Attempt.Meets.pure ⟨c, rfl, rfl⟩
      | failed e =>
          apply Attempt.Meets.lift
          · rintro a ⟨⟩
          · rintro e' ⟨⟩
            rfl
      | advance e =>
          have hdegrade : Conducts (fun q _ => q = .walking cs) (.failedOver c cs) (degrade c e) :=
            conducts_access fun _ => ⟨_, if_pos rfl, rfl⟩
          apply hdegrade.bind_at
          intro _
          exact ih (i + 1) (some e)

/-- Whoever has accepted is charged. -/
theorem conducts_recordEach {c : Resolved} (now : Int) (amounts : List (UsageKind × FloatValue)) :
    Conducts (fun q _ => q = .accepted c) (.accepted c)
      (recordEach c.providerName now amounts) := by
  induction amounts with
  | nil => exact Attempt.Meets.pure rfl
  | cons a amounts ih =>
      rcases a with ⟨kind, amount⟩
      have hone : Conducts (fun q _ => q = .accepted c) (.accepted c)
          (recordOne c.providerName now kind amount) :=
        conducts_access fun _ => ⟨_, if_pos rfl, rfl⟩
      apply hone.bind_at
      intro _
      exact ih

theorem conducts_recordResponse {c : Resolved} (cfg : Config) (model : String) (resp : Value)
    (now : Int) :
    Conducts (fun q _ => q = .accepted c) (.accepted c)
      (recordResponse cfg c.providerName model resp now) := by
  apply (conducts_usageEnabled rfl).bind_at
  intro on
  split
  · exact conducts_recordEach now _
  · exact Attempt.Meets.pure rfl

/-- A recorder is for the provider and its kinds. -/
theorem costRecorder_eq_some {on : Bool} {cfg : Config} {provider model : String}
    {r : CostRecorder} (h : costRecorder on cfg provider model = some r) :
    r.provider = provider ∧ r.kinds = usageKinds cfg provider model := by
  rw [costRecorder] at h
  split at h
  · simp only at h
    split at h
    · cases h
    · cases h
      exact ⟨rfl, rfl⟩
  · cases h

/-- The answer to an accepted request. -/
theorem conducts_reply {c : Resolved} {r : Reply} :
    Conducts (fun q _ => ∃ c, q = .accepted c) (.accepted c) (pure r) :=
  Attempt.Meets.pure ⟨c, rfl⟩

variable (text : JsonText)

/-- The recorder of a stream is the one of the provider that serves it. -/
theorem conducts_recordCaught {on : Bool} {cfg : Config} {c : Resolved} {model : String}
    (now : Int) (caught : Option Caught) :
    Conducts (fun q _ => q = .accepted c) (.accepted c)
      (recordCaught now (costRecorder on cfg c.providerName model) caught) := by
  cases hrecorder : costRecorder on cfg c.providerName model with
  | none => exact Attempt.Meets.pure rfl
  | some recorder =>
      cases caught with
      | none => exact Attempt.Meets.pure rfl
      | some caught =>
          rw [recordCaught, (costRecorder_eq_some hrecorder).1]
          exact conducts_recordEach now _

theorem conducts_respondStream {σ : Type} (T : Translation σ) (cfg : Config) (call : ClientCall)
    (c : Resolved) (model : String) (chunks : List UpstreamChunk) :
    Conducts (fun q _ => ∃ c, q = .accepted c) (.accepted c)
      (respondStream text T cfg call c.providerName model chunks) := by
  apply (conducts_usageEnabled rfl).bind_at
  intro on
  apply (conducts_recordCaught call.recordAt _).bind_at
  intro _
  exact conducts_reply

/-- **The translated endpoints.** -/
theorem conducts_translated {σ : Type} (T : Translation σ) (call : ClientCall) :
    Conducts (fun q _ => ∃ c, q = .accepted c) .entered (translated text T call) := by
  apply (conducts_authorized call.headers).bind_at
  intro cfg
  apply conducts_check.bind_at
  intro req
  apply (conducts_resolve cfg call.decideAt req.model).bind
  rintro q chain rfl
  split
  · apply (conducts_tryCandidates _ req 0 none chain).bind
    rintro q ⟨provider, model, chunks⟩ ⟨c, rfl, hname⟩
    cases hname
    exact conducts_respondStream text T cfg call c model chunks
  · apply (conducts_tryCandidates _ req 0 none chain).bind
    rintro q ⟨provider, model, resp⟩ ⟨c, rfl, hname⟩
    cases hname
    apply (conducts_recordResponse cfg model resp call.recordAt).bind_at
    intro _
    exact conducts_reply

/-- **The chat endpoint.** -/
theorem conducts_chatHandler (call : ClientCall) :
    Conducts (fun q _ => ∃ c, q = .accepted c) .entered (chatHandler text call) := by
  apply (conducts_authorized call.headers).bind_at
  intro cfg
  apply conducts_check.bind_at
  intro req
  apply (conducts_resolve cfg call.decideAt req.model).bind
  rintro q chain rfl
  split
  · apply (conducts_tryCandidates _ req 0 none chain).bind
    rintro q r ⟨c, rfl, -⟩
    exact conducts_reply
  · apply (conducts_tryCandidates _ req 0 none chain).bind
    rintro q ⟨provider, model, resp⟩ ⟨c, rfl, hname⟩
    cases hname
    apply (conducts_recordResponse cfg model resp call.recordAt).bind_at
    intro _
    exact conducts_reply

/-! ### Other parties -/

/-- A party that is no client request keeps aside. -/
theorem conducts_aside_access {act : LiveState → LiveState × Effect}
    {result : LiveState → Except BridgeError α}
    (h : ∀ s, RequestStage.aside.next (act s).2 = some .aside) :
    Conducts (fun q _ => q = .aside) .aside (.access act result) := by
  apply conducts_access
  intro s
  refine ⟨.aside, h s, ?_⟩
  cases result s with
  | ok a => rfl
  | error e => trivial

theorem aside_ofApp (app : AppState) (e : Refresh.Event Table) :
    RequestStage.aside.next (Effect.ofApp app e) = some .aside := by
  cases e <;> rfl

/-- What is done to the application state only is no matter of a request. -/
theorem conducts_onApp (t : Handler BridgeError α) :
    Conducts (fun q _ => q = .aside) .aside (onApp t) := by
  induction t with
  | done r =>
      cases r with
      | ok a => rfl
      | error e => trivial
  | access act rest ih =>
      intro w s _ _
      exact ⟨trivial, trivial, .aside, aside_ofApp _ _, ih s.app⟩

theorem conducts_answerQuery (headers : HeaderMap) (query : Query) (now : Int) :
    Conducts (fun q _ => q = .aside) .aside (answerQuery headers query now) := by
  have hconfig : Conducts (fun q _ => q = .aside) .aside (snapshotFor headers query) := by
    rw [snapshotFor]
    split <;> exact conducts_aside_access fun _ => rfl
  apply hconfig.bind_at
  intro cfg
  exact conducts_aside_access fun _ => rfl

theorem conducts_setUsage (headers : HeaderMap) (on : Bool) :
    Conducts (fun q _ => q = .aside) .aside (setUsage headers on) := by
  have hauth : Conducts (fun q _ => q = .aside) .aside (authorized headers) :=
    conducts_aside_access fun _ => rfl
  apply hauth.bind_at
  intro cfg
  exact conducts_aside_access fun _ => rfl

end Handlers

/-! ## All parties -/

/-- A client request for a completion. -/
def Party.isClient : Party → Bool
  | .responses _ _ | .messages _ | .chat _ => true
  | _ => false

/-- Where a party enters the protocol. -/
def Party.entry (p : Party) : RequestStage := if p.isClient then .entered else .aside

/-- Where a party may end with an answer. -/
def RequestStage.Answered (q : RequestStage) : Prop := (∃ c, q = .accepted c) ∨ q = .aside

/-- **Every party keeps to the protocol.** -/
theorem conducts_party (host : Host) (text : JsonText) (p : Party) :
    Conducts (fun q _ => q.Answered) p.entry (p.task host text) := by
  -- a client ends with acceptance, the others where they are
  have hclient : ∀ {t : Live Reply}, Conducts (fun q _ => ∃ c, q = .accepted c) .entered t →
      Conducts (fun q _ => q.Answered) .entered t := fun h => h.weaken fun _ _ => Or.inl
  have haside : ∀ {t : Live Reply}, Conducts (fun q _ => q = .aside) .aside t →
      Conducts (fun q _ => q.Answered) .aside t := fun h => h.weaken fun _ _ => Or.inr
  cases p with
  | responses uuid call => exact hclient (conducts_translated text _ call)
  | messages call => exact hclient (conducts_translated text _ call)
  | chat call => exact hclient (conducts_chatHandler text call)
  | query headers q now => exact haside (conducts_answerQuery headers q now)
  | setUsage headers on => exact haside (conducts_setUsage headers on)
  | write headers w => exact haside (conducts_onApp _)
  | probed name status => exact haside (conducts_aside_access fun _ => rfl)
  | retained providers => exact haside (conducts_aside_access fun _ => rfl)

/-! ## What a request has done -/

namespace Conduct

/-- A candidate that has been contacted, and how it has failed. -/
def contact? : Effect → Option (Resolved × Option BridgeError)
  | .posted c _ failure => some (c, failure)
  | _ => none

def chain? : Effect → Option (List Resolved)
  | .resolved chain => some chain
  | _ => none

def mark? : Effect → Option String
  | .degraded name => some name
  | _ => none

def charge? : Effect → Option String
  | .recorded provider _ _ => some provider
  | _ => none

section Summaries

variable (ls : List Effect)

/-- Whom a request has contacted, in order. -/
def contacts : List (Resolved × Option BridgeError) := ls.filterMap contact?

/-- The chains it has resolved. -/
def chains : List (List Resolved) := ls.filterMap chain?

/-- Whom it has marked unavailable. -/
def marks : List String := ls.filterMap mark?

/-- Whom it has recorded usage for. -/
def charged : List String := ls.filterMap charge?

/-- The providers it has contacted. -/
def contactedNames : List String := (contacts ls).map fun p => p.1.providerName

variable (l : Effect)

theorem contacts_snoc : contacts (ls ++ [l]) = contacts ls ++ (contact? l).toList := by
  rw [contacts, List.filterMap_append]
  cases h : contact? l <;> simp [contacts, h]

theorem chains_snoc : chains (ls ++ [l]) = chains ls ++ (chain? l).toList := by
  rw [chains, List.filterMap_append]
  cases h : chain? l <;> simp [chains, h]

theorem marks_snoc : marks (ls ++ [l]) = marks ls ++ (mark? l).toList := by
  rw [marks, List.filterMap_append]
  cases h : mark? l <;> simp [marks, h]

theorem charged_snoc : charged (ls ++ [l]) = charged ls ++ (charge? l).toList := by
  rw [charged, List.filterMap_append]
  cases h : charge? l <;> simp [charged, h]

end Summaries

/-- Everybody contacted has failed in a way that lets the request go on. -/
def AllFailedOver (ls : List Effect) : Prop :=
  ∀ p ∈ contacts ls, ∃ e, p.2 = some e ∧ isRetryable e = true

/-- **What a client request may do next**, after what it has done. -/
def InTurn (before : List Effect) : Effect → Prop
  | .quiet => True
  -- one chain, before anything else
  | .resolved _ => chains before = [] ∧ contacts before = []
  -- the next of the chain, when all before it have failed and are marked
  | .posted c _ _ => ∃ chain, chains before = [chain] ∧
      (contacts before).map Prod.fst ++ [c] <+: chain ∧ AllFailedOver before ∧
        marks before = contactedNames before
  -- the one contacted last, when it has failed retryably and is not the last of the chain
  | .degraded name => ∃ chain c e, chains before = [chain] ∧
      (contacts before).length < chain.length ∧
        (contacts before).getLast? = some (c, some e) ∧ isRetryable e = true ∧
          marks before ++ [name] = contactedNames before
  -- the one that has accepted
  | .recorded provider _ _ => ∃ c, (contacts before).getLast? = some (c, none) ∧
      c.providerName = provider
  | _ => False

/-- What is known of a request that has walked as far as `left`. -/
structure Walked (left : List Resolved) (ls : List Effect) : Prop where
  chain : chains ls = [(contacts ls).map Prod.fst ++ left]
  failed : AllFailedOver ls
  unpaid : charged ls = []

/-- What a stage tells of the past. -/
def Describes (ls : List Effect) : RequestStage → Prop
  | .entered => chains ls = [] ∧ contacts ls = [] ∧ marks ls = [] ∧ charged ls = []
  | .walking left => Walked left ls ∧ marks ls = contactedNames ls ∧ (left = [] → contacts ls = [])
  | .failedOver c left => Walked left ls ∧ left ≠ [] ∧
      (∃ e, (contacts ls).getLast? = some (c, some e) ∧ isRetryable e = true) ∧
        marks ls ++ [c.providerName] = contactedNames ls
  | .accepted c => (contacts ls).getLast? = some (c, none)
  | .refused c e => (contacts ls).getLast? = some (c, some e) ∧ charged ls = []
  | .aside => False

/-- The steps of a client request. -/
inductive Moves : RequestStage → Effect → RequestStage → Prop where
  | enters : Moves .entered .quiet .entered
  | resolves (chain : List Resolved) : Moves .entered (.resolved chain) (.walking chain)
  | accepts (c : Resolved) (left : List Resolved) (req : UpstreamRequest) :
      Moves (.walking (c :: left)) (.posted c req none) (.accepted c)
  | failsOver (c : Resolved) (left : List Resolved) (req : UpstreamRequest) (e : BridgeError)
      (hretry : isRetryable e = true) (hleft : left ≠ []) :
      Moves (.walking (c :: left)) (.posted c req (some e)) (.failedOver c left)
  | refuses (c : Resolved) (left : List Resolved) (req : UpstreamRequest) (e : BridgeError) :
      Moves (.walking (c :: left)) (.posted c req (some e)) (.refused c e)
  | degrades (c : Resolved) (left : List Resolved) :
      Moves (.failedOver c left) (.degraded c.providerName) (.walking left)
  | serves (c : Resolved) : Moves (.accepted c) .quiet (.accepted c)
  | charges (c : Resolved) (kind : UsageKind) (amount : FloatValue) :
      Moves (.accepted c) (.recorded c.providerName kind amount) (.accepted c)

/-- The protocol allows no other steps. -/
theorem moves_of_next {q q' : RequestStage} {l : Effect} (hq : q ≠ .aside)
    (h : q.next l = some q') : Moves q l q' := by
  cases q with
  | aside => exact absurd rfl hq
  | refused c e => cases l <;> cases h
  | entered =>
      cases l <;> cases h
      · exact .enters
      · exact .resolves _
  | walking left =>
      cases left with
      | nil => cases l <;> cases h
      | cons c left =>
          cases l <;> simp only [RequestStage.next, reduceCtorEq] at h
          split at h
          case isFalse => cases h
          case isTrue hc =>
            subst hc
            split at h
            · cases h
              exact .accepts _ _ _
            · split at h
              · rename_i hadv
                cases h
                exact .failsOver _ _ _ _ hadv.1 hadv.2
              · cases h
                exact .refuses _ _ _ _
  | failedOver c left =>
      cases l <;> simp only [RequestStage.next, reduceCtorEq] at h
      split at h <;> cases h
      rename_i hname
      rw [hname]
      exact .degrades c left
  | accepted c =>
      cases l <;> simp only [RequestStage.next, reduceCtorEq] at h
      · cases h
        exact .serves c
      · split at h <;> cases h
        rename_i hname
        rw [hname]
        exact .charges c _ _

theorem contactedNames_snoc_posted (ls : List Effect) (c : Resolved) (req : UpstreamRequest)
    (failure : Option BridgeError) :
    contactedNames (ls ++ [.posted c req failure]) = contactedNames ls ++ [c.providerName] := by
  simp [contactedNames, contacts_snoc, contact?]

/-- A contact that leads on. -/
theorem Walked.failsOver {c : Resolved} {left : List Resolved} {ls : List Effect}
    (h : Walked (c :: left) ls) (req : UpstreamRequest) {e : BridgeError}
    (hretry : isRetryable e = true) : Walked left (ls ++ [.posted c req (some e)]) := by
  refine ⟨?_, ?_, ?_⟩
  · simp [chains_snoc, contacts_snoc, chain?, contact?, h.chain]
  · intro p hp
    rw [contacts_snoc, List.mem_append] at hp
    rcases hp with hp | hp
    · exact h.failed p hp
    · obtain rfl := List.mem_singleton.1 hp
      exact ⟨e, rfl, hretry⟩
  · simp [charged_snoc, charge?, h.unpaid]

/-- A mark changes nothing of the walk. -/
theorem Walked.degraded {left : List Resolved} {ls : List Effect} (h : Walked left ls)
    (name : String) : Walked left (ls ++ [.degraded name]) := by
  refine ⟨?_, ?_, ?_⟩
  · simp [chains_snoc, contacts_snoc, chain?, contact?, h.chain]
  · simpa [AllFailedOver, contacts_snoc, contact?] using h.failed
  · simp [charged_snoc, charge?, h.unpaid]

/-- **One step** of the protocol. -/
theorem describes_next {q q' : RequestStage} {ls : List Effect} {l : Effect} (h : Describes ls q)
    (hnext : q.next l = some q') : InTurn ls l ∧ Describes (ls ++ [l]) q' := by
  have hq : q ≠ .aside := by
    rintro rfl
    exact h
  -- the candidate contacted is the next of the chain
  have hposted : ∀ {c left req failure}, Walked (c :: left) ls → marks ls = contactedNames ls →
      InTurn ls (.posted c req failure) := by
    intro c left req failure hwalked hmarks
    refine ⟨_, hwalked.chain, ⟨left, ?_⟩, hwalked.failed, hmarks⟩
    simp
  cases moves_of_next hq hnext with
  | enters =>
      obtain ⟨hchains, hcontacts, hmarks, hcharged⟩ := h
      refine ⟨trivial, ?_⟩
      simp [Describes, chains_snoc, contacts_snoc, marks_snoc, charged_snoc, chain?, contact?,
        mark?, charge?, hchains, hcontacts, hmarks, hcharged]
  | resolves chain =>
      obtain ⟨hchains, hcontacts, hmarks, hcharged⟩ := h
      refine ⟨⟨hchains, hcontacts⟩, ⟨?_, ?_, ?_⟩, ?_, ?_⟩
      · simp [chains_snoc, contacts_snoc, chain?, contact?, hchains, hcontacts]
      · simp [AllFailedOver, contacts_snoc, contact?, hcontacts]
      · simp [charged_snoc, charge?, hcharged]
      · simp [marks_snoc, contactedNames, contacts_snoc, contact?, mark?, hmarks, hcontacts]
      · simp [contacts_snoc, contact?, hcontacts]
  | accepts c left req =>
      obtain ⟨hwalked, hmarks, -⟩ := h
      refine ⟨hposted hwalked hmarks, ?_⟩
      simp [Describes, contacts_snoc, contact?]
  | failsOver c left req e hretry hleft =>
      obtain ⟨hwalked, hmarks, -⟩ := h
      refine ⟨hposted hwalked hmarks, hwalked.failsOver req hretry, hleft, ⟨e, ?_, hretry⟩, ?_⟩
      · simp [contacts_snoc, contact?]
      · rw [contactedNames_snoc_posted, marks_snoc, ← hmarks]
        simp [mark?]
  | refuses c left req e =>
      obtain ⟨hwalked, hmarks, -⟩ := h
      refine ⟨hposted hwalked hmarks, ?_⟩
      simp [Describes, contacts_snoc, contact?, charged_snoc, charge?, hwalked.unpaid]
  | degrades c left =>
      obtain ⟨hwalked, hleft, ⟨e, hlast, hretry⟩, hmarks⟩ := h
      refine ⟨⟨_, c, e, hwalked.chain, ?_, hlast, hretry, hmarks⟩, hwalked.degraded _, ?_, ?_⟩
      · have hpos := List.length_pos_of_ne_nil hleft
        rw [List.length_append, List.length_map]
        omega
      · rw [marks_snoc]
        simpa [mark?, contactedNames, contacts_snoc, contact?] using hmarks
      · exact fun h => absurd h hleft
  | serves c =>
      refine ⟨trivial, ?_⟩
      simpa [Describes, contacts_snoc, contact?] using h
  | charges c kind amount =>
      refine ⟨⟨c, h, rfl⟩, ?_⟩
      simpa [Describes, contacts_snoc, contact?] using h

/-- A request that fails fails with the error of the candidate it contacted last. -/
theorem failed_of_describes {q : RequestStage} {ls : List Effect} {e : BridgeError}
    (h : Describes ls q) (hfailed : q.FailedBy e) :
    charged ls = [] ∧ ∀ p ∈ (contacts ls).getLast?, p.2 = some e := by
  cases q with
  | entered =>
      obtain ⟨-, hcontacts, -, hcharged⟩ := h
      simp [hcontacts, hcharged]
  | walking left =>
      cases left with
      | cons c left => exact hfailed.elim
      | nil =>
          obtain ⟨hwalked, -, hnone⟩ := h
          simp [hnone rfl, hwalked.unpaid]
  | refused c e' =>
      obtain rfl : e' = e := hfailed
      simp [h.1, h.2]
  | failedOver c left => exact hfailed.elim
  | accepted c => exact hfailed.elim
  | aside => exact h.elim

/-- **A run** of the protocol. -/
theorem describes_stages {ls : List Effect} {q : RequestStage}
    (h : conductContract.stages .entered ls = some q) :
    EverySplit InTurn ls ∧ Describes ls q := by
  induction ls using List.reverseRecOn generalizing q with
  | nil =>
      cases h
      exact ⟨everySplit_nil InTurn, rfl, rfl, rfl, rfl⟩
  | append_singleton ls l ih =>
      rw [Contract.stages, List.foldlM_append] at h
      obtain ⟨q₀, hq₀, hl⟩ := Option.bind_eq_some_iff.1 h
      obtain ⟨hsplit, hdescribes⟩ := ih hq₀
      have hnext : q₀.next l = some q := by simpa [conductContract] using hl
      obtain ⟨hturn, hdescribes⟩ := describes_next hdescribes hnext
      refine ⟨(everySplit_append InTurn ls [l]).2 ⟨hsplit, ?_⟩, hdescribes⟩
      rw [everySplit_cons]
      exact ⟨by simpa using hturn, everySplit_nil _⟩

end Conduct

/-! ## Runs -/

section Pools

open Conduct

variable {ι : Type} [DecidableEq ι]

/-- **How a client request conducts itself**, whatever the other parties do meanwhile. It does
everything in turn; if it is answered, the candidate it contacted last has accepted it; if it
fails, it has charged nobody, and fails with the error of that candidate. -/
theorem conduct_of_requests (host : Host) (text : JsonText) (parties : ι → Party) (s : LiveState)
    (schedule : List ι) (i : ι) (hclient : (parties i).isClient = true) :
    let ls := labelsOf i ((serving host text parties s).trace schedule)
    let t := ((serving host text parties s).after schedule).task i
    EverySplit InTurn ls ∧
      (∀ reply, t = .done (.ok reply) → ∃ c, (contacts ls).getLast? = some (c, none)) ∧
      ∀ e, t = .done (.error e) → charged ls = [] ∧ ∀ p ∈ (contacts ls).getLast?, p.2 = some e := by
  intro ls t
  have hkeeping : Keeping conductContract
      (fun _ => OnOk (fun q _ _ => q.Answered) fun q _ e => q.FailedBy e)
      (serving host text parties s) ((), fun i => (parties i).entry) :=
    ⟨trivial, fun i => conducts_party host text (parties i)⟩
  obtain ⟨htrace, hafter⟩ := Pool.meets_run (fun _ _ _ _ _ _ h => h) hkeeping schedule
  have hstages := htrace.stages i
  have hentry : (parties i).entry = .entered := if_pos hclient
  simp only [hentry] at hstages
  obtain ⟨hsplit, hdescribes⟩ := describes_stages hstages
  have htask := hafter.tasks i
  refine ⟨hsplit, fun reply hdone => ?_, fun e hdone => ?_⟩
  · change Task.Meets _ _ _ _ t at htask
    rw [hdone] at htask
    rcases htask with ⟨c, hc⟩ | haside
    · rw [hc] at hdescribes
      exact ⟨c, hdescribes⟩
    · rw [haside] at hdescribes
      exact hdescribes.elim
  · change Task.Meets _ _ _ _ t at htask
    rw [hdone] at htask
    exact failed_of_describes hdescribes htask

end Pools

/-- A request that fails over while usage is switched on. -/
def fastParties : Fin 2 → Party
  | 0 => .chat fastCall
  | 1 => .setUsage [] true

theorem conduct_of_requests_fast :
    (labelsOf 0 ((serving plainHost emptyObjectText fastParties (startedWith fastConfig)).trace
        [0, 0, 0, 0, 1, 0, 0, 1, 0])).map Conduct.mark? =
      [none, none, none, none, some "go", none, none] ∧
    EverySplit Conduct.InTurn
      (labelsOf 0 ((serving plainHost emptyObjectText fastParties (startedWith fastConfig)).trace
        [0, 0, 0, 0, 1, 0, 0, 1, 0])) :=
  ⟨rfl, (conduct_of_requests plainHost emptyObjectText fastParties (startedWith fastConfig)
    [0, 0, 0, 0, 1, 0, 0, 1, 0] 0 rfl).1⟩

end AiApiBridge
