import AiApiBridge.Conduct
import AiApiBridge.KeySecrecy
import AiApiBridge.Lib.Related

/-!
# What nobody can find out

Two servers that differ in the api keys of their providers, wherever these come from (the
database, the environment, the bodies of admin writes), and whose upstreams do not answer to the
key: they give everybody the same answers and do the same to the same providers, and differ in
the bearer of the requests to upstreams only. And as long as usage is not tracked, they may
differ in what has been recorded before, too (`secrets_stay`).
-/

set_option autoImplicit false

namespace AiApiBridge

open Router Failover Refresh Admin Store

/-! ## Alike up to keys -/

section Likeness

variable (K : String → String → Prop)

/-- Two providers that differ in their keys. `K` says which keys stand for each other. -/
def Provider.Like (p p' : Provider) : Prop :=
  ∃ key, Option.Rel K p.apiKey key ∧ p' = { p with apiKey := key }

/-- Two entries of one name. -/
def EntryLike (e e' : String × Provider) : Prop := e.1 = e'.1 ∧ e.2.Like K e'.2

def Config.Like (cfg cfg' : Config) : Prop :=
  ∃ providers, List.Forall₂ (EntryLike K) cfg.providers providers ∧ cfg' = { cfg with providers }

def Resolved.Like (c c' : Resolved) : Prop :=
  ∃ provider, c.provider.Like K provider ∧ c' = { c with provider }

def Store.ProviderRow.Like (r r' : ProviderRow) : Prop :=
  ∃ key, Option.Rel K r.apiKey key ∧ r' = { r with apiKey := key }

def UpstreamRequest.Like (r r' : UpstreamRequest) : Prop :=
  ∃ bearer, Option.Rel K r.bearer bearer ∧ r' = { r with bearer }

structure Database.Like (db db' : Database) : Prop where
  providers : List.Forall₂ (ProviderRow.Like K) db.providers.rows db'.providers.rows
  routes : db.routes = db'.routes
  settings : db.settings = db'.settings

structure AppState.Like (s s' : AppState) : Prop where
  config : s.config.Like K s'.config
  db : s.db.Like K s'.db

/-- Two states of the server. Their meters may differ when `untracked` says that usage is not
tracked. -/
structure LiveState.Like (untracked : Prop) (s s' : LiveState) : Prop where
  app : s.app.Like K s'.app
  status : s.status = s'.status
  usageOn : s.usageOn = s'.usageOn
  meter : s.meter = s'.meter ∨ untracked
  off : untracked → s.usageOn = false

/-- Two effects that differ in keys. -/
inductive Effect.Like : Effect → Effect → Prop where
  | same (l : Effect) : Like l l
  | resolved {chain chain' : List Resolved} (h : List.Forall₂ (Resolved.Like K) chain chain') :
      Like (.resolved chain) (.resolved chain')
  | posted {c c' : Resolved} {req req' : UpstreamRequest} {failure : Option BridgeError}
      (hc : c.Like K c') (hreq : req.Like K req') :
      Like (.posted c req failure) (.posted c' req' failure)
  | swapped {cfg cfg' : Config} (h : cfg.Like K cfg') : Like (.swapped cfg) (.swapped cfg')

def Admin.ProviderInput.Like (i i' : ProviderInput) : Prop :=
  ∃ key, Option.Rel K (nonEmpty i.apiKey) (nonEmpty key) ∧ i' = { i with apiKey := key }

inductive Admin.Write.Like : Write → Write → Prop where
  | same (w : Write) (h : ∀ input, w ≠ .createProvider input)
      (h' : ∀ name input, w ≠ .updateProvider name input) : Like w w
  | createProvider {i i' : ProviderInput} (h : i.Like K i') :
      Like (.createProvider i) (.createProvider i')
  | updateProvider (name : String) {i i' : ProviderInput} (h : i.Like K i') :
      Like (.updateProvider name i) (.updateProvider name i')

/-- The same request of a client, whose upstreams do not answer to the key. -/
structure ClientCall.Like (call call' : ClientCall) : Prop where
  headers : call.headers = call'.headers
  body : call.body = call'.body
  responseId : call.responseId = call'.responseId
  decideAt : call.decideAt = call'.decideAt
  recordAt : call.recordAt = call'.recordAt
  stream : ∀ i r r', r.Like K r' → call.stream i r = call'.stream i r'
  json : ∀ i r r', r.Like K r' → call.json i r = call'.json i r'

/-- The same parties. While usage is not tracked nobody switches it on. -/
inductive Party.Like (untracked : Prop) : Party → Party → Prop where
  | responses (uuid : Nat → String) {call call' : ClientCall} (h : call.Like K call') :
      Like untracked (.responses uuid call) (.responses uuid call')
  | messages {call call' : ClientCall} (h : call.Like K call') :
      Like untracked (.messages call) (.messages call')
  | chat {call call' : ClientCall} (h : call.Like K call') :
      Like untracked (.chat call) (.chat call')
  | query (headers : HeaderMap) (q : Query) (now : Int) :
      Like untracked (.query headers q now) (.query headers q now)
  | setUsage (headers : HeaderMap) (on : Bool) (h : untracked → on = false) :
      Like untracked (.setUsage headers on) (.setUsage headers on)
  | write (headers : HeaderMap) {w w' : Write} (h : w.Like K w') :
      Like untracked (.write headers w) (.write headers w')
  | probed (name : String) (status : ProviderStatus) :
      Like untracked (.probed name status) (.probed name status)
  | retained {providers providers' : List (String × Provider)}
      (h : List.Forall₂ (EntryLike K) providers providers') :
      Like untracked (.retained providers) (.retained providers')

/-- The same host in an environment with other keys. -/
def Host.Like (host host' : Host) : Prop :=
  ∃ env, (∀ name, Option.Rel K (host.env name) (env name)) ∧ host' = host.under env

end Likeness

/-! ## Reading -/

section Reading

variable {K : String → String → Prop} {cfg cfg' : Config}

theorem isSome_of_rel {α β : Type} {r : α → β → Prop} {x : Option α} {y : Option β}
    (h : Option.Rel r x y) : x.isSome = y.isSome := by
  cases h <;> rfl

/-- Entries of one name are found together. -/
theorem lookup_like {ps ps' : List (String × Provider)} (h : List.Forall₂ (EntryLike K) ps ps')
    (name : String) : Option.Rel (Provider.Like K) (ps.lookup name) (ps'.lookup name) := by
  induction h with
  | nil => exact .none
  | @cons e e' ps ps' he _ ih =>
      rcases e with ⟨key, p⟩
      rcases e' with ⟨key', p'⟩
      obtain ⟨rfl, hp⟩ : key = key' ∧ p.Like K p' := he
      rw [lookup_cons_ite, lookup_cons_ite]
      split
      · exact .some hp
      · exact ih

theorem knows_like {ps ps' : List (String × Provider)} (h : List.Forall₂ (EntryLike K) ps ps') :
    knows ps = knows ps' := by
  funext name
  exact isSome_of_rel (lookup_like h name)

theorem exhaustedSet_like {ps ps' : List (String × Provider)}
    (h : List.Forall₂ (EntryLike K) ps ps') (m : UsageMeter) (now : Int) :
    m.exhaustedSet ps now = m.exhaustedSet ps' now := by
  induction h with
  | nil => rfl
  | @cons e e' ps ps' he _ ih =>
      rcases e with ⟨name, p⟩
      rcases e' with ⟨name', p'⟩
      obtain ⟨rfl, key, -, rfl⟩ : name = name' ∧ p.Like K p' := he
      simp only [UsageMeter.exhaustedSet, List.filter_cons] at ih ⊢
      split
      · rw [List.map_cons, List.map_cons, ih]
      · exact ih

theorem usageKinds_like (h : cfg.Like K cfg') (provider model : String) :
    usageKinds cfg provider model = usageKinds cfg' provider model := by
  obtain ⟨providers, hproviders, rfl⟩ := h
  have hlookup := lookup_like hproviders provider
  rw [usageKinds, usageKinds]
  generalize cfg.providers.lookup provider = x at hlookup
  generalize providers.lookup provider = y at hlookup
  cases hlookup with
  | none => rfl
  | some hp =>
      obtain ⟨key, -, rfl⟩ := hp
      rfl

/-- Two chains with the same names and models. -/
theorem knownCandidates_like (h : cfg.Like K cfg') (raw : List (String × String)) :
    List.Forall₂ (Resolved.Like K) (knownCandidates cfg raw) (knownCandidates cfg' raw) := by
  obtain ⟨providers, hproviders, rfl⟩ := h
  refine List.rel_filterMap (R := Eq) ?_ (List.forall₂_refl raw)
  rintro ⟨name, model⟩ _ rfl
  have hlookup := lookup_like hproviders name
  simp only
  generalize cfg.providers.lookup name = x at hlookup
  generalize providers.lookup name = y at hlookup
  cases hlookup with
  | none => exact .none
  | some hp => exact .some ⟨_, hp, rfl⟩

theorem rank_like {cs cs' : List Resolved} (h : List.Forall₂ (Resolved.Like K) cs cs')
    (status : StatusMap) (exhausted : List String) :
    List.Forall₂ (Resolved.Like K) (rank status exhausted cs) (rank status exhausted cs') := by
  have husable : ∀ c c' : Resolved, c.Like K c' →
      ranksUsable status exhausted c = ranksUsable status exhausted c' := by
    rintro c _ ⟨_, ⟨key, -, rfl⟩, rfl⟩
    rfl
  apply List.rel_append
  · exact List.rel_filter (fun c c' hc => by simp [husable c c' hc]) h
  · exact List.rel_filter (fun c c' hc => by simp [husable c c' hc]) h

theorem rawCandidates_like (h : cfg.Like K cfg') (model : String) :
    rawCandidates cfg model = rawCandidates cfg' model := by
  obtain ⟨providers, hproviders, rfl⟩ := h
  rw [rawCandidates, rawCandidates]
  simp only
  cases cfg.routes.find? fun r => r.routeAlias = model with
  | some route => rfl
  | none =>
      cases cfg.defaultProvider with
      | none => rfl
      | some name =>
          have hlookup := lookup_like hproviders name
          simp only
          generalize cfg.providers.lookup name = x at hlookup
          generalize providers.lookup name = y at hlookup
          cases hlookup with
          | none => rfl
          | some hp =>
              obtain ⟨key, -, rfl⟩ := hp
              rfl

/-- **Resolving a model** finds the same candidates. -/
theorem resolveCandidates_like (h : cfg.Like K cfg') (status : StatusMap)
    (exhausted : List String) (model : String) :
    Attempt.Agree (List.Forall₂ (Resolved.Like K)) (resolveCandidates cfg status exhausted model)
      (resolveCandidates cfg' status exhausted model) := by
  have hraw := rawCandidates_like h model
  have hfallback : cfg.fallbackRoute = cfg'.fallbackRoute := by
    obtain ⟨providers, -, rfl⟩ := h
    rfl
  rw [resolveCandidates, resolveCandidates, ← hraw]
  cases rawCandidates cfg model with
  | error e => rfl
  | ok raw =>
      have hwith : withFallbackRoute cfg raw = withFallbackRoute cfg' raw := by
        rw [withFallbackRoute, withFallbackRoute, hfallback]
      have hchain := rank_like (knownCandidates_like h (withFallbackRoute cfg raw)) status exhausted
      simp only [bind, Except.bind, ← hwith]
      generalize rank status exhausted (knownCandidates cfg (withFallbackRoute cfg raw)) = chain
        at hchain
      generalize rank status exhausted (knownCandidates cfg' (withFallbackRoute cfg raw)) = chain'
        at hchain
      cases hchain with
      | nil => rfl
      | cons hc hcs => exact .cons hc hcs

end Reading

/-! ## Requests -/

section Requests

variable {K : String → String → Prop} {U : Prop} {α β : Type}

/-- Attempts that differ in keys only. -/
abbrev Keyless (K : String → String → Prop) (U : Prop) (Q : α → β → Prop) (t : Live α)
    (t' : Live β) : Prop :=
  Attempt.Related (LiveState.Like K U) (Effect.Like K) Q t t'

theorem keyless_observe {Q : α → β → Prop} {read : LiveState → Except BridgeError α}
    {read' : LiveState → Except BridgeError β}
    (h : ∀ s s', LiveState.Like K U s s' → Attempt.Agree Q (read s) (read' s')) :
    Keyless K U Q (observe read) (observe read') :=
  Attempt.Related.access fun s s' hs => ⟨hs, .same _, h s s' hs⟩

theorem checkAuth_like {cfg cfg' : Config} (h : cfg.Like K cfg') (headers : HeaderMap) :
    checkAuth cfg headers = checkAuth cfg' headers := by
  obtain ⟨providers, -, rfl⟩ := h
  rfl

theorem keyless_authorized (headers : HeaderMap) :
    Keyless K U (Config.Like K) (authorized headers) (authorized headers) := by
  apply keyless_observe
  intro s s' hs
  rw [checkAuth_like hs.app.config headers]
  cases checkAuth s'.app.config headers with
  | ok u => exact hs.app.config
  | error e => rfl

theorem keyless_usageEnabled :
    Keyless K U (fun on on' => on = on' ∧ (U → on = false)) usageEnabled usageEnabled :=
  keyless_observe fun _ _ hs => ⟨hs.usageOn, hs.off⟩

theorem keyless_resolve {cfg cfg' : Config} (h : cfg.Like K cfg') (now : Int) (model : String) :
    Keyless K U (List.Forall₂ (Resolved.Like K)) (resolve cfg now model)
      (resolve cfg' now model) := by
  apply keyless_usageEnabled.bind
  rintro on _ ⟨rfl, hoff⟩
  apply Attempt.Related.access
  intro s s' hs
  -- the meter is looked at only if usage is tracked
  have hexhausted : (if on then s.meter.exhaustedSet cfg.providers now else []) =
      if on then s'.meter.exhaustedSet cfg'.providers now else [] := by
    cases on with
    | false => rfl
    | true =>
        have hmeter : s.meter = s'.meter := hs.meter.resolve_right fun hu => by cases hoff hu
        obtain ⟨providers, hproviders, rfl⟩ := h
        simp only [if_true, hmeter]
        exact exhaustedSet_like hproviders _ _
  have hresolved := resolveCandidates_like h s.status
    (if on then s.meter.exhaustedSet cfg.providers now else []) model
  simp only [← hs.status, ← hexhausted]
  refine ⟨hs, ?_, hresolved⟩
  rcases hresolved.cases with ⟨chain, chain', hok, hok', hchain⟩ | ⟨e, he, he'⟩
  · rw [hok, hok']
    exact .resolved hchain
  · rw [he, he']
    exact .same _

variable (post post' : Nat → UpstreamRequest → Except BridgeError α)

/-- The request differs in its bearer only. -/
theorem requestTo_like {c c' : Resolved} (h : c.Like K c') (req : CanonicalRequest) :
    (requestTo req c).Like K (requestTo req c') := by
  obtain ⟨_, ⟨key, hkey, rfl⟩, rfl⟩ := h
  exact ⟨key, hkey, rfl⟩

variable {post post'}

theorem keyless_send {c c' : Resolved} (h : c.Like K c')
    (hpost : ∀ i r r', r.Like K r' → post i r = post' i r') (req : CanonicalRequest) (i : Nat) :
    Keyless K U (· = ·) (send post req i c) (send post' req i c') := by
  have hreq := requestTo_like h req
  apply Attempt.Related.access
  intro s s' hs
  rw [hpost i _ _ hreq]
  exact ⟨hs, .posted h hreq, rfl⟩

theorem keyless_degrade {c c' : Resolved} (h : c.Like K c') (e : BridgeError) :
    Keyless K U (· = ·) (degrade c e) (degrade c' e) := by
  obtain ⟨_, -, rfl⟩ := h
  apply Attempt.Related.access
  intro s s' hs
  exact ⟨{ hs with status := by rw [hs.status] }, .same _, rfl⟩

/-- **The walk over two chains** that differ in keys. -/
theorem keyless_tryCandidates {cs cs' : List Resolved} (h : List.Forall₂ (Resolved.Like K) cs cs')
    (hpost : ∀ i r r', r.Like K r' → post i r = post' i r') (req : CanonicalRequest) (i : Nat)
    (lastErr : Option BridgeError) :
    Keyless K U (· = ·) (tryCandidates post req i lastErr cs)
      (tryCandidates post' req i lastErr cs') := by
  induction h generalizing i lastErr with
  | nil => exact Attempt.Related.lift Attempt.Agree.refl
  | @cons c c' cs cs' hc hcs ih =>
      have hmore : decide (cs ≠ []) = decide (cs' ≠ []) := by
        cases hcs <;> rfl
      have hc' : c'.providerName = c.providerName ∧ c'.upstreamModel = c.upstreamModel := by
        obtain ⟨_, -, rfl⟩ := hc
        exact ⟨rfl, rfl⟩
      rw [tryCandidates, tryCandidates]
      apply (keyless_send hc hpost req i).bind_eq
      intro answer
      rw [hmore]
      cases verdict answer (decide (cs' ≠ [])) with
      | accepted a => exact Attempt.Related.pure (by rw [hc'.1, hc'.2])
      | failed e => exact Attempt.Related.lift Attempt.Agree.refl
      | advance e =>
          apply (keyless_degrade hc e).bind_eq
          intro _
          exact ih (i + 1) (some e)

theorem keyless_recordEach (provider : String) (now : Int)
    (amounts : List (UsageKind × FloatValue)) :
    Keyless K U (· = ·) (recordEach provider now amounts) (recordEach provider now amounts) := by
  induction amounts with
  | nil => exact Attempt.Related.pure rfl
  | cons a amounts ih =>
      have hone : Keyless K U (· = ·) (recordOne provider now a.1 a.2)
          (recordOne provider now a.1 a.2) := by
        apply Attempt.Related.access
        intro s s' hs
        exact ⟨{ hs with meter := hs.meter.imp_left fun h => by rw [h] }, .same _, rfl⟩
      exact hone.bind_eq fun _ => ih

theorem keyless_recordResponse {cfg cfg' : Config} (h : cfg.Like K cfg') (provider model : String)
    (resp : Value) (now : Int) :
    Keyless K U (· = ·) (recordResponse cfg provider model resp now)
      (recordResponse cfg' provider model resp now) := by
  apply keyless_usageEnabled.bind
  rintro on _ ⟨rfl, -⟩
  rw [usageKinds_like h]
  split
  · exact keyless_recordEach _ _ _
  · exact Attempt.Related.pure rfl

theorem keyless_recordCaught (now : Int) (recorder : Option CostRecorder) (caught : Option Caught) :
    Keyless K U (· = ·) (recordCaught now recorder caught) (recordCaught now recorder caught) := by
  cases recorder with
  | none => exact Attempt.Related.pure rfl
  | some recorder =>
      cases caught with
      | none => exact Attempt.Related.pure rfl
      | some caught => exact keyless_recordEach _ _ _

variable (text : JsonText)

theorem keyless_respondStream {σ : Type} {cfg cfg' : Config} (h : cfg.Like K cfg')
    {call call' : ClientCall} (hcall : call.Like K call') (T : Translation σ)
    (provider model : String) (chunks : List UpstreamChunk) :
    Keyless K U (· = ·) (respondStream text T cfg call provider model chunks)
      (respondStream text T cfg' call' provider model chunks) := by
  apply keyless_usageEnabled.bind
  rintro on _ ⟨rfl, -⟩
  have hrecorder : costRecorder on cfg provider model = costRecorder on cfg' provider model := by
    rw [costRecorder, costRecorder, usageKinds_like h]
  rw [hrecorder, hcall.responseId, hcall.recordAt]
  apply (keyless_recordCaught _ _ _).bind_eq
  intro _
  exact Attempt.Related.pure rfl

/-- **The translated endpoints.** -/
theorem keyless_translated {σ : Type} {call call' : ClientCall} (hcall : call.Like K call')
    (T : Translation σ) :
    Keyless K U (· = ·) (translated text T call) (translated text T call') := by
  rw [translated, translated, ← hcall.headers, ← hcall.body, ← hcall.decideAt]
  apply (keyless_authorized _).bind
  intro cfg cfg' hcfg
  apply (Attempt.Related.lift Attempt.Agree.refl).bind_eq
  intro req
  apply (keyless_resolve hcfg _ _).bind
  intro chain chain' hchain
  split
  · apply (keyless_tryCandidates hchain (fun i r r' hr => by rw [hcall.stream i r r' hr]) req 0
      none).bind_eq
    rintro ⟨provider, model, chunks⟩
    exact keyless_respondStream text hcfg hcall T provider model chunks
  · apply (keyless_tryCandidates hchain (fun i r r' hr => by rw [hcall.json i r r' hr]) req 0
      none).bind_eq
    rintro ⟨provider, model, resp⟩
    rw [← hcall.recordAt, ← hcall.responseId]
    apply (keyless_recordResponse hcfg _ _ _ _).bind_eq
    intro _
    exact Attempt.Related.pure rfl

/-- **The chat endpoint.** -/
theorem keyless_chatHandler {call call' : ClientCall} (hcall : call.Like K call') :
    Keyless K U (· = ·) (chatHandler text call) (chatHandler text call') := by
  rw [chatHandler, chatHandler, ← hcall.headers, ← hcall.body, ← hcall.decideAt]
  apply (keyless_authorized _).bind
  intro cfg cfg' hcfg
  apply (Attempt.Related.lift Attempt.Agree.refl).bind_eq
  intro req
  apply (keyless_resolve hcfg _ _).bind
  intro chain chain' hchain
  split
  · apply (keyless_tryCandidates hchain (fun i r r' hr => by rw [hcall.stream i r r' hr]) req 0
      none).bind_eq
    intro r
    exact Attempt.Related.pure rfl
  · apply (keyless_tryCandidates hchain (fun i r r' hr => by rw [hcall.json i r r' hr]) req 0
      none).bind_eq
    rintro ⟨provider, model, resp⟩
    rw [← hcall.recordAt]
    apply (keyless_recordResponse hcfg _ _ _ _).bind_eq
    intro _
    exact Attempt.Related.pure rfl

/-! ### Views -/

/-- Two sights of one server; what has been recorded counts only when usage is tracked. -/
structure Sight.Like (o o' : Sight) : Prop where
  status : o.status = o'.status
  now : o.now = o'.now
  enabled : o.enabled = o'.enabled
  meter : o.enabled = true → o.meter = o'.meter

theorem usageView_like {o o' : Sight} (h : o.Like o') (name : String) (specs : List UsageSpec) :
    Views.usageView o.meter name specs o.now o.enabled =
      Views.usageView o'.meter name specs o'.now o'.enabled := by
  rw [← h.now, ← h.enabled]
  cases henabled : o.enabled with
  | true => rw [h.meter henabled]
  | false => rfl

/-- Two listings that tell no key. -/
theorem listing_like {o o' : Sight} (h : o.enabled = o'.enabled) {cfg cfg' : Config}
    (hcfg : cfg.Like K cfg') {json json' : String → Provider → Value}
    (hjson : ∀ name p p', p.Like K p' → json name p = json' name p') :
    Views.listing o json cfg = Views.listing o' json' cfg' := by
  obtain ⟨providers, hproviders, rfl⟩ := hcfg
  have hmap : ∀ ps ps', List.Forall₂ (EntryLike K) ps ps' →
      (ps.map fun e => json e.1 e.2) = ps'.map fun e => json' e.1 e.2 := by
    intro ps ps' hps
    induction hps with
    | nil => rfl
    | @cons e e' ps ps' he _ ih =>
        rcases e with ⟨name, p⟩
        rcases e' with ⟨name', p'⟩
        obtain ⟨rfl, hp⟩ : name = name' ∧ p.Like K p' := he
        rw [List.map_cons, List.map_cons, ih]
        exact congrArg (· :: _) (hjson name p p' hp)
  rw [Views.listing, Views.listing, h]
  exact congrArg (fun views => Value.object [("providers", .array (sortBy "name" views)),
    ("cost_tracking", .bool o'.enabled)]) (hmap _ _ hproviders)

/-- **A view shows no key**, and nothing recorded while usage is not tracked. -/
theorem view_like {o o' : Sight} (h : o.Like o') {cfg cfg' : Config} (hcfg : cfg.Like K cfg')
    (q : Query) : q.view o cfg = q.view o' cfg' := by
  cases q with
  | listProviders =>
      apply listing_like h.enabled hcfg
      rintro name p _ ⟨key, hkey, rfl⟩
      simp only [Views.adminProviderJson, h.status, usageView_like h, isSome_of_rel hkey]
      rfl
  | providersStatus =>
      apply listing_like h.enabled hcfg
      rintro name p _ ⟨key, hkey, rfl⟩
      simp only [Views.publicProviderJson, h.status, usageView_like h]
      rfl
  | getUsage => rw [Query.view, Query.view, Views.getUsage, Views.getUsage, h.enabled]
  | listRoutes | getFallbackRoute | listModels | health =>
      obtain ⟨providers, -, rfl⟩ := hcfg
      rfl

theorem keyless_answerQuery (headers : HeaderMap) (q : Query) (now : Int) :
    Keyless K U (· = ·) (answerQuery headers q now) (answerQuery headers q now) := by
  have hconfig : Keyless K U (Config.Like K) (snapshotFor headers q) (snapshotFor headers q) := by
    rw [snapshotFor]
    split
    · exact keyless_authorized headers
    · exact keyless_observe fun _ _ hs => hs.app.config
  apply hconfig.bind
  intro cfg cfg' hcfg
  apply keyless_observe
  intro s s' hs
  have hsight : Sight.Like ⟨s.status, s.meter, now, s.usageOn⟩
      ⟨s'.status, s'.meter, now, s'.usageOn⟩ := by
    refine ⟨hs.status, rfl, hs.usageOn, fun hon => hs.meter.resolve_right fun hu => ?_⟩
    rw [hs.off hu] at hon
    cases hon
  exact congrArg Reply.json (view_like hsight hcfg q)

theorem keyless_setUsage (headers : HeaderMap) {on : Bool} (hon : U → on = false) :
    Keyless K U (· = ·) (setUsage headers on) (setUsage headers on) := by
  apply (keyless_authorized headers).bind
  intro cfg cfg' _
  apply Attempt.Related.access
  intro s s' hs
  exact ⟨{ hs with usageOn := rfl, off := hon }, .same _, rfl⟩

end Requests

/-! ## Admin writes -/

section Writes

variable {K : String → String → Prop} {α β ε : Type}

/-- Admin handlers that differ in keys only. -/
abbrev KeylessWrite (K : String → String → Prop) (Q : α → β → Prop) (t : Handler ε α)
    (t' : Handler ε β) : Prop :=
  Attempt.Related (AppState.Like K) Eq Q t t'

theorem keylessWrite_config :
    KeylessWrite K (Config.Like K) (config : Handler ε Config) config :=
  Attempt.Related.access fun _ _ hs => ⟨hs, rfl, hs.config⟩

theorem keylessWrite_check {Q : α → β → Prop} {x : Except ε α} {x' : Except ε β}
    (h : Attempt.Agree Q x x') : KeylessWrite K Q (Attempt.lift x) (Attempt.lift x') :=
  Attempt.Related.lift h

/-! ### Rows -/

theorem normalizeUsage_like {p p' : Provider} (h : p.Like K p') :
    p.normalizeUsage.Like K p'.normalizeUsage := by
  obtain ⟨key, hkey, rfl⟩ := h
  rw [Provider.normalizeUsage, Provider.normalizeUsage]
  simp only
  split
  · exact ⟨key, hkey, rfl⟩
  · exact ⟨key, hkey, rfl⟩

theorem rowToProvider_like (c : Columns) {r r' : ProviderRow} (h : r.Like K r') :
    Attempt.Agree (Provider.Like K) (rowToProvider c r) (rowToProvider c r') := by
  obtain ⟨key, hkey, rfl⟩ := h
  rw [rowToProvider, rowToProvider]
  simp only
  cases WireName.parse r.wire with
  | none => rfl
  | some wire => exact normalizeUsage_like ⟨key, hkey, rfl⟩

theorem decodeProviders_like (c : Columns) {rows rows' : List ProviderRow}
    (h : List.Forall₂ (ProviderRow.Like K) rows rows') :
    Attempt.Agree (List.Forall₂ (EntryLike K)) (decodeProviders c rows)
      (decodeProviders c rows') := by
  induction h with
  | nil => exact List.Forall₂.nil
  | @cons r r' rows rows' hr _ ih =>
      have hname : r.name = r'.name := by
        obtain ⟨key, -, rfl⟩ := hr
        rfl
      rw [decodeProviders, decodeProviders, List.mapM_cons, List.mapM_cons, ← decodeProviders,
        ← decodeProviders]
      rcases (rowToProvider_like c hr).cases with ⟨p, p', hp, hp', hlike⟩ | ⟨e, he, he'⟩
      · rw [hp, hp']
        rcases ih.cases with ⟨ps, ps', hps, hps', hlikes⟩ | ⟨e, he, he'⟩
        · rw [hps, hps']
          exact List.Forall₂.cons ⟨hname, hlike⟩ hlikes
        · rw [he, he']
          rfl
      · rw [he, he']
        rfl

/-! ### Statements -/

/-- Two statements that do the same to databases that differ in keys. -/
def StatementLike (K : String → String → Prop)
    (st st' : Database → Except SqlError (Database × Nat)) : Prop :=
  ∀ db db' : Database, db.Like K db' →
    Attempt.Agree (fun r r' => r.1.Like K r'.1 ∧ r.2 = r'.2) (st db) (st' db')

theorem keys_like {db db' : Database} (h : db.Like K db') :
    db.providers.keys = db'.providers.keys := by
  have hrows := h.providers
  rw [KeyedTable.keys, KeyedTable.keys]
  generalize db.providers.rows = rows at hrows
  generalize db'.providers.rows = rows' at hrows
  induction hrows with
  | nil => rfl
  | cons hr _ ih =>
      obtain ⟨key, -, rfl⟩ := hr
      rw [List.map_cons, List.map_cons, ih]

theorem statementLike_insertProvider {r r' : ProviderRow} (h : r.Like K r') :
    StatementLike K (Database.insertProvider r) (Database.insertProvider r') := by
  intro db db' hdb
  have hname : r.name = r'.name := by
    obtain ⟨key, -, rfl⟩ := h
    rfl
  rw [Database.insertProvider, Database.insertProvider]
  by_cases hmem : r.name ∈ db.providers.keys
  · have hmem' : r'.name ∈ db'.providers.keys := by rwa [← hname, ← keys_like hdb]
    rw [dif_pos hmem, dif_pos hmem']
    rfl
  · have hmem' : r'.name ∉ db'.providers.keys := by rwa [← hname, ← keys_like hdb]
    rw [dif_neg hmem, dif_neg hmem']
    exact ⟨⟨List.rel_append hdb.providers (.cons h .nil), hdb.routes, hdb.settings⟩, rfl⟩

theorem statementLike_updateProvider {r r' : ProviderRow} (h : r.Like K r') :
    StatementLike K (Database.updateProvider r) (Database.updateProvider r') := by
  intro db db' hdb
  have hname : r.name = r'.name := by
    obtain ⟨key, -, rfl⟩ := h
    rfl
  refine ⟨⟨?_, hdb.routes, hdb.settings⟩, ?_⟩
  · refine List.rel_map ?_ hdb.providers
    intro old old' hold
    have hold' : old.name = old'.name := by
      obtain ⟨key, -, rfl⟩ := hold
      rfl
    simp only [hold', hname]
    split
    · exact h
    · exact hold
  · simp only [hname, keys_like hdb]

theorem statementLike_deleteProvider (name : String) :
    StatementLike K (Database.deleteProvider name) (Database.deleteProvider name) := by
  intro db db' hdb
  refine ⟨⟨?_, ?_, hdb.settings⟩, ?_⟩
  · refine List.rel_filter ?_ hdb.providers
    rintro r _ ⟨key, -, rfl⟩
    simp
  · simp only [hdb.routes]
  · simp only [keys_like hdb]

theorem statementLike_insertRoute (row : RouteRow) :
    StatementLike K (Database.insertRoute row) (Database.insertRoute row) := by
  intro db db' hdb
  simp only [Database.insertRoute]
  by_cases halias : row.routeAlias ∈ db.routes.keys
  · have halias' : row.routeAlias ∈ db'.routes.keys := hdb.routes ▸ halias
    rw [dif_pos halias, dif_pos halias']
    rfl
  · have halias' : row.routeAlias ∉ db'.routes.keys := hdb.routes ▸ halias
    rw [dif_neg halias, dif_neg halias']
    by_cases hprovider : row.provider ∈ db.providers.keys
    · have hprovider' : row.provider ∈ db'.providers.keys := keys_like hdb ▸ hprovider
      rw [dif_pos hprovider, dif_pos hprovider']
      exact ⟨⟨hdb.providers, by simp only [hdb.routes], hdb.settings⟩, rfl⟩
    · have hprovider' : row.provider ∉ db'.providers.keys := keys_like hdb ▸ hprovider
      rw [dif_neg hprovider, dif_neg hprovider']
      rfl

theorem statementLike_updateRoute (row : RouteRow) :
    StatementLike K (Database.updateRoute row) (Database.updateRoute row) := by
  intro db db' hdb
  simp only [Database.updateRoute]
  by_cases halias : row.routeAlias ∈ db.routes.keys
  · have halias' : row.routeAlias ∈ db'.routes.keys := hdb.routes ▸ halias
    rw [if_pos halias, if_pos halias']
    by_cases hprovider : row.provider ∈ db.providers.keys
    · have hprovider' : row.provider ∈ db'.providers.keys := keys_like hdb ▸ hprovider
      rw [dif_pos hprovider, dif_pos hprovider']
      exact ⟨⟨hdb.providers, by simp only [hdb.routes], hdb.settings⟩, rfl⟩
    · have hprovider' : row.provider ∉ db'.providers.keys := keys_like hdb ▸ hprovider
      rw [dif_neg hprovider, dif_neg hprovider']
      rfl
  · have halias' : row.routeAlias ∉ db'.routes.keys := hdb.routes ▸ halias
    rw [if_neg halias, if_neg halias']
    exact ⟨hdb, rfl⟩

theorem statementLike_deleteRoute (routeAlias : String) :
    StatementLike K (Database.deleteRoute routeAlias) (Database.deleteRoute routeAlias) := by
  intro db db' hdb
  exact ⟨⟨hdb.providers, by simp only [hdb.routes], hdb.settings⟩, by simp only [hdb.routes]⟩

theorem statementLike_replaceSetting (key value : String) :
    StatementLike K (Database.replaceSetting key value) (Database.replaceSetting key value) := by
  intro db db' hdb
  exact ⟨⟨hdb.providers, hdb.routes, by simp only [hdb.settings]⟩, rfl⟩

/-! ### Handlers -/

variable {host host' : Host}

theorem keylessWrite_execute (hhost : host.Like K host') (touched : List Table)
    {st st' : Database → Except SqlError (Database × Nat)} (h : StatementLike K st st') :
    KeylessWrite K (· = ·) (execute host touched st) (execute host' touched st') := by
  obtain ⟨env, -, rfl⟩ := hhost
  apply Attempt.Related.access
  intro s s' hs
  rcases (h s.db s'.db hs.db).cases with ⟨⟨db, n⟩, ⟨db', n'⟩, hok, hok', hdb, rfl⟩ | ⟨e, he, he'⟩
  · rw [hok, hok']
    exact ⟨⟨hs.config, hdb⟩, rfl, rfl⟩
  · rw [he, he']
    exact ⟨hs, rfl, rfl⟩

/-- Reading all providers. -/
theorem keylessWrite_selectProviders (c : Columns) :
    KeylessWrite K (List.Forall₂ (EntryLike K))
      (select .providers fun t => decodeProviders c t.rows)
      (select .providers fun t => decodeProviders c t.rows) :=
  Attempt.Related.access fun _ _ hs => ⟨hs, rfl, decodeProviders_like c hs.db.providers⟩

theorem keylessWrite_selectRoutes (c : Columns) :
    KeylessWrite K (· = ·)
      (select .routes fun t => .ok (t.rows.map (rowToRoute c)) : Handler ε (List Route))
      (select .routes fun t => .ok (t.rows.map (rowToRoute c))) := by
  apply Attempt.Related.access
  intro s s' hs
  refine ⟨hs, rfl, ?_⟩
  simp only [Database.table, hs.db.routes]
  exact Attempt.Agree.refl

theorem keylessWrite_selectSettings (c : Columns) :
    KeylessWrite K (· = ·)
      (select .settings fun t => .ok (decodeFallbackRoute c t) :
        Handler ε (Option (Option RouteTarget)))
      (select .settings fun t => .ok (decodeFallbackRoute c t)) := by
  apply Attempt.Related.access
  intro s s' hs
  refine ⟨hs, rfl, ?_⟩
  simp only [Database.table, hs.db.settings]
  exact Attempt.Agree.refl

theorem keylessWrite_loadIntoConfig (c : Columns) {cfg cfg' : Config} (h : cfg.Like K cfg') :
    KeylessWrite K (Config.Like K) (loadIntoConfig c cfg) (loadIntoConfig c cfg') := by
  obtain ⟨old, -, rfl⟩ := h
  apply (keylessWrite_selectProviders c).bind
  intro providers providers' hproviders
  apply (keylessWrite_selectRoutes c).bind_eq
  intro routes
  apply (keylessWrite_selectSettings c).bind_eq
  intro fallbackRoute
  exact Attempt.Related.pure ⟨providers', hproviders, rfl⟩

/-- The environments override the same providers. -/
theorem applyEnvOverrides_like (hhost : host.Like K host') {cfg cfg' : Config}
    (h : cfg.Like K cfg') :
    (cfg.applyEnvOverrides host.toUppercase host.env).Like K
      (cfg'.applyEnvOverrides host'.toUppercase host'.env) := by
  obtain ⟨env, henv, rfl⟩ := hhost
  obtain ⟨providers, hproviders, rfl⟩ := h
  refine ⟨_, List.rel_map ?_ hproviders, rfl⟩
  rintro ⟨name, p⟩ ⟨name', p'⟩ he
  obtain ⟨rfl, key, hkey, rfl⟩ : name = name' ∧ p.Like K p' := he
  refine ⟨rfl, ?_⟩
  have hoverride := henv (Config.envKey host.toUppercase name)
  simp only [Host.under]
  generalize host.env (Config.envKey host.toUppercase name) = x at hoverride
  generalize env (Config.envKey host.toUppercase name) = y at hoverride
  cases hoverride with
  | none => exact ⟨key, hkey, rfl⟩
  | some hval => exact ⟨some _, .some hval, rfl⟩

/-- **A reload** of databases that differ in keys. -/
theorem keylessWrite_reloadFromDb (hhost : host.Like K host') :
    KeylessWrite K (· = ·) (reloadFromDb host) (reloadFromDb host') := by
  have hcolumns : host'.columns = host.columns ∧ pool host' = pool host := by
    obtain ⟨env, -, rfl⟩ := hhost
    exact ⟨rfl, rfl⟩
  rw [reloadFromDb, reloadFromDb, hcolumns.1, hcolumns.2]
  apply (keylessWrite_check Attempt.Agree.refl).bind_eq
  intro _
  apply keylessWrite_config.bind
  intro cfg cfg' hcfg
  apply ((keylessWrite_loadIntoConfig host.columns hcfg).mapError _).bind
  intro cfg cfg' hcfg
  exact Attempt.Related.access fun s s' hs =>
    ⟨⟨applyEnvOverrides_like hhost hcfg, hs.db⟩, rfl, rfl⟩

theorem keylessWrite_enter (hhost : host.Like K host') (headers : HeaderMap) :
    KeylessWrite K (Config.Like K) (enter host headers) (enter host' headers) := by
  have hpool : pool host' = pool host := by
    obtain ⟨env, -, rfl⟩ := hhost
    rfl
  rw [enter, enter, hpool]
  apply keylessWrite_config.bind
  intro cfg cfg' hcfg
  rw [checkAuth_like hcfg headers]
  apply (keylessWrite_check Attempt.Agree.refl).bind_eq
  intro _
  apply (keylessWrite_check Attempt.Agree.refl).bind_eq
  intro _
  exact Attempt.Related.pure hcfg

/-- The rows under one name. -/
theorem get?_like {db db' : Database} (h : db.Like K db') (name : String) :
    Option.Rel (ProviderRow.Like K) (db.providers.get? name) (db'.providers.get? name) := by
  have hrows := h.providers
  rw [KeyedTable.get?, KeyedTable.get?]
  generalize db.providers.rows = rows at hrows
  generalize db'.providers.rows = rows' at hrows
  induction hrows with
  | nil => exact .none
  | @cons r r' rows rows' hr _ ih =>
      have hname : r'.name = r.name := by
        obtain ⟨key, -, rfl⟩ := hr
        rfl
      rw [List.find?_cons, List.find?_cons, hname]
      cases decide (r.name = name) with
      | true => exact .some hr
      | false => exact ih

theorem keylessWrite_getProvider (hhost : host.Like K host') (name : String) :
    KeylessWrite K (Option.Rel (Provider.Like K)) (getProvider host name)
      (getProvider host' name) := by
  obtain ⟨env, -, rfl⟩ := hhost
  apply Attempt.Related.access
  intro s s' hs
  refine ⟨hs, rfl, ?_⟩
  have hrow := get?_like hs.db name
  simp only [Host.under]
  generalize s.db.providers.get? name = x at hrow
  generalize s'.db.providers.get? name = y at hrow
  cases hrow with
  | none => exact .none
  | @some r r' hr =>
      rcases (rowToProvider_like host.columns hr).cases with ⟨p, p', hp, hp', hlike⟩ | ⟨e, he, he'⟩
      · simp only [hp, hp']
        exact .some hlike
      · simp only [he, he']
        rfl

theorem or_like {key key' : Option String} (h : Option.Rel K key key') {old old' : Option String}
    (hold : Option.Rel K old old') : Option.Rel K (key.or old) (key'.or old') := by
  cases h with
  | none => exact hold
  | some h => exact .some h

/-- Two inputs of one provider. -/
theorem intoProvider_like {i i' : ProviderInput} (h : i.Like K i') {old old' : Option String}
    (hold : Option.Rel K old old') :
    Attempt.Agree (Provider.Like K) (i.intoProvider old) (i'.intoProvider old') := by
  obtain ⟨key, hkey, rfl⟩ := h
  rw [ProviderInput.intoProvider, ProviderInput.intoProvider]
  simp only
  cases WireName.parse i.wire with
  | none => rfl
  | some wire =>
      simp only
      split
      · rfl
      · exact normalizeUsage_like ⟨_, or_like hkey hold, rfl⟩

/-- The end of every handler. -/
theorem keylessWrite_reply (hhost : host.Like K host') (v : Value) :
    KeylessWrite K (· = ·)
      (reloadFromDb host >>= fun _ => pure v : Handler BridgeError Value)
      (reloadFromDb host' >>= fun _ => pure v) :=
  (keylessWrite_reloadFromDb hhost).bind fun _ _ _ => Attempt.Related.pure rfl

/-- A write with what follows it in every handler. -/
theorem keylessWrite_written (hhost : host.Like K host') (touched : List Table)
    {st st' : Database → Except SqlError (Database × Nat)} (h : StatementLike K st st')
    (v : Value) :
    KeylessWrite K (· = ·)
      (execute host touched st >>= fun _ => reloadFromDb host >>= fun _ => pure v :
        Handler BridgeError Value)
      (execute host' touched st' >>= fun _ => reloadFromDb host' >>= fun _ => pure v) :=
  (keylessWrite_execute hhost touched h).bind fun _ _ _ => keylessWrite_reply hhost v

theorem providerRow_like (c : Columns) (name : String) {p p' : Provider} (h : p.Like K p') :
    (providerRow c name p).Like K (providerRow c name p') := by
  obtain ⟨key, hkey, rfl⟩ := h
  exact ⟨key, hkey, rfl⟩

theorem columns_like (hhost : host.Like K host') : host'.columns = host.columns := by
  obtain ⟨env, -, rfl⟩ := hhost
  rfl

/-- What the handlers of routes read of a configuration. -/
theorem routeInput_like {cfg cfg' : Config} (h : cfg.Like K cfg') :
    cfg.routes = cfg'.routes ∧
      (∀ (input : RouteInput) routeAlias,
        input.intoRoute routeAlias cfg.providers = input.intoRoute routeAlias cfg'.providers) ∧
      ∀ input : FallbackRouteInput, input.target cfg.providers = input.target cfg'.providers := by
  obtain ⟨providers, hproviders, rfl⟩ := h
  have hknows := knows_like hproviders
  refine ⟨rfl, fun input routeAlias => ?_, fun input => ?_⟩
  · simp only [RouteInput.intoRoute, hknows]
  · simp only [FallbackRouteInput.target, hknows]

/-- A write without a key in its body. -/
theorem keylessWrite_rest (hhost : host.Like K host') (headers : HeaderMap) (w : Write)
    (hcreate : ∀ input, w ≠ .createProvider input)
    (hupdate : ∀ name input, w ≠ .updateProvider name input) :
    KeylessWrite K (· = ·) (w.handler host headers) (w.handler host' headers) := by
  have hfails : ∀ e : BridgeError, KeylessWrite K (· = ·)
      (Attempt.lift (.error e) : Handler BridgeError Value) (Attempt.lift (.error e)) :=
    fun e => keylessWrite_check Attempt.Agree.refl
  cases w with
  | createProvider input => exact absurd rfl (hcreate input)
  | updateProvider name input => exact absurd rfl (hupdate name input)
  | deleteProvider name =>
      rw [Write.handler, Write.handler, Admin.deleteProvider, Admin.deleteProvider]
      apply (keylessWrite_enter hhost headers).bind
      intro cfg cfg' _
      apply (keylessWrite_execute hhost _ (statementLike_deleteProvider name)).bind_eq
      intro n
      split
      · exact hfails _
      · exact keylessWrite_reply hhost _
  | createRoute input =>
      rw [Write.handler, Write.handler, Admin.createRoute, Admin.createRoute]
      apply (keylessWrite_enter hhost headers).bind
      intro cfg cfg' hcfg
      obtain ⟨hroutes, hroute, -⟩ := routeInput_like hcfg
      apply (keylessWrite_check Attempt.Agree.refl).bind_eq
      intro routeAlias
      rw [hroutes, hroute]
      split
      · exact hfails _
      · apply (keylessWrite_check Attempt.Agree.refl).bind_eq
        intro route
        rw [insertRoute, insertRoute, columns_like hhost]
        exact keylessWrite_written hhost _ (statementLike_insertRoute _) _
  | updateRoute routeAlias input =>
      rw [Write.handler, Write.handler, Admin.updateRoute, Admin.updateRoute]
      apply (keylessWrite_enter hhost headers).bind
      intro cfg cfg' hcfg
      obtain ⟨hroutes, hroute, -⟩ := routeInput_like hcfg
      rw [hroutes, hroute]
      split
      · apply (keylessWrite_check Attempt.Agree.refl).bind_eq
        intro route
        rw [Store.updateRoute, Store.updateRoute, columns_like hhost]
        exact keylessWrite_written hhost _ (statementLike_updateRoute _) _
      · exact hfails _
  | deleteRoute routeAlias =>
      rw [Write.handler, Write.handler, Admin.deleteRoute, Admin.deleteRoute]
      apply (keylessWrite_enter hhost headers).bind
      intro cfg cfg' _
      apply (keylessWrite_execute hhost _ (statementLike_deleteRoute routeAlias)).bind_eq
      intro n
      split
      · exact hfails _
      · exact keylessWrite_reply hhost _
  | setFallbackRoute input =>
      rw [Write.handler, Write.handler, Admin.setFallbackRoute, Admin.setFallbackRoute]
      apply (keylessWrite_enter hhost headers).bind
      intro cfg cfg' hcfg
      obtain ⟨-, -, htarget⟩ := routeInput_like hcfg
      rw [htarget]
      apply (keylessWrite_check Attempt.Agree.refl).bind_eq
      intro target
      rw [saveFallbackRoute, saveFallbackRoute, columns_like hhost]
      exact keylessWrite_written hhost _ (statementLike_replaceSetting _ _) _

/-- **The admin writes.** -/
theorem keylessWrite_handler (hhost : host.Like K host') (headers : HeaderMap) {w w' : Write}
    (h : w.Like K w') :
    KeylessWrite K (· = ·) (w.handler host headers) (w'.handler host' headers) := by
  cases h with
  | @createProvider input input' hinput =>
      have hname : input'.name = input.name := by
        obtain ⟨key, -, rfl⟩ := hinput
        rfl
      rw [Write.handler, Write.handler, Admin.createProvider, Admin.createProvider, hname]
      apply (keylessWrite_enter hhost headers).bind
      intro cfg cfg' hcfg
      apply (keylessWrite_check Attempt.Agree.refl).bind_eq
      intro name
      apply (keylessWrite_getProvider hhost name).bind
      intro existing existing' hexisting
      rw [isSome_of_rel hexisting]
      split
      · exact keylessWrite_check Attempt.Agree.refl
      · apply (keylessWrite_check (intoProvider_like hinput .none)).bind
        intro p p' hp
        rw [insertProvider, insertProvider, columns_like hhost]
        exact keylessWrite_written hhost _
          (statementLike_insertProvider (providerRow_like host.columns name hp)) _
  | @updateProvider name input input' hinput =>
      rw [Write.handler, Write.handler, Admin.updateProvider, Admin.updateProvider]
      apply (keylessWrite_enter hhost headers).bind
      intro cfg cfg' hcfg
      apply (keylessWrite_getProvider hhost name).bind
      intro existing existing' hexisting
      cases hexisting with
      | none => exact keylessWrite_check Attempt.Agree.refl
      | @some existing existing' hp =>
          have hold : Option.Rel K existing.apiKey existing'.apiKey := by
            obtain ⟨key, hkey, rfl⟩ := hp
            exact hkey
          apply (keylessWrite_check (intoProvider_like hinput hold)).bind
          intro p p' hp
          rw [Store.updateProvider, Store.updateProvider, columns_like hhost]
          exact keylessWrite_written hhost _
            (statementLike_updateProvider (providerRow_like host.columns name hp)) _
  | same _ hcreate hupdate => exact keylessWrite_rest hhost headers w hcreate hupdate

end Writes

/-! ## The whole server -/

section Servers

variable {K : String → String → Prop} {U : Prop} {host host' : Host}

/-- **Every party**, of two servers that differ in keys. -/
theorem keyless_party (hhost : host.Like K host') (text : JsonText) {p p' : Party}
    (h : p.Like K U p') :
    Keyless K U (· = ·) (p.task host text) (p'.task host' text) := by
  cases h with
  | responses uuid hcall => exact keyless_translated text hcall _
  | messages hcall => exact keyless_translated text hcall _
  | chat hcall => exact keyless_chatHandler text hcall
  | query headers q now => exact keyless_answerQuery headers q now
  | setUsage headers on hon => exact keyless_setUsage headers hon
  | @write headers w w' hw =>
      have hreply : KeylessWrite K (· = ·) (adminReply host headers w)
          (adminReply host' headers w') :=
        (keylessWrite_handler hhost headers hw).bind_eq fun v => Attempt.Related.pure rfl
      refine Task.Related.focus hreply (fun s s' hs => hs.app)
        (fun x x' s s' hx hs => { hs with app := hx }) ?_
      rintro x x' l _ hx rfl
      cases l with
      | swapped => exact .swapped hx.config
      | quiet | committed _ | read _ => exact .same _
  | probed name status =>
      apply Attempt.Related.access
      intro s s' hs
      exact ⟨{ hs with status := by rw [hs.status] }, .same _, rfl⟩
  | @retained providers providers' hproviders =>
      have hknown : ∀ name, (providers.lookup name).isSome = (providers'.lookup name).isSome :=
        fun name => isSome_of_rel (lookup_like hproviders name)
      apply Attempt.Related.access
      intro s s' hs
      refine ⟨{ hs with status := ?_ }, .same _, rfl⟩
      funext name
      simp only [hknown, hs.status]

variable {ι : Type} [DecidableEq ι]

/-- **What nobody can find out.** Two servers differ in the keys of their providers, and in what
has been recorded if usage is not tracked. After any schedule everybody has got the same answer
from both, and what everybody has done differs in the bearer of the requests to upstreams (and
the keys of the candidates and configurations they are from) only. -/
theorem secrets_stay (text : JsonText) {s s' : LiveState} {parties parties' : ι → Party}
    (hhost : host.Like K host') (hstate : s.Like K U s')
    (hparties : ∀ i, (parties i).Like K U (parties' i)) (schedule : List ι) :
    (∀ i r, ((serving host text parties s).after schedule).task i = .done r ↔
      ((serving host' text parties' s').after schedule).task i = .done r) ∧
    List.Forall₂ (fun e e' => e.1 = e'.1 ∧ e.2.Like K e'.2)
      ((serving host text parties s).trace schedule)
      ((serving host' text parties' s').trace schedule) ∧
    LiveState.Like K U ((serving host text parties s).after schedule).shared
      ((serving host' text parties' s').after schedule).shared := by
  have hpools : PoolsRelated (LiveState.Like K U) (Effect.Like K) (Attempt.Agree (· = ·))
      (serving host text parties s) (serving host' text parties' s') :=
    ⟨hstate, fun i => keyless_party hhost text (hparties i)⟩
  obtain ⟨hafter, htrace⟩ := hpools.run schedule
  exact ⟨fun i r => Attempt.done_iff (hafter.tasks i) r, htrace, hafter.shared⟩

end Servers

/-! ## Two keys for each provider -/

/-- The other keys. -/
def otherKey (key key' : String) : Prop := key' = "other " ++ key

/-- The small server with other keys. -/
def otherConfig : Config :=
  { fastConfig with
    providers := [("go", keyedProvider "http://go" "other k1"),
      ("zen", keyedProvider "http://zen" "other k2")] }

theorem config_like_fast : fastConfig.Like otherKey otherConfig := by
  refine ⟨otherConfig.providers, .cons ⟨rfl, some "other k1", .some ?_, rfl⟩
    (.cons ⟨rfl, some "other k2", .some ?_, rfl⟩ .nil), rfl⟩
  · rfl
  · rfl

/-- A request that fails over gets the same answer from both; usage is not tracked. -/
theorem secrets_stay_fast :
    ((serving plainHost emptyObjectText (fun _ : Fin 1 => .chat fastCall)
      (startedWith otherConfig)).after [0, 0, 0, 0, 0, 0, 0]).task 0 =
        .done (.ok (.json (.object []))) := by
  have hcall : fastCall.Like otherKey fastCall :=
    ⟨rfl, rfl, rfl, rfl, rfl, fun _ _ _ _ => rfl, fun _ _ _ _ => rfl⟩
  have hhost : plainHost.Like otherKey plainHost := ⟨plainHost.env, fun _ => .none, rfl⟩
  have hstate : LiveState.Like otherKey True (startedWith fastConfig) (startedWith otherConfig) :=
    ⟨⟨config_like_fast, .nil, rfl, rfl⟩, rfl, rfl, .inr trivial, fun _ => rfl⟩
  exact ((secrets_stay emptyObjectText hhost hstate (fun _ => .chat hcall)
    [0, 0, 0, 0, 0, 0, 0]).1 0 _).1 rfl

end AiApiBridge
