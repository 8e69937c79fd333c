import AiApiBridge.Conduct
import Mathlib

/-!
# Whose keys go where

In any interleaving of requests, admin writes, probes and reloads: an upstream is sent the url,
the key and the headers of one provider entry of a configuration that has been live
(`Licensed`), and whatever a request does beyond reading the switch and the configuration it
does with the bridge's token (`Authorized`), which no reload changes.
-/

set_option autoImplicit false

namespace AiApiBridge

open Router Failover Refresh Admin Store

/-- Two configurations of one process: they may differ in providers, routes and the fallback
route. -/
structure Config.SameProcess (cfg cfg' : Config) : Prop where
  listen : cfg.listen = cfg'.listen
  database : cfg.database = cfg'.database
  defaultProvider : cfg.defaultProvider = cfg'.defaultProvider
  authToken : cfg.authToken = cfg'.authToken
  costTracking : cfg.costTracking = cfg'.costTracking

theorem Config.SameProcess.refl (cfg : Config) : cfg.SameProcess cfg := ⟨rfl, rfl, rfl, rfl, rfl⟩

theorem Config.SameProcess.trans {a b c : Config} (h : a.SameProcess b) (h' : b.SameProcess c) :
    a.SameProcess c :=
  ⟨h.listen.trans h'.listen, h.database.trans h'.database,
    h.defaultProvider.trans h'.defaultProvider, h.authToken.trans h'.authToken,
    h.costTracking.trans h'.costTracking⟩

theorem Config.SameProcess.checkAuth {cfg cfg' : Config} (h : cfg.SameProcess cfg')
    (headers : HeaderMap) :
    AiApiBridge.checkAuth cfg headers = AiApiBridge.checkAuth cfg' headers := by
  rw [AiApiBridge.checkAuth, AiApiBridge.checkAuth, h.authToken]

/-! ## The contract -/

/-- The configuration that an access makes the live one. -/
def Effect.swap? : Effect → Option Config
  | .swapped cfg => some cfg
  | _ => none

/-- What is known of a candidate: it is the entry of its provider in a configuration. -/
def Config.Offers (cfg : Config) (c : Resolved) : Prop :=
  cfg.providers.lookup c.providerName = some c.provider

/-- A kind that the provider of a configuration is charged in. -/
def Config.Charges (cfg : Config) (provider : String) (kind : UsageKind) : Prop :=
  ∃ p, cfg.providers.lookup provider = some p ∧ kind ∈ p.usage.map UsageSpec.kind

/-- An effect that configurations which have been live give cause to. -/
def Licensed (w : Set Config) : Effect → Prop
  | .resolved chain => ∃ cfg ∈ w, ∀ c ∈ chain, cfg.Offers c
  | .posted c req _ => (∃ cfg ∈ w, cfg.Offers c) ∧
      ∃ body, req = Upstream.request c.provider "/chat/completions" body
  | .degraded name => ∃ cfg ∈ w, knows cfg.providers name = true
  | .recorded name kind _ => ∃ cfg ∈ w, cfg.Charges name kind
  | .swapped cfg => ∃ old ∈ w, old.SameProcess cfg
  | _ => True

/-- What requests may do with their headers, under a token. Parties without headers are tasks
of the process itself. -/
def Authorized (cfg : Config) (headers : Option HeaderMap) : Effect → Prop
  | .quiet | .stored .quiet => True
  | .probed _ | .retained => headers = none
  | _ => ∃ h ∈ headers, checkAuth cfg h = .ok ()

/-- The worlds are the configurations that have been live; all are of the process that has
started with `file`. -/
def authority (file : Config) : Contract LiveState Effect (Set Config) (Option HeaderMap) where
  inv w s := s.app.config ∈ w ∧ ∀ cfg ∈ w, file.SameProcess cfg
  next w l := l.swap?.elim w fun cfg => insert cfg w
  allowed w headers l := Licensed w l ∧ Authorized file headers l
  step headers _ := some headers
  le_next w l := by
    cases l.swap? with
    | none => exact le_refl w
    | some cfg => exact Set.subset_insert cfg w

theorem next_of_swap?_eq_none {file : Config} {w : Set Config} {l : Effect} (h : l.swap? = none) :
    (authority file).next w l = w := by
  simp only [authority, h, Option.elim]

section Handlers

variable {file : Config} {headers : Option HeaderMap} {w : Set Config} {ε ε' α β : Type}

/-- Attempts under the contract. -/
abbrev Obeys (file : Config) (Post : Set Config → α → Prop) (headers : Option HeaderMap)
    (w : Set Config) (t : Attempt LiveState Effect ε α) : Prop :=
  Attempt.Meets (authority file) (fun q w a => q = headers ∧ Post w a) (fun _ _ _ => True) headers
    w t

variable {Post : Set Config → α → Prop} {Post' : Set Config → β → Prop}

theorem Obeys.bind {t : Attempt LiveState Effect ε α} {k : α → Attempt LiveState Effect ε β}
    (h : Obeys file Post headers w t)
    (hk : ∀ w' a, w ≤ w' → Post w' a → Obeys file Post' headers w' (k a)) :
    Obeys file Post' headers w (t >>= k) := by
  apply Attempt.Meets.bind h
  rintro q w' a hle ⟨rfl, ha⟩
  exact hk w' a hle ha

theorem Obeys.mapError {t : Attempt LiveState Effect ε α} (h : Obeys file Post headers w t)
    (f : ε → ε') : Obeys file Post headers w (t.mapError f) :=
  Attempt.Meets.mapError h fun _ _ _ _ => trivial

theorem Obeys.weaken {t : Attempt LiveState Effect ε α} (h : Obeys file Post headers w t) :
    Obeys file (fun _ _ => True) headers w t := by
  apply Task.Meets.mono h
  intro q w r hr
  cases r with
  | ok a => exact ⟨hr.1, trivial⟩
  | error e => trivial

/-- One access. -/
theorem obeys_access {act : LiveState → LiveState × Effect}
    {result : LiveState → Except ε α}
    (h : ∀ w' s, w ≤ w' → (authority file).inv w' s →
      (authority file).inv ((authority file).next w' (act s).2) (act s).1 ∧
        Licensed w' (act s).2 ∧ Authorized file headers (act s).2 ∧
          ∀ a, result s = .ok a → Post ((authority file).next w' (act s).2) a) :
    Obeys file Post headers w (.access act result) := by
  apply Attempt.Meets.access
  intro w' s hle hinv
  obtain ⟨hinv', hlicensed, hauthorized, hpost⟩ := h w' s hle hinv
  refine ⟨hinv', ⟨hlicensed, hauthorized⟩, headers, rfl, ?_⟩
  cases hresult : result s with
  | ok a => exact ⟨rfl, hpost a hresult⟩
  | error e => trivial

theorem obeys_lift {x : Except ε α} (h : ∀ a, x = .ok a → Post w a) :
    Obeys file Post headers w (Attempt.lift x) :=
  Attempt.Meets.lift (fun a ha => ⟨rfl, h a ha⟩) fun _ _ => trivial

theorem obeys_pure {a : α} (h : Post w a) :
    Obeys file Post headers w (pure a : Attempt LiveState Effect ε α) :=
  Attempt.Meets.pure ⟨rfl, h⟩

/-- Reading is open to everybody. -/
theorem obeys_observe {read : LiveState → Except BridgeError α}
    (h : ∀ w' s a, w ≤ w' → (authority file).inv w' s → read s = .ok a → Post w' a) :
    Obeys file Post headers w (observe read) :=
  obeys_access fun w' s hle hinv => ⟨hinv, trivial, trivial, fun a ha => h w' s a hle hinv ha⟩

/-- An effect that leaves the configuration alone. -/
theorem obeys_effect {act : LiveState → LiveState × Effect}
    {result : LiveState → Except ε α}
    (hconfig : ∀ s, (act s).1.app.config = s.app.config)
    (hswap : ∀ s, (act s).2.swap? = none)
    (h : ∀ w' s, w ≤ w' → Licensed w' (act s).2 ∧ Authorized file headers (act s).2 ∧
      ∀ a, result s = .ok a → Post w' a) :
    Obeys file Post headers w (.access act result) := by
  apply obeys_access
  intro w' s hle hinv
  rw [next_of_swap?_eq_none (hswap s)]
  refine ⟨⟨?_, hinv.2⟩, h w' s hle⟩
  rw [hconfig]
  exact hinv.1

/-! ### Requests -/

/-- A request has been let in with a configuration that has been live. -/
structure LetIn (file : Config) (headers : Option HeaderMap) (w : Set Config) (cfg : Config) :
    Prop where
  lived : cfg ∈ w
  token : ∃ h ∈ headers, checkAuth file h = .ok ()

theorem LetIn.later {cfg : Config} {w' : Set Config} (h : LetIn file headers w cfg) (hle : w ≤ w') :
    LetIn file headers w' cfg :=
  ⟨hle h.lived, h.token⟩

theorem obeys_authorized (h : HeaderMap) :
    Obeys file (LetIn file (some h)) (some h) w (authorized h) := by
  apply obeys_observe
  intro w' s cfg hle hinv hread
  cases hauth : checkAuth s.app.config h with
  | error e =>
      rw [hauth] at hread
      cases hread
  | ok u =>
      rw [hauth] at hread
      cases hread
      refine ⟨hinv.1, h, rfl, ?_⟩
      rw [(hinv.2 _ hinv.1).checkAuth, hauth]

theorem obeys_usageEnabled : Obeys file (fun _ _ => True) headers w usageEnabled :=
  obeys_observe fun _ _ _ _ _ _ => trivial

variable {cfg : Config}

theorem offers_of_resolve {status : StatusMap} {exhausted : List String} {model : String}
    {chain : List Resolved} (h : resolveCandidates cfg status exhausted model = .ok chain) :
    ∀ c ∈ chain, cfg.Offers c := by
  obtain ⟨-, raw, -, rfl⟩ := resolveCandidates_eq_ok h
  exact fun c hc => lookup_of_mem_knownCandidates (mem_rank.1 hc)

theorem obeys_resolve (h : LetIn file headers w cfg) (now : Int) (model : String) :
    Obeys file (fun _ chain => ∀ c ∈ chain, cfg.Offers c) headers w (resolve cfg now model) := by
  apply obeys_usageEnabled.bind
  intro w₁ on hle₁ _
  apply obeys_effect (fun _ => rfl) (fun _ => rfl)
  intro w₂ s hle₂
  have h₂ := h.later (le_trans hle₁ hle₂)
  refine ⟨⟨cfg, h₂.lived, ?_⟩, h₂.token, fun chain => offers_of_resolve⟩
  cases hchain : resolveCandidates cfg s.status
      (if on then s.meter.exhaustedSet cfg.providers now else []) model with
  | error e => exact fun c hc => absurd hc List.not_mem_nil
  | ok chain => exact offers_of_resolve hchain

theorem obeys_send (h : LetIn file headers w cfg) {c : Resolved} (hc : cfg.Offers c)
    (post : Nat → UpstreamRequest → Except BridgeError α) (req : CanonicalRequest) (i : Nat) :
    Obeys file (fun _ _ => True) headers w (send post req i c) := by
  apply obeys_effect (fun _ => rfl) (fun _ => rfl)
  intro w' s hle
  exact ⟨⟨⟨cfg, (h.later hle).lived, hc⟩, _, rfl⟩, (h.later hle).token, fun _ _ => trivial⟩

theorem knows_of_offers {c : Resolved} (h : cfg.Offers c) :
    knows cfg.providers c.providerName = true := by
  rw [Config.Offers] at h
  rw [knows, h]
  rfl

theorem obeys_degrade (h : LetIn file headers w cfg) {c : Resolved} (hc : cfg.Offers c)
    (e : BridgeError) : Obeys file (fun _ _ => True) headers w (degrade c e) := by
  apply obeys_effect (fun _ => rfl) (fun _ => rfl)
  intro w' s hle
  exact ⟨⟨cfg, (h.later hle).lived, knows_of_offers hc⟩, (h.later hle).token, fun _ _ => trivial⟩

/-- **The walk over the candidates.** -/
theorem obeys_tryCandidates (h : LetIn file headers w cfg)
    (post : Nat → UpstreamRequest → Except BridgeError α) (req : CanonicalRequest) (i : Nat)
    (lastErr : Option BridgeError) (cs : List Resolved) (hcs : ∀ c ∈ cs, cfg.Offers c) :
    Obeys file (fun _ _ => True) headers w (tryCandidates post req i lastErr cs) := by
  induction cs generalizing i lastErr w with
  | nil => exact obeys_lift fun _ _ => trivial
  | cons c cs ih =>
      have hc := hcs c List.mem_cons_self
      rw [tryCandidates]
      apply (obeys_send h hc post req i).bind
      intro w₁ answer hle₁ _
      cases verdict answer (cs ≠ []) with
      | accepted a => exact obeys_pure trivial
      | failed e => exact obeys_lift fun _ _ => trivial
      | advance e =>
          apply (obeys_degrade (h.later hle₁) hc e).bind
          intro w₂ _ hle₂ _
          exact ih (h.later (le_trans hle₁ hle₂)) (i + 1) (some e) fun c hc =>
            hcs c (List.mem_cons_of_mem _ hc)

/-- The kinds of a request's amounts are those of its provider. -/
theorem charges_of_mem_requestAmounts {provider model : String} {caught : Caught}
    {a : UsageKind × FloatValue}
    (h : a ∈ requestAmounts (usageKinds cfg provider model) caught) :
    cfg.Charges provider a.1 := by
  rw [requestAmounts, usageKinds] at h
  cases hp : cfg.providers.lookup provider with
  | none =>
      rw [hp] at h
      cases h
  | some p =>
      rw [hp] at h
      obtain ⟨⟨kind, price⟩, hmem, hamount⟩ := List.mem_filterMap.1 h
      obtain ⟨spec, hspec, heq⟩ := List.mem_map.1 hmem
      obtain ⟨rfl, rfl⟩ := Prod.mk.inj heq
      obtain ⟨amount, -, rfl⟩ := Option.map_eq_some_iff.1 hamount
      exact ⟨p, hp, List.mem_map_of_mem hspec⟩

theorem obeys_recordEach (h : LetIn file headers w cfg) {provider : String} (now : Int)
    (amounts : List (UsageKind × FloatValue)) (hkinds : ∀ a ∈ amounts, cfg.Charges provider a.1) :
    Obeys file (fun _ _ => True) headers w (recordEach provider now amounts) := by
  induction amounts generalizing w with
  | nil => exact obeys_pure trivial
  | cons a amounts ih =>
      rcases a with ⟨kind, amount⟩
      have hone : Obeys file (fun _ _ => True) headers w (recordOne provider now kind amount) := by
        apply obeys_effect (fun _ => rfl) (fun _ => rfl)
        intro w' s hle
        exact ⟨⟨cfg, (h.later hle).lived, hkinds _ List.mem_cons_self⟩, (h.later hle).token,
          fun _ _ => trivial⟩
      apply hone.bind
      intro w' _ hle _
      exact ih (h.later hle) fun a ha => hkinds a (List.mem_cons_of_mem _ ha)

theorem obeys_recordResponse (h : LetIn file headers w cfg) (provider model : String)
    (resp : Value) (now : Int) :
    Obeys file (fun _ _ => True) headers w (recordResponse cfg provider model resp now) := by
  apply obeys_usageEnabled.bind
  intro w' on hle _
  split
  · exact obeys_recordEach (h.later hle) now _ fun a => charges_of_mem_requestAmounts
  · exact obeys_pure trivial

theorem obeys_recordCaught (h : LetIn file headers w cfg) {on : Bool} {provider model : String}
    (now : Int) (caught : Option Caught) :
    Obeys file (fun _ _ => True) headers w
      (recordCaught now (costRecorder on cfg provider model) caught) := by
  cases hrecorder : costRecorder on cfg provider model with
  | none => exact obeys_pure trivial
  | some recorder =>
      cases caught with
      | none => exact obeys_pure trivial
      | some caught =>
          obtain ⟨hprovider, hkinds⟩ := costRecorder_eq_some hrecorder
          rw [recordCaught, hprovider, hkinds]
          exact obeys_recordEach h now _ fun a => charges_of_mem_requestAmounts

variable (text : JsonText)

theorem obeys_respondStream {σ : Type} (h : LetIn file headers w cfg) (T : Translation σ)
    (call : ClientCall) (provider model : String) (chunks : List UpstreamChunk) :
    Obeys file (fun _ _ => True) headers w
      (respondStream text T cfg call provider model chunks) := by
  apply obeys_usageEnabled.bind
  intro w₁ on hle₁ _
  apply (obeys_recordCaught (h.later hle₁) call.recordAt _).bind
  intro w₂ _ _ _
  exact obeys_pure trivial

/-- **The translated endpoints.** -/
theorem obeys_translated {σ : Type} (T : Translation σ) (call : ClientCall) :
    Obeys file (fun _ _ => True) (some call.headers) w (translated text T call) := by
  apply (obeys_authorized call.headers).bind
  intro w₁ cfg _ hcfg
  apply (obeys_lift fun _ _ => trivial : Obeys file (fun _ _ => True) _ _ _).bind
  intro w₂ req hle₂ _
  apply (obeys_resolve (hcfg.later hle₂) call.decideAt req.model).bind
  intro w₃ chain hle₃ hchain
  have h₃ := hcfg.later (le_trans hle₂ hle₃)
  split
  · apply (obeys_tryCandidates h₃ _ req 0 none chain hchain).bind
    intro w₄ r hle₄ _
    exact obeys_respondStream text (h₃.later hle₄) T call _ _ _
  · apply (obeys_tryCandidates h₃ _ req 0 none chain hchain).bind
    intro w₄ r hle₄ _
    apply (obeys_recordResponse (h₃.later hle₄) _ _ _ call.recordAt).bind
    intro w₅ _ _ _
    exact obeys_pure trivial

/-- **The chat endpoint.** -/
theorem obeys_chatHandler (call : ClientCall) :
    Obeys file (fun _ _ => True) (some call.headers) w (chatHandler text call) := by
  apply (obeys_authorized call.headers).bind
  intro w₁ cfg _ hcfg
  apply (obeys_lift fun _ _ => trivial : Obeys file (fun _ _ => True) _ _ _).bind
  intro w₂ req hle₂ _
  apply (obeys_resolve (hcfg.later hle₂) call.decideAt req.model).bind
  intro w₃ chain hle₃ hchain
  have h₃ := hcfg.later (le_trans hle₂ hle₃)
  split
  · apply (obeys_tryCandidates h₃ _ req 0 none chain hchain).bind
    intro w₄ r _ _
    exact obeys_pure trivial
  · apply (obeys_tryCandidates h₃ _ req 0 none chain hchain).bind
    intro w₄ r hle₄ _
    apply (obeys_recordResponse (h₃.later hle₄) _ _ _ call.recordAt).bind
    intro w₅ _ _ _
    exact obeys_pure trivial

theorem obeys_answerQuery (h : HeaderMap) (query : Query) (now : Int) :
    Obeys file (fun _ _ => True) (some h) w (answerQuery h query now) := by
  have hconfig : Obeys file (fun _ _ => True) (some h) w (snapshotFor h query) := by
    rw [snapshotFor]
    split <;> exact obeys_observe fun _ _ _ _ _ _ => trivial
  apply hconfig.bind
  intro w' cfg _ _
  exact obeys_observe fun _ _ _ _ _ _ => trivial

theorem obeys_setUsage (h : HeaderMap) (on : Bool) :
    Obeys file (fun _ _ => True) (some h) w (setUsage h on) := by
  apply (obeys_authorized h).bind
  intro w₁ cfg _ hcfg
  apply obeys_effect (fun _ => rfl) (fun _ => rfl)
  exact fun w₂ s _ => ⟨trivial, hcfg.token, fun _ _ => trivial⟩

/-! ### Admin writes -/

/-- An access of the admin API that swaps nothing. -/
theorem obeys_onApp {act : AppState → AppState × Refresh.Event Table}
    {result : AppState → Except ε α} (hconfig : ∀ s, (act s).1.config = s.config)
    (hswap : ∀ s, (act s).2 ≠ .swapped)
    (hauth : ∀ s, (act s).2 = .quiet ∨ ∃ h ∈ headers, checkAuth file h = .ok ())
    (h : ∀ w' s a, w ≤ w' → (authority file).inv w' s → result s.app = .ok a → Post w' a) :
    Obeys file Post headers w (onApp (Attempt.access act result)) := by
  have hstored : ∀ s : AppState, Effect.ofApp (act s).1 (act s).2 = .stored (act s).2 := by
    intro s
    cases hl : (act s).2 with
    | swapped => exact absurd hl (hswap s)
    | _ => rfl
  change Obeys file Post headers w (Attempt.access (fun s : LiveState =>
    ({ s with app := (act s.app).1 }, Effect.ofApp (act s.app).1 (act s.app).2)) fun s =>
      result s.app)
  apply obeys_access
  intro w' s hle hinv
  simp only [hstored]
  refine ⟨⟨?_, hinv.2⟩, trivial, ?_, fun a ha => h w' s a hle hinv ha⟩
  · simp only [hconfig]
    exact hinv.1
  · rcases hauth s.app with hquiet | htoken
    · rw [hquiet]
      trivial
    · cases (act s.app).2 with
      | quiet => trivial
      | _ => exact htoken

theorem obeys_config :
    Obeys file (fun w cfg => cfg ∈ w ∧ file.SameProcess cfg) headers w
      (onApp (config : Handler ε Config)) := by
  apply obeys_onApp (fun _ => rfl) (fun _ => by simp) (fun _ => .inl rfl)
  rintro w' s cfg _ hinv ⟨⟩
  exact ⟨hinv.1, hinv.2 _ hinv.1⟩

theorem obeys_select (htoken : ∃ h ∈ headers, checkAuth file h = .ok ()) (t : Table)
    (decode : t.Rows → Except ε α) :
    Obeys file (fun _ _ => True) headers w (onApp (select t decode)) :=
  obeys_onApp (fun _ => rfl) (fun _ => by simp)
    (fun _ => .inr htoken) fun _ _ _ _ _ _ => trivial

theorem obeys_getProvider (host : Host) (name : String) :
    Obeys file (fun _ _ => True) headers w (onApp (getProvider host name)) :=
  obeys_onApp (fun _ => rfl) (fun _ => by simp)
    (fun _ => .inl rfl) fun _ _ _ _ _ _ => trivial

theorem obeys_execute (htoken : ∃ h ∈ headers, checkAuth file h = .ok ()) (host : Host)
    (touched : List Table) (statement : Database → Except SqlError (Database × Nat)) :
    Obeys file (fun _ _ => True) headers w (onApp (execute host touched statement)) := by
  apply obeys_onApp
  · intro s
    cases statement s.db <;> rfl
  · intro s h
    cases hrun : statement s.db with
    | error e =>
        rw [hrun] at h
        cases h
    | ok r =>
        rw [hrun] at h
        simp only at h
        split at h <;> cases h
  · exact fun _ => .inr htoken
  · exact fun _ _ _ _ _ _ => trivial

/-- A check, as every handler has them. -/
theorem obeys_check (x : Except ε α) :
    Obeys file (fun _ a => x = .ok a) headers w (onApp (Attempt.lift x)) := by
  cases x <;> exact obeys_lift fun _ h => h

theorem sameProcess_applyEnvOverrides (toUppercase : String → String)
    (env : String → Option String) (cfg : Config) :
    cfg.SameProcess (cfg.applyEnvOverrides toUppercase env) := ⟨rfl, rfl, rfl, rfl, rfl⟩

/-- A load keeps what belongs to the process. -/
theorem obeys_loadIntoConfig (htoken : ∃ h ∈ headers, checkAuth file h = .ok ()) (c : Columns)
    (cfg : Config) :
    Obeys file (fun _ cfg' => cfg.SameProcess cfg') headers w (onApp (loadIntoConfig c cfg)) := by
  rw [loadIntoConfig, onApp_bind]
  apply (obeys_select htoken _ _).bind
  intro w₁ providers _ _
  rw [onApp_bind]
  apply (obeys_select htoken _ _).bind
  intro w₂ routes _ _
  rw [onApp_bind]
  apply (obeys_select htoken _ _).bind
  intro w₃ fallbackRoute _ _
  exact obeys_pure ⟨rfl, rfl, rfl, rfl, rfl⟩

/-- **A reload** makes a configuration of the same process live. -/
theorem obeys_reloadFromDb (htoken : ∃ h ∈ headers, checkAuth file h = .ok ()) (host : Host) :
    Obeys file (fun _ _ => True) headers w (onApp (reloadFromDb host)) := by
  rw [reloadFromDb, onApp_bind]
  apply (obeys_check _).bind
  intro w₁ _ _ _
  rw [onApp_bind]
  apply obeys_config.bind
  rintro w₂ cfg _ ⟨hcfg, -⟩
  rw [onApp_bind, onApp_mapError]
  apply ((obeys_loadIntoConfig htoken host.columns cfg).mapError _).bind
  intro w₃ cfg' hle hsame
  change Obeys file (fun _ _ => True) headers w₃ (Attempt.access (fun s : LiveState =>
    ({ s with app := { s.app with config := cfg'.applyEnvOverrides host.toUppercase host.env } },
      Effect.swapped (cfg'.applyEnvOverrides host.toUppercase host.env))) fun _ => .ok ())
  apply obeys_access
  intro w₄ s hle' hinv
  have hlived : cfg ∈ w₄ := hle' (hle hcfg)
  have hswapped := hsame.trans (sameProcess_applyEnvOverrides host.toUppercase host.env cfg')
  refine ⟨⟨Set.mem_insert _ _, ?_⟩, ⟨cfg, hlived, hswapped⟩, htoken, fun _ _ => trivial⟩
  intro cfg'' hmem
  rcases hmem with rfl | hmem
  · exact (hinv.2 cfg hlived).trans hswapped
  · exact hinv.2 cfg'' hmem

theorem obeys_enter (host : Host) (h : HeaderMap) :
    Obeys file (LetIn file (some h)) (some h) w (onApp (enter host h)) := by
  rw [enter, onApp_bind]
  apply obeys_config.bind
  rintro w₁ cfg _ ⟨hcfg, hsame⟩
  rw [onApp_bind]
  apply (obeys_check (checkAuth cfg h)).bind
  intro w₂ _ hle₂ hauth
  rw [onApp_bind]
  apply (obeys_check (pool host)).bind
  intro w₃ _ hle₃ _
  refine obeys_pure ⟨hle₃ (hle₂ hcfg), h, rfl, ?_⟩
  rw [hsame.checkAuth, hauth]

/-- The end of every handler. -/
theorem obeys_reply (htoken : ∃ h ∈ headers, checkAuth file h = .ok ()) (host : Host) (v : Value) :
    Obeys file (fun _ _ => True) headers w
      (onApp (reloadFromDb host >>= fun _ => pure v : Handler BridgeError Value)) := by
  rw [onApp_bind]
  apply (obeys_reloadFromDb htoken host).bind
  intro w' _ _ _
  exact obeys_pure trivial

/-- A write with what follows it in every handler. -/
theorem obeys_written (htoken : ∃ h ∈ headers, checkAuth file h = .ok ()) (host : Host)
    (touched : List Table) (statement : Database → Except SqlError (Database × Nat)) (v : Value) :
    Obeys file (fun _ _ => True) headers w
      (onApp (execute host touched statement >>= fun _ =>
        reloadFromDb host >>= fun _ => pure v : Handler BridgeError Value)) := by
  rw [onApp_bind]
  apply (obeys_execute htoken host touched statement).bind
  intro w' _ _ _
  exact obeys_reply htoken host v

/-- **The admin writes.** -/
theorem obeys_handler (host : Host) (h : HeaderMap) (write : Write) :
    Obeys file (fun _ _ => True) (some h) w (onApp (write.handler host h)) := by
  cases write with
  | createProvider input =>
      rw [Write.handler, Admin.createProvider, onApp_bind]
      apply (obeys_enter host h).bind
      intro w₁ cfg _ hcfg
      rw [onApp_bind]
      apply (obeys_check _).bind
      intro w₂ name _ _
      rw [onApp_bind]
      apply (obeys_getProvider host name).bind
      intro w₃ existing _ _
      split
      · exact (obeys_check _).weaken
      · rw [onApp_bind]
        apply (obeys_check _).bind
        intro w₄ provider _ _
        exact obeys_written hcfg.token host _ _ _
  | updateProvider name input =>
      rw [Write.handler, Admin.updateProvider, onApp_bind]
      apply (obeys_enter host h).bind
      intro w₁ cfg _ hcfg
      rw [onApp_bind]
      apply (obeys_getProvider host name).bind
      intro w₂ existing _ _
      cases existing with
      | none => exact (obeys_check _).weaken
      | some existing =>
          simp only
          rw [onApp_bind]
          apply (obeys_check _).bind
          intro w₃ provider _ _
          exact obeys_written hcfg.token host _ _ _
  | deleteProvider name =>
      rw [Write.handler, Admin.deleteProvider, onApp_bind]
      apply (obeys_enter host h).bind
      intro w₁ cfg _ hcfg
      rw [onApp_bind]
      apply (obeys_execute hcfg.token host _ _).bind
      intro w₂ n _ _
      split
      · exact (obeys_check _).weaken
      · exact obeys_reply hcfg.token host _
  | createRoute input =>
      rw [Write.handler, Admin.createRoute, onApp_bind]
      apply (obeys_enter host h).bind
      intro w₁ cfg _ hcfg
      rw [onApp_bind]
      apply (obeys_check _).bind
      intro w₂ routeAlias _ _
      split
      · exact (obeys_check _).weaken
      · rw [onApp_bind]
        apply (obeys_check _).bind
        intro w₃ route _ _
        exact obeys_written hcfg.token host _ _ _
  | updateRoute routeAlias input =>
      rw [Write.handler, Admin.updateRoute, onApp_bind]
      apply (obeys_enter host h).bind
      intro w₁ cfg _ hcfg
      split
      · rw [onApp_bind]
        apply (obeys_check _).bind
        intro w₂ route _ _
        exact obeys_written hcfg.token host _ _ _
      · exact (obeys_check _).weaken
  | deleteRoute routeAlias =>
      rw [Write.handler, Admin.deleteRoute, onApp_bind]
      apply (obeys_enter host h).bind
      intro w₁ cfg _ hcfg
      rw [onApp_bind]
      apply (obeys_execute hcfg.token host _ _).bind
      intro w₂ n _ _
      split
      · exact (obeys_check _).weaken
      · exact obeys_reply hcfg.token host _
  | setFallbackRoute input =>
      rw [Write.handler, Admin.setFallbackRoute, onApp_bind]
      apply (obeys_enter host h).bind
      intro w₁ cfg _ hcfg
      rw [onApp_bind]
      apply (obeys_check _).bind
      intro w₂ target _ _
      exact obeys_written hcfg.token host _ _ _

end Handlers

/-! ## All parties -/

/-- The headers of a party that is a request. -/
def Party.headers? : Party → Option HeaderMap
  | .responses _ call | .messages call | .chat call => some call.headers
  | .query headers _ _ | .setUsage headers _ | .write headers _ => some headers
  | .probed _ _ | .retained _ => none

/-- **Every party obeys.** -/
theorem obeys_party (file : Config) (w : Set Config) (host : Host) (text : JsonText) (p : Party) :
    Obeys file (fun _ _ => True) p.headers? w (p.task host text) := by
  cases p with
  | responses uuid call => exact obeys_translated text _ call
  | messages call => exact obeys_translated text _ call
  | chat call => exact obeys_chatHandler text call
  | query headers q now => exact obeys_answerQuery headers q now
  | setUsage headers on => exact obeys_setUsage headers on
  | write headers w =>
      change Obeys file (fun _ _ => True) (some headers) _ (onApp (adminReply host headers w))
      rw [adminReply, onApp_bind]
      apply (obeys_handler host headers w).bind
      intro w' v _ _
      exact obeys_pure trivial
  | probed name status =>
      apply obeys_effect (fun _ => rfl) (fun _ => rfl)
      exact fun w' s _ => ⟨trivial, rfl, fun _ _ => trivial⟩
  | retained providers =>
      apply obeys_effect (fun _ => rfl) (fun _ => rfl)
      exact fun w' s _ => ⟨trivial, rfl, fun _ _ => trivial⟩

/-- The configurations that have been live by the end of a trace. -/
def livedBy {ι : Type} (cfg : Config) (trace : List (ι × Effect)) : Set Config :=
  {c | c = cfg ∨ ∃ i, (i, .swapped c) ∈ trace}

theorem world_authority {ι : Type} (file cfg : Config) (trace : List (ι × Effect)) :
    (authority file).world {cfg} trace = livedBy cfg trace := by
  have hworld : ∀ w : Set Config, (authority file).world w trace =
      {c | c ∈ w ∨ ∃ i, (i, .swapped c) ∈ trace} := by
    induction trace with
    | nil => simp [Contract.world]
    | cons e trace ih =>
        intro w
        rcases e with ⟨i, l⟩
        refine (ih _).trans ?_
        cases l with
        | swapped c =>
            ext c'
            simp only [authority, Effect.swap?, Option.elim, Set.mem_insert_iff, Set.mem_ofPred_eq,
              List.mem_cons, Prod.mk.injEq, Effect.swapped.injEq]
            constructor
            · rintro ((rfl | hc) | ⟨j, hj⟩)
              · exact .inr ⟨i, .inl ⟨rfl, rfl⟩⟩
              · exact .inl hc
              · exact .inr ⟨j, .inr hj⟩
            · rintro (hc | ⟨j, ⟨-, rfl⟩ | hj⟩)
              · exact .inl (.inr hc)
              · exact .inl (.inl rfl)
              · exact .inr ⟨j, hj⟩
        | _ => simp [authority, Effect.swap?]
  exact hworld {cfg}

section Pools

variable {ι : Type} [DecidableEq ι]

/-- **Whose keys go where.** Whatever anybody does at any point of any interleaving, it is
licensed by configurations that have been live before, and what goes beyond reading is done with
the token that the server has started with. -/
theorem licensed_and_authorized (host : Host) (text : JsonText) (parties : ι → Party)
    (s : LiveState) (schedule : List ι) :
    EverySplit (fun before e => Licensed (livedBy s.app.config before) e.2 ∧
        Authorized s.app.config (parties e.1).headers? e.2)
      ((serving host text parties s).trace schedule) := by
  have hkeeping : Keeping (authority s.app.config) (fun i => OnOk (fun q _ _ =>
        q = (parties i).headers? ∧ True) fun _ _ _ => True)
      (serving host text parties s) ({s.app.config}, fun i => (parties i).headers?) :=
    ⟨⟨rfl, fun cfg h => h ▸ .refl _⟩, fun i => obeys_party _ _ host text (parties i)⟩
  have hpost : ∀ (i : ι) (q : Option HeaderMap) (w w' : Set Config)
      (a : Except BridgeError Reply), w ≤ w' →
      OnOk (fun q _ _ => q = (parties i).headers? ∧ True) (fun _ _ _ => True) q w a →
      OnOk (fun q _ _ => q = (parties i).headers? ∧ True) (fun _ _ _ => True) q w' a := by
    intro i q w w' a _ h
    cases a <;> exact h
  obtain ⟨htrace, -⟩ := Pool.meets_run hpost hkeeping schedule
  refine (EverySplit.congr fun before e after _ => ?_).1 htrace.everySplit
  rw [foldl_monitor_snd fun _ _ => rfl, world_authority]
  exact Iff.rfl

end Pools

end AiApiBridge
