import AiApiBridge.AdminViews
import AiApiBridge.ChainOrder
import AiApiBridge.StoredReferences

/-!
# The models that are listed

`GET /v1/models` lists the aliases of the routes with the providers that own them. The listing
reads the live configuration and so does the router, but nothing in the router says that a route
has a provider: the tables do, by the foreign key, and so does what is loaded from them. After any
start, and any admin writes one after the other that succeed or fail, each listed model is served,
and by its owner first while that is usable (`servedModels`).
-/

set_option autoImplicit false

namespace AiApiBridge

open Router Store Admin

/-! ## The listing -/

/-- The entries that `GET /v1/models` shows. -/
def modelEntries (cfg : Config) : List Value :=
  (((Views.listModels cfg).get "data").bind Value.asArray).getD []

/-- The ids of the listed models. -/
def listedIds (cfg : Config) : List String :=
  (modelEntries cfg).filterMap fun entry => (entry.get "id").bind Value.asStr

/-- A model is listed with an owner. -/
def Lists (cfg : Config) (model owner : String) : Prop :=
  ∃ entry ∈ modelEntries cfg,
    entry.get "id" = some (.string model) ∧ entry.get "owned_by" = some (.string owner)

theorem listedIds_eq (cfg : Config) : listedIds cfg = cfg.routes.map Route.routeAlias := by
  simp [listedIds, modelEntries, Views.listModels, List.filterMap_map, Function.comp_def]

theorem lists_iff {cfg : Config} {model owner : String} :
    Lists cfg model owner ↔
      ∃ route ∈ cfg.routes, route.routeAlias = model ∧ route.provider = owner := by
  simp [Lists, modelEntries, Views.listModels]

/-! ## What is resolved -/

/-- Something takes the names that no route has: a default provider that is configured, or, with
none named, the fallback route. -/
def CatchesAll (cfg : Config) : Prop :=
  (∃ name provider, cfg.defaultProvider = some name ∧ cfg.providers.lookup name = some provider) ∨
    cfg.defaultProvider = none ∧ ∃ target provider, cfg.fallbackRoute = some target ∧
      cfg.providers.lookup target.provider = some provider

/-- The listing tells what the router does, whatever the status of the providers. -/
structure ServesListed (cfg : Config) : Prop where
  /-- No model is listed twice. -/
  distinct : (listedIds cfg).Nodup
  /-- A listed model has its owner in the chain, in front while it is usable. -/
  owned : ∀ model owner, Lists cfg model owner → ∃ c : Resolved, c.providerName = owner ∧
    cfg.providers.lookup owner = some c.provider ∧ ∀ v : LiveView, ∃ chain,
      resolveCandidates cfg v.status v.costExhausted model = .ok chain ∧ c ∈ chain ∧
        (ranksUsable v.status v.costExhausted c = true → chain.head? = some c)
  /-- Another model is served exactly when something takes them all. -/
  served : ∀ model (v : LiveView),
    (∃ chain, resolveCandidates cfg v.status v.costExhausted model = .ok chain) ↔
      (∃ owner, Lists cfg model owner) ∨ CatchesAll cfg

section Resolve

variable {cfg : Config} {v : LiveView} {model : String}

/-- A candidate makes a chain. -/
theorem resolveCandidates_of_mem {raw : List (String × String)} {c : Resolved}
    (hraw : rawCandidates cfg model = .ok raw)
    (hc : c ∈ knownCandidates cfg (withFallbackRoute cfg raw)) :
    resolveCandidates cfg v.status v.costExhausted model =
      .ok (rank v.status v.costExhausted (knownCandidates cfg (withFallbackRoute cfg raw))) := by
  have hne : rank v.status v.costExhausted (knownCandidates cfg (withFallbackRoute cfg raw)) ≠ [] :=
    List.ne_nil_of_mem (mem_rank.2 hc)
  simp [resolveCandidates, hraw, bind, Except.bind, hne]

/-- The safety net comes behind the first candidate. -/
theorem withFallbackRoute_cons (cfg : Config) (first : String × String)
    (raw : List (String × String)) :
    ∃ more, withFallbackRoute cfg (first :: raw) = first :: more := by
  cases hfb : cfg.fallbackRoute with
  | none =>
      rw [withFallbackRoute, hfb]
      exact ⟨raw, rfl⟩
  | some fb =>
      by_cases hmem : (fb.provider, fb.model) ∈ first :: raw
      · exact ⟨raw, by simp only [withFallbackRoute, hfb, if_pos hmem]⟩
      · exact ⟨raw ++ [(fb.provider, fb.model)],
          by simp only [withFallbackRoute, hfb, if_neg hmem, List.cons_append]⟩

/-- The first candidate stays in front when its provider is configured. -/
theorem knownCandidates_first {owner : String} {provider : Provider}
    (hprovider : cfg.providers.lookup owner = some provider) (upstream : String)
    (raw : List (String × String)) :
    ∃ rest, knownCandidates cfg (withFallbackRoute cfg ((owner, upstream) :: raw)) =
      ⟨owner, provider, upstream⟩ :: rest := by
  obtain ⟨more, hmore⟩ := withFallbackRoute_cons cfg (owner, upstream) raw
  refine ⟨knownCandidates cfg more, ?_⟩
  simp [hmore, knownCandidates, hprovider]

/-- A usable candidate that comes first stays first. -/
theorem head?_rank {c : Resolved} {cs : List Resolved}
    (h : ranksUsable v.status v.costExhausted c = true) :
    (rank v.status v.costExhausted (c :: cs)).head? = some c := by
  rw [rank, List.filter_cons_of_pos h]
  rfl

/-- **What is served apart from the routes.** -/
theorem resolves_unlisted_iff (hfind : cfg.routes.find? (fun r => r.routeAlias = model) = none) :
    (∃ chain, resolveCandidates cfg v.status v.costExhausted model = .ok chain) ↔
      CatchesAll cfg := by
  cases hdefault : cfg.defaultProvider with
  | some name =>
      cases hprovider : cfg.providers.lookup name with
      | none =>
          simp [resolveCandidates, rawCandidates, CatchesAll, hfind, hdefault, hprovider, bind,
            Except.bind]
      | some provider =>
          refine iff_of_true ?_ (.inl ⟨name, provider, hdefault, hprovider⟩)
          obtain ⟨upstream, hraw⟩ :
              ∃ upstream, rawCandidates cfg model = .ok [(name, upstream)] := by
            simp only [rawCandidates, hfind, hdefault, hprovider]
            exact ⟨_, rfl⟩
          obtain ⟨rest, hfirst⟩ := knownCandidates_first hprovider upstream []
          exact ⟨_, resolveCandidates_of_mem hraw (hfirst ▸ List.mem_cons_self)⟩
  | none =>
      have hraw : rawCandidates cfg model = .ok [] := by simp only [rawCandidates, hfind, hdefault]
      cases hfb : cfg.fallbackRoute with
      | none =>
          simp [resolveCandidates, hraw, CatchesAll, hdefault, hfb, withFallbackRoute,
            knownCandidates, rank, bind, Except.bind]
      | some target =>
          cases hprovider : cfg.providers.lookup target.provider with
          | none =>
              simp [resolveCandidates, hraw, CatchesAll, hdefault, hfb, hprovider,
                withFallbackRoute, knownCandidates, rank, bind, Except.bind]
          | some provider =>
              refine iff_of_true ?_ (.inr ⟨hdefault, target, provider, hfb, hprovider⟩)
              refine ⟨_, resolveCandidates_of_mem hraw (c := ⟨target.provider, provider,
                target.model⟩) ?_⟩
              simp [withFallbackRoute, hfb, knownCandidates, hprovider]

end Resolve

/-! ## What tables make -/

/-- **A configuration in which every route has a provider** serves what it lists. -/
theorem servesListed_of_closed {cfg : Config} (hdistinct : (cfg.routes.map Route.routeAlias).Nodup)
    (howned : ∀ route ∈ cfg.routes, route.provider ∈ cfg.providers.map Prod.fst) :
    ServesListed cfg := by
  have hlookup : ∀ route ∈ cfg.routes, ∃ provider,
      cfg.providers.lookup route.provider = some provider := by
    intro route hroute
    exact Option.isSome_iff_exists.1 ((knows_iff_mem _ _).2 (howned route hroute))
  -- the alias of a route finds that route
  have hfind : ∀ route ∈ cfg.routes,
      cfg.routes.find? (fun r => r.routeAlias = route.routeAlias) = some route := by
    intro route hroute
    cases hfound : cfg.routes.find? fun r => r.routeAlias = route.routeAlias with
    | none =>
        have hmissed := List.find?_eq_none.1 hfound route hroute
        simp at hmissed
    | some route' =>
        have halias : route'.routeAlias = route.routeAlias := by simpa using List.find?_some hfound
        rw [List.inj_on_of_nodup_map hdistinct (List.mem_of_find?_eq_some hfound) hroute halias]
  have hchain : ∀ route ∈ cfg.routes, ∀ provider,
      cfg.providers.lookup route.provider = some provider → ∀ v : LiveView, ∃ chain,
        resolveCandidates cfg v.status v.costExhausted route.routeAlias = .ok chain ∧
          ⟨route.provider, provider, route.model⟩ ∈ chain ∧
          (ranksUsable v.status v.costExhausted ⟨route.provider, provider, route.model⟩ = true →
            chain.head? = some ⟨route.provider, provider, route.model⟩) := by
    intro route hroute provider hprovider v
    have hraw : rawCandidates cfg route.routeAlias = .ok ((route.provider, route.model) ::
        route.fallback.map fun fb => (fb.provider, fb.model)) := by
      simp only [rawCandidates, hfind route hroute]
    obtain ⟨rest, hfirst⟩ := knownCandidates_first hprovider route.model
      (route.fallback.map fun fb => (fb.provider, fb.model))
    have hok := resolveCandidates_of_mem (v := v) hraw (hfirst ▸ List.mem_cons_self)
    rw [hfirst] at hok
    exact ⟨_, hok, mem_rank.2 List.mem_cons_self, head?_rank⟩
  refine ⟨by rw [listedIds_eq]; exact hdistinct, ?_, ?_⟩
  · intro model owner hlists
    obtain ⟨route, hroute, rfl, rfl⟩ := lists_iff.1 hlists
    obtain ⟨provider, hprovider⟩ := hlookup route hroute
    exact ⟨⟨route.provider, provider, route.model⟩, rfl, hprovider,
      hchain route hroute provider hprovider⟩
  · intro model v
    cases hmodel : cfg.routes.find? fun r => r.routeAlias = model with
    | none =>
        have hunlisted : ¬ ∃ owner, Lists cfg model owner := by
          rintro ⟨owner, hlists⟩
          obtain ⟨route, hroute, halias, -⟩ := lists_iff.1 hlists
          exact absurd halias (by simpa using List.find?_eq_none.1 hmodel route hroute)
        rw [resolves_unlisted_iff hmodel, or_iff_right hunlisted]
    | some route =>
        have halias : route.routeAlias = model := by simpa using List.find?_some hmodel
        have hroute := List.mem_of_find?_eq_some hmodel
        obtain ⟨provider, hprovider⟩ := hlookup route hroute
        obtain ⟨chain, hok, -⟩ := hchain route hroute provider hprovider v
        rw [halias] at hok
        have hlists : Lists cfg model route.provider :=
          lists_iff.2 ⟨route, hroute, halias, rfl⟩
        exact iff_of_true ⟨chain, hok⟩ (.inl ⟨route.provider, hlists⟩)

/-- The providers and the routes of a configuration are those of some tables. -/
def Made (host : Host) (cfg : Config) : Prop :=
  ∃ db : Database, cfg.providers.map Prod.fst = db.providers.keys ∧
    cfg.routes = db.routes.rows.map (rowToRoute host.columns)

variable {host : Host}

theorem Made.servesListed {cfg : Config} (h : Made host cfg) : ServesListed cfg := by
  obtain ⟨db, hproviders, hroutes⟩ := h
  apply servesListed_of_closed
  · rw [hroutes, List.map_map]
    exact db.routes.nodup
  · intro route hroute
    rw [hroutes] at hroute
    obtain ⟨row, hrow, rfl⟩ := List.mem_map.1 hroute
    rw [hproviders]
    exact db.foreignKey row hrow

theorem Loaded.made {file : Config} {s : AppState} (h : Loaded host file s) : Made host s.config :=
  ⟨s.db, h.parts.1, h.parts.2.1⟩

/-! ## Writes that may fail -/

/-- A task that leaves a made configuration when nobody disturbs it, whether it succeeds or not. -/
def KeepsMade (host : Host) {ε α : Type} (t : Handler ε α) : Prop :=
  ∀ s, Made host s.config → Made host (Task.alone t s).2.config

section KeepsMade

variable {ε α β : Type}

theorem KeepsMade.bind {t : Handler ε α} {k : α → Handler ε β} (ht : KeepsMade host t)
    (hk : ∀ a, KeepsMade host (k a)) : KeepsMade host (t >>= k : Handler ε β) := by
  intro s h
  have hfirst := ht s h
  rcases Attempt.alone_bind_cases t k s with ⟨a, s', hok, hrun⟩ | ⟨e, s', hfailed, hrun⟩
  · rw [hok] at hfirst
    rw [hrun]
    exact hk a s' hfirst
  · rw [hfailed] at hfirst
    rw [hrun]
    exact hfirst

theorem keepsMade_lift (x : Except ε α) : KeepsMade host (Attempt.lift x : Handler ε α) :=
  fun _ h => h

theorem keepsMade_config : KeepsMade host (config : Handler ε Config) := fun _ h => h

theorem keepsMade_getProvider (name : String) : KeepsMade host (getProvider host name) :=
  fun _ h => h

theorem keepsMade_execute (touched : List Table)
    (statement : Database → Except SqlError (Database × Nat)) :
    KeepsMade host (execute host touched statement) := by
  intro s h
  cases hst : statement s.db with
  | error e => simpa [execute, Attempt.access, Task.alone, hst] using h
  | ok r => simpa [execute, Attempt.access, Task.alone, hst] using h

/-- **A reload** puts what the tables make in the place of the live configuration, or nothing. -/
theorem keepsMade_reloadFromDb : KeepsMade host (reloadFromDb host) := by
  refine (keepsMade_lift _).bind fun _ => keepsMade_config.bind fun cfg => ?_
  intro s h
  have hload : Task.alone ((loadIntoConfig host.columns cfg).mapError fun e =>
      BridgeError.internal ("reload from db: " ++ e)) s =
        ((loaded host.columns s.db cfg).mapError fun e =>
          BridgeError.internal ("reload from db: " ++ e), s) :=
    (Task.alone_bind _ _ s).trans (by rw [loadIntoConfig_alone]; rfl)
  rcases Attempt.alone_bind_cases ((loadIntoConfig host.columns cfg).mapError fun e =>
      BridgeError.internal ("reload from db: " ++ e))
      (fun cfg => swapConfig (cfg.applyEnvOverrides host.toUppercase host.env)) s with
    ⟨cfg', s', hok, hrun⟩ | ⟨e, s', hfailed, hrun⟩
  · obtain ⟨hloaded, rfl⟩ := Prod.mk.inj (hload.symm.trans hok)
    rw [hrun]
    have hmade : Loaded host cfg
        { s with config := cfg'.applyEnvOverrides host.toUppercase host.env } := by
      cases hresult : loaded host.columns s.db cfg with
      | error e =>
          rw [hresult] at hloaded
          cases hloaded
      | ok cfg'' =>
          rw [hresult] at hloaded
          cases hloaded
          simp [Loaded, hresult, Except.map]
    exact hmade.made
  · obtain ⟨-, rfl⟩ := Prod.mk.inj (hload.symm.trans hfailed)
    rw [hrun]
    exact h

/-- The end of every handler. -/
theorem keepsMade_reply (v : Value) :
    KeepsMade host (reloadFromDb host >>= fun _ => pure v : Handler BridgeError Value) :=
  keepsMade_reloadFromDb.bind fun _ => keepsMade_lift (.ok v)

theorem keepsMade_enter (headers : HeaderMap) : KeepsMade host (enter host headers) :=
  keepsMade_config.bind fun cfg => (keepsMade_lift _).bind fun _ =>
    (keepsMade_lift _).bind fun _ => keepsMade_lift (.ok cfg)

/-- A deletion replies only when it has reached a row. -/
theorem keepsMade_deletion (n : Nat) (e : BridgeError) (v : Value) :
    KeepsMade host (if n = 0 then Attempt.lift (.error e)
      else reloadFromDb host >>= fun _ => pure v : Handler BridgeError Value) := by
  by_cases hn : n = 0
  · rw [if_pos hn]
    exact keepsMade_lift _
  · rw [if_neg hn]
    exact keepsMade_reply v

/-- **An admin write keeps a made configuration made**, whether it succeeds or not. -/
theorem keepsMade_handler (headers : HeaderMap) (w : Write) :
    KeepsMade host (w.handler host headers) := by
  cases w with
  | createProvider input =>
      refine (keepsMade_enter headers).bind fun _ => (keepsMade_lift _).bind fun name =>
        (keepsMade_getProvider name).bind fun existing => ?_
      cases existing with
      | some p => exact keepsMade_lift _
      | none =>
          exact (keepsMade_lift _).bind fun p => (keepsMade_execute _ _).bind fun _ =>
            keepsMade_reply _
  | updateProvider name input =>
      refine (keepsMade_enter headers).bind fun _ =>
        (keepsMade_getProvider name).bind fun existing => ?_
      cases existing with
      | none => exact keepsMade_lift _
      | some existing =>
          exact (keepsMade_lift _).bind fun p => (keepsMade_execute _ _).bind fun _ =>
            keepsMade_reply _
  | deleteProvider name =>
      exact (keepsMade_enter headers).bind fun _ => (keepsMade_execute _ _).bind fun n =>
        keepsMade_deletion n _ _
  | createRoute input =>
      refine (keepsMade_enter headers).bind fun cfg => (keepsMade_lift _).bind fun routeAlias => ?_
      cases hany : cfg.routes.any fun r => r.routeAlias = routeAlias with
      | true =>
          rw [if_pos rfl]
          exact keepsMade_lift _
      | false =>
          rw [if_neg Bool.false_ne_true]
          exact (keepsMade_lift _).bind fun r => (keepsMade_execute _ _).bind fun _ =>
            keepsMade_reply _
  | updateRoute routeAlias input =>
      refine (keepsMade_enter headers).bind fun cfg => ?_
      cases hany : cfg.routes.any fun r => r.routeAlias = routeAlias with
      | false =>
          rw [if_neg Bool.false_ne_true]
          exact keepsMade_lift _
      | true =>
          rw [if_pos rfl]
          exact (keepsMade_lift _).bind fun r => (keepsMade_execute _ _).bind fun _ =>
            keepsMade_reply _
  | deleteRoute routeAlias =>
      exact (keepsMade_enter headers).bind fun _ => (keepsMade_execute _ _).bind fun n =>
        keepsMade_deletion n _ _
  | setFallbackRoute input =>
      exact (keepsMade_enter headers).bind fun cfg => (keepsMade_lift _).bind fun target =>
        (keepsMade_execute _ _).bind fun _ => keepsMade_reply _

end KeepsMade

/-- The state behind admin writes one after the other, with what the failed ones leave. -/
def afterWrites (host : Host) (s : AppState) (requests : List (HeaderMap × Write)) : AppState :=
  requests.foldl (fun s request => (Task.alone (request.2.handler host request.1) s).2) s

theorem made_afterWrites (requests : List (HeaderMap × Write)) {s : AppState}
    (h : Made host s.config) : Made host (afterWrites host s requests).config := by
  induction requests generalizing s with
  | nil => exact h
  | cons request requests ih => exact ih (keepsMade_handler request.1 request.2 s h)

/-- **What is listed is served.** A process that has started, on any tables and with any statements
failing, and has answered any admin writes one after the other, some of which may have failed: it
lists no model twice; each listed model resolves whatever the status of the providers, with its
owner in the chain and in front while the owner is usable; and a model that is not listed resolves
exactly when the default provider, or without one the fallback route, takes every name. -/
theorem servedModels {file cfg : Config} {faults : Faults} {reseed : Bool} {db₀ db : Database}
    (hboot : boot host faults reseed file db₀ = (db, some cfg))
    (requests : List (HeaderMap × Write)) :
    ServesListed (afterWrites host ⟨cfg, db⟩ requests).config :=
  (made_afterWrites requests (loaded_of_boot hboot).made).servesListed

/-- A route is created, and another one fails. -/
theorem servedModels_oneRoute :
    let s := afterWrites zenHost zenStarted [([], .createRoute ⟨some "fast", "zen", "gpt-5.5", []⟩),
      ([], .createRoute ⟨some "slow", "nobody", "gpt-5.5", []⟩)]
    listedIds s.config = ["fast"] ∧ ∀ v : LiveView, ∃ chain,
      resolveCandidates s.config v.status v.costExhausted "fast" = .ok chain := by
  intro s
  have hserved : ServesListed s.config :=
    servedModels (show boot zenHost noFaults false zenFile Database.empty =
      (zenStarted.db, some zenFile) by decide) _
  have hlists : Lists s.config "fast" "zen" :=
    lists_iff.2 ⟨⟨"fast", "zen", "gpt-5.5", []⟩, by decide, rfl, rfl⟩
  exact ⟨by decide, fun v => (hserved.served "fast" v).2 (.inl ⟨"zen", hlists⟩)⟩

end AiApiBridge
