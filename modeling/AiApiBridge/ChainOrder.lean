import AiApiBridge.Demotion

/-!
# What a chain owes to the live data

`resolveCandidates` reads the watcher's statuses and the exhausted set to order a
chain, never to decide what is in it: under any two views the chains are
permutations of each other, and a request whose failures are all retryable is served
under both or under neither (`resolveCandidates_twoViews`). The safety net of
`fallback_route` is a matter of the configuration alone (`fallbackRoute_backs_iff`).
-/

set_option autoImplicit false

namespace AiApiBridge

namespace Router

/-! ## The order of a chain -/

/-- `chain` is the configured list with its usable members moved to the front, both
parts in the configured order. -/
structure Partitioned {α : Type} (usable : α → Bool) (configured chain : List α) : Prop where
  usableFirst : chain.Pairwise fun c d => usable d = true → usable c = true
  usablePart : chain.filter usable = configured.filter usable
  degradedPart : (chain.filter fun c => !usable c) = configured.filter fun c => !usable c

/-- Nothing is lost or added. -/
theorem Partitioned.perm {α : Type} {usable : α → Bool} {configured chain : List α}
    (h : Partitioned usable configured chain) : chain.Perm configured := by
  have hchain := List.filter_append_perm usable chain
  rw [h.usablePart, h.degradedPart] at hchain
  exact hchain.symm.trans (List.filter_append_perm usable configured)

theorem partitioned_rank (status : StatusMap) (costExhausted : List String) (cs : List Resolved) :
    Partitioned (ranksUsable status costExhausted) cs (rank status costExhausted cs) where
  usableFirst := by
    refine List.pairwise_append.2 ⟨?_, ?_, ?_⟩
    · apply List.pairwise_of_forall_mem_list
      intro c hc d _ _
      exact (List.mem_filter.1 hc).2
    · apply List.pairwise_of_forall_mem_list
      intro c _ d hd hdu
      -- nothing in the second part is usable
      have hback := (List.mem_filter.1 hd).2
      rw [hdu] at hback
      cases hback
    · intro c hc d _ _
      exact (List.mem_filter.1 hc).2
  usablePart := by simp [rank, List.filter_append, List.filter_filter]
  degradedPart := by simp [rank, List.filter_append, List.filter_filter]

/-- The chain of an alias is a rearrangement of what the configuration lists for it,
and whether there is one does not depend on the live data. -/
theorem resolveCandidates_cases (cfg : Config) (requested : String) :
    (∃ e, ∀ status costExhausted,
      resolveCandidates cfg status costExhausted requested = .error e) ∨
    ∃ raw, rawCandidates cfg requested = .ok raw ∧ ∀ status costExhausted,
      resolveCandidates cfg status costExhausted requested =
        .ok (rank status costExhausted (knownCandidates cfg (withFallbackRoute cfg raw))) := by
  cases hraw : rawCandidates cfg requested with
  | error e =>
      refine Or.inl ⟨e, ?_⟩
      intro status costExhausted
      simp [resolveCandidates, hraw, bind, Except.bind]
  | ok raw =>
      by_cases hnil : knownCandidates cfg (withFallbackRoute cfg raw) = []
      · -- no candidate is configured, which no ranking changes
        refine Or.inl ⟨.unknownModel requested, ?_⟩
        intro status costExhausted
        simp [resolveCandidates, hraw, bind, Except.bind, hnil, rank]
      · refine Or.inr ⟨raw, rfl, ?_⟩
        intro status costExhausted
        have hne : rank status costExhausted (knownCandidates cfg (withFallbackRoute cfg raw)) ≠ [] := by
          obtain ⟨c, hc⟩ := List.exists_mem_of_ne_nil _ hnil
          exact List.ne_nil_of_mem (mem_rank.2 hc)
        simp [resolveCandidates, hraw, bind, Except.bind, hne]

end Router

namespace Failover

/-! ## Whether a request is served -/

section Served

variable {α : Type} (post : Nat → Provider → Value → Except BridgeError α) (req : CanonicalRequest)

/-- What each member of a chain answers when its turn comes. -/
def outcomes (chain : List Resolved) : List (Resolved × Except BridgeError α) :=
  chain.mapIdx fun i c => (c, answerOf post req i c)

end Served

/-- Every failure among the outcomes lets the walk go on. -/
def AllRetryable {α : Type} (outs : List (Resolved × Except BridgeError α)) : Prop :=
  ∀ c e, (c, .error e) ∈ outs → isRetryable e = true

/-- Some candidate accepts. -/
def SomeAccepts {α : Type} (outs : List (Resolved × Except BridgeError α)) : Prop :=
  ∃ c a, (c, .ok a) ∈ outs

variable {α : Type} {post : Nat → Provider → Value → Except BridgeError α} {req : CanonicalRequest}

/-- When every failure is retryable, the walk finds whoever accepts. -/
theorem tryFrom_served_iff {cs : List Resolved} {i : Nat} {status : StatusMap}
    {lastErr : Option BridgeError}
    (hretry : AllRetryable (cs.mapIdx fun k c => (c, answerOf post req (i + k) c))) :
    (∃ r, (tryFrom post req i status lastErr cs).1 = .ok r) ↔
      SomeAccepts (cs.mapIdx fun k c => (c, answerOf post req (i + k) c)) := by
  induction cs generalizing i status lastErr with
  | nil => simp [tryFrom, SomeAccepts]
  | cons c cs ih =>
      have hshift : (c :: cs).mapIdx (fun k c => (c, answerOf post req (i + k) c)) =
          (c, answerOf post req i c) ::
            cs.mapIdx fun k c => (c, answerOf post req (i + 1 + k) c) := by
        simp [List.mapIdx_cons, Nat.add_assoc, Nat.add_comm 1]
      rw [hshift] at hretry ⊢
      cases hans : answerOf post req i c with
      | ok a =>
          simp only [tryFrom, hans, verdict, Except.ok.injEq, exists_eq', true_iff]
          exact ⟨c, a, List.mem_cons_self⟩
      | error e =>
          rw [hans] at hretry
          have he : isRetryable e = true := hretry c e List.mem_cons_self
          have htail : AllRetryable (cs.mapIdx fun k c => (c, answerOf post req (i + 1 + k) c)) :=
            fun c' e' hc' => hretry c' e' (List.mem_cons_of_mem _ hc')
          have hskip : SomeAccepts ((c, .error e) ::
                cs.mapIdx fun k c => (c, answerOf post req (i + 1 + k) c)) ↔
              SomeAccepts (cs.mapIdx fun k c => (c, answerOf post req (i + 1 + k) c)) := by
            simp [SomeAccepts]
          rw [hskip]
          simp only [tryFrom, hans, verdict, he, Bool.true_and]
          by_cases hmore : cs = []
          -- the last candidate has failed
          · subst hmore
            simp [SomeAccepts]
          · simp only [hmore, ne_eq, not_false_eq_true, decide_true, if_true]
            exact ih htail

/-- A request is served when some member of its chain accepts. -/
theorem openUpstreamStream_served_iff {chain : List Resolved} {status : StatusMap}
    (hretry : AllRetryable (outcomes post req chain)) :
    (∃ r, (openUpstreamStream post req chain status).1 = .ok r) ↔
      SomeAccepts (outcomes post req chain) := by
  have hiff := @tryFrom_served_iff α post req chain 0 status none (by simpa [outcomes] using hretry)
  simpa [openUpstreamStream, outcomes] using hiff

theorem AllRetryable.perm {outs outs' : List (Resolved × Except BridgeError α)}
    (h : AllRetryable outs) (hperm : outs.Perm outs') : AllRetryable outs' :=
  fun c e hmem => h c e (hperm.mem_iff.2 hmem)

theorem someAccepts_congr {outs outs' : List (Resolved × Except BridgeError α)}
    (hperm : outs.Perm outs') : SomeAccepts outs ↔ SomeAccepts outs' := by
  simp only [SomeAccepts, hperm.mem_iff]

end Failover

open Router Failover

/-- The live data of one request: the statuses and the exhausted providers. -/
structure LiveView where
  status : StatusMap
  costExhausted : List String

/-- **Two views of the live data** resolve an alias to the same error or to two
arrangements of one list of candidates. Where the candidates answer the same under
both and fail retryably only, the request is served under both or under neither. -/
theorem resolveCandidates_twoViews (cfg : Config) (requested : String) (v w : LiveView) :
    (∃ e, resolveCandidates cfg v.status v.costExhausted requested = .error e ∧
      resolveCandidates cfg w.status w.costExhausted requested = .error e) ∨
    ∃ raw configured chain chain',
      rawCandidates cfg requested = .ok raw ∧
      configured = knownCandidates cfg (withFallbackRoute cfg raw) ∧
      resolveCandidates cfg v.status v.costExhausted requested = .ok chain ∧
      resolveCandidates cfg w.status w.costExhausted requested = .ok chain' ∧
      chain.Perm chain' ∧
      Partitioned (ranksUsable v.status v.costExhausted) configured chain ∧
      Partitioned (ranksUsable w.status w.costExhausted) configured chain' ∧
      ∀ (α : Type) (req : CanonicalRequest)
        (post post' : Nat → Provider → Value → Except BridgeError α) (live live' : StatusMap),
        (outcomes post req chain).Perm (outcomes post' req chain') →
        AllRetryable (outcomes post req chain) →
        ((∃ r, (openUpstreamStream post req chain live).1 = .ok r) ↔
          ∃ r, (openUpstreamStream post' req chain' live').1 = .ok r) := by
  rcases resolveCandidates_cases cfg requested with ⟨e, herr⟩ | ⟨raw, hraw, hok⟩
  · exact Or.inl ⟨e, herr _ _, herr _ _⟩
  · have hv := partitioned_rank v.status v.costExhausted
      (knownCandidates cfg (withFallbackRoute cfg raw))
    have hw := partitioned_rank w.status w.costExhausted
      (knownCandidates cfg (withFallbackRoute cfg raw))
    refine Or.inr ⟨raw, _, _, _, hraw, rfl, hok _ _, hok _ _, hv.perm.trans hw.perm.symm, hv, hw, ?_⟩
    -- with retryable errors only, the order does not decide whether one accepts
    intro α req post post' live live' hperm hretry
    rw [openUpstreamStream_served_iff hretry, openUpstreamStream_served_iff (hretry.perm hperm)]
    exact someAccepts_congr hperm

/-- Upstreams that answer by candidate, whatever the attempt, answer two arrangements
of a chain alike. -/
theorem outcomes_perm {α : Type} {req : CanonicalRequest}
    (answer : Provider → Value → Except BridgeError α) {chain chain' : List Resolved}
    (h : chain.Perm chain') :
    (outcomes (fun _ => answer) req chain).Perm (outcomes (fun _ => answer) req chain') := by
  have hmap : ∀ cs : List Resolved, outcomes (fun _ => answer) req cs =
      cs.map fun c => (c, answerOf (fun _ => answer) req 0 c) := by
    intro cs
    exact List.mapIdx_eq_iff.2 fun i => List.getElem?_map
  rw [hmap, hmap]
  exact h.map _

/-- A view in which the primary of `failoverConfig` is known to be down. -/
def primaryDown : LiveView :=
  ⟨Function.update (fun _ => none) "go" (some .new), []⟩

/-- The fallback accepts and the primary is overloaded. -/
def fallbackAccepts (p : Provider) (_ : Value) : Except BridgeError Unit :=
  if p.baseUrl = "https://zen" then .ok () else .error (.upstream 503 "busy")

/-- A request for the model of the one route. -/
def routedRequest : CanonicalRequest :=
  ⟨"gpt-5.5", none, [], [], .auto, none, none, none, none, none, true⟩

/-- The primary is tried first under one view and last under the other. -/
theorem resolveCandidates_twoViews_primaryDown :
    ∃ chain chain',
      resolveCandidates failoverConfig (fun _ => none) [] "gpt-5.5" = .ok chain ∧
      resolveCandidates failoverConfig primaryDown.status [] "gpt-5.5" = .ok chain' ∧
      chain ≠ chain' ∧
      ((∃ r, (openUpstreamStream (fun _ => fallbackAccepts) routedRequest chain
          fun _ => none).1 = .ok r) ↔
        ∃ r, (openUpstreamStream (fun _ => fallbackAccepts) routedRequest chain'
          primaryDown.status).1 = .ok r) := by
  have hfirst : resolveCandidates failoverConfig (fun _ => none) [] "gpt-5.5" =
      .ok [⟨"go", defaultedProvider "https://go", "deepseek-v4-pro"⟩,
        ⟨"zen", defaultedProvider "https://zen", "gpt-5.5"⟩] := by decide
  have hlast : resolveCandidates failoverConfig primaryDown.status [] "gpt-5.5" =
      .ok [⟨"zen", defaultedProvider "https://zen", "gpt-5.5"⟩,
        ⟨"go", defaultedProvider "https://go", "deepseek-v4-pro"⟩] := by decide
  refine ⟨_, _, hfirst, hlast, by decide, ?_⟩
  rcases resolveCandidates_twoViews failoverConfig "gpt-5.5" ⟨fun _ => none, []⟩ primaryDown with
    ⟨e, herr, -⟩ | ⟨raw, configured, chain, chain', -, -, hok, hok', hperm, -, -, hserved⟩
  · rw [hfirst] at herr
    cases herr
  · obtain rfl := Except.ok.inj (hfirst.symm.trans hok)
    obtain rfl := Except.ok.inj (hlast.symm.trans hok')
    apply hserved Unit routedRequest _ _ _ _ (outcomes_perm fallbackAccepts hperm)
    intro c e hmem
    -- the only error among these answers is the overload
    obtain ⟨i, hi, heq⟩ := List.mem_mapIdx.1 hmem
    simp only [answerOf, fallbackAccepts, Prod.mk.injEq] at heq
    split at heq
    · exact absurd heq.2 (by simp)
    · obtain rfl := Except.error.inj heq.2
      rfl

/-! ## The safety net -/

/-- Some way of resolving the alias gets as far as the safety net. -/
def ReachesFallback (cfg : Config) (requested : String) : Prop :=
  (∃ route ∈ cfg.routes, route.routeAlias = requested) ∨
    ∀ name, cfg.defaultProvider = some name → (cfg.providers.lookup name).isSome

/-- The candidates before the global fallback are listed unless the alias is left to
a default provider that is not configured. -/
theorem rawCandidates_isOk_iff (cfg : Config) (requested : String) :
    (∃ raw, rawCandidates cfg requested = .ok raw) ↔ ReachesFallback cfg requested := by
  simp only [rawCandidates, ReachesFallback]
  cases hfind : cfg.routes.find? fun r => r.routeAlias = requested with
  | some route =>
      have halias : route.routeAlias = requested := by simpa using List.find?_some hfind
      exact ⟨fun _ => Or.inl ⟨route, List.mem_of_find?_eq_some hfind, halias⟩, fun _ => ⟨_, rfl⟩⟩
  | none =>
      have hnone : ¬ ∃ route ∈ cfg.routes, route.routeAlias = requested := by
        simpa using hfind
      cases hdef : cfg.defaultProvider with
      | none => simp
      | some name =>
          simp only [hnone, false_or, Option.some.injEq, forall_eq']
          cases hp : cfg.providers.lookup name with
          | none => simp
          | some provider => simp

/-- The safety net is the last of the candidates unless it is among them already. -/
theorem mem_withFallbackRoute {cfg : Config} {fb : RouteTarget} (hfb : cfg.fallbackRoute = some fb)
    (raw : List (String × String)) : (fb.provider, fb.model) ∈ withFallbackRoute cfg raw := by
  by_cases h : (fb.provider, fb.model) ∈ raw <;> simp [withFallbackRoute, hfb, h]

/-- **The safety net backs a chain** unless no route has the alias and the default
provider is a name nobody is configured under: then resolving fails before
`fallback_route` is looked at. -/
theorem fallbackRoute_backs_iff {cfg : Config} {fb : RouteTarget} {provider : Provider}
    (hfb : cfg.fallbackRoute = some fb) (hprovider : cfg.providers.lookup fb.provider = some provider)
    (requested : String) (v : LiveView) :
    (∃ chain, resolveCandidates cfg v.status v.costExhausted requested = .ok chain ∧
      ⟨fb.provider, provider, fb.model⟩ ∈ chain) ↔ ReachesFallback cfg requested := by
  rw [← rawCandidates_isOk_iff]
  constructor
  · rintro ⟨chain, hok, -⟩
    obtain ⟨-, raw, hraw, -⟩ := resolveCandidates_eq_ok hok
    exact ⟨raw, hraw⟩
  · rintro ⟨raw, hraw⟩
    have hmem : ⟨fb.provider, provider, fb.model⟩ ∈
        knownCandidates cfg (withFallbackRoute cfg raw) :=
      List.mem_filterMap.2 ⟨_, mem_withFallbackRoute hfb raw, by simp [hprovider]⟩
    rcases resolveCandidates_cases cfg requested with ⟨e, herr⟩ | ⟨raw', hraw', hok⟩
    · -- a chain that has the safety net is not empty
      have hne : rank v.status v.costExhausted (knownCandidates cfg (withFallbackRoute cfg raw)) ≠ [] :=
        List.ne_nil_of_mem (mem_rank.2 hmem)
      have hfails := herr v.status v.costExhausted
      simp [resolveCandidates, hraw, bind, Except.bind, hne] at hfails
    · obtain rfl : raw = raw' := by simpa [hraw] using hraw'
      exact ⟨_, hok _ _, mem_rank.2 hmem⟩

/-- `failoverConfig` without its routes and its primary, which stays the default
provider; the other provider is the safety net. -/
def deletedDefault : Config :=
  { failoverConfig with
    defaultProvider := some "go"
    providers := failoverConfig.providers.filter fun np => np.1 ≠ "go"
    routes := []
    fallbackRoute := some ⟨"zen", "gpt-5.5"⟩ }

/-- The safety net is configured and is not tried. -/
theorem not_fallbackRoute_backs_deletedDefault :
    deletedDefault.fallbackRoute = some ⟨"zen", "gpt-5.5"⟩ ∧
      deletedDefault.providers.lookup "zen" = some (defaultedProvider "https://zen") ∧
      resolveCandidates deletedDefault (fun _ => none) [] "gpt-5.5" =
        .error (.internal "default provider go not configured") := by
  decide

/-- A route keeps the safety net within reach also when its own provider is gone. -/
theorem fallbackRoute_backs_iff_danglingRoute :
    (∃ chain, resolveCandidates { deletedDefault with routes := failoverConfig.routes }
        primaryDown.status primaryDown.costExhausted "gpt-5.5" = .ok chain ∧
      ⟨"zen", defaultedProvider "https://zen", "gpt-5.5"⟩ ∈ chain) ↔
      ReachesFallback { deletedDefault with routes := failoverConfig.routes } "gpt-5.5" := by
  have hnet : { deletedDefault with routes := failoverConfig.routes }.fallbackRoute =
      some ⟨"zen", "gpt-5.5"⟩ := rfl
  exact fallbackRoute_backs_iff hnet rfl "gpt-5.5" primaryDown

end AiApiBridge
