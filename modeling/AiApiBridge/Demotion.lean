import AiApiBridge.Failover
import AiApiBridge.Lib.Runs

/-!
# Demotion by failing requests

The status map over whole runs: requests walk their candidate chains one attempt at
a time, in any interleaving with each other, with admin reloads and with the tasks
that probe other providers. A provider that nobody probes gets its entry from
`mark_degraded` alone, and nothing takes it back, so the provider stays behind every
usable candidate also after it has served again (`recovers_iff`).
-/

set_option autoImplicit false

namespace AiApiBridge

open Router Failover

/-- An upstream attempt. `more` says whether the request had a further candidate. -/
structure UpstreamAttempt where
  provider : String
  error : Option BridgeError
  more : Bool
  deriving DecidableEq, Repr

namespace UpstreamAttempt

def accepted (a : UpstreamAttempt) : Bool := a.error.isNone

/-- A retryable failure from which the request moved on. -/
def demotes (a : UpstreamAttempt) : Bool := a.error.any isRetryable && a.more

end UpstreamAttempt

/-- The shared state and the requests under way. A handler first takes a snapshot of
the configuration and then resolves its chain; `inFlight` holds what is left of each
chain, `probes` the tasks that may write a status, and `attempts` the attempts made
so far. -/
structure FailoverState where
  config : Config
  status : StatusMap
  snapshots : List Config
  inFlight : List (List Resolved)
  probes : List (String × Provider)
  attempts : List UpstreamAttempt

/-- What can happen next. -/
inductive FailoverEvent where
  | enter
  | resolve (k : Nat) (requested : String)
  | answer (k : Nat) (error : Option BridgeError)
  | probed (name : String) (provider : Provider) (status : ProviderStatus)
  | swapped (cfg : Config)
  | retained (providers : List (String × Provider))

namespace FailoverState

/-- The providers `watcher::spawn` starts a task for. -/
def watched (providers : List (String × Provider)) : List (String × Provider) :=
  providers.filter fun np => np.2.isProbed

/-- The state after an upstream has answered the next attempt of a request. -/
def onAnswer (s : FailoverState) (k : Nat) (error : Option BridgeError) (c : Resolved)
    (rest : List Resolved) : FailoverState :=
  let attempts := s.attempts ++ [UpstreamAttempt.mk c.providerName error (rest ≠ [])]
  match verdict (match error with | some e => .error e | none => .ok ()) (rest ≠ []) with
  -- the request moves on, and its provider is marked and probed
  | .advance e =>
      { s with
        attempts
        inFlight := s.inFlight.set k rest
        status := markDegraded c.providerName e s.status
        probes := if c.provider.isProbed then s.probes ++ [(c.providerName, c.provider)]
          else s.probes }
  -- served, or failed for good
  | _ => { s with attempts, inFlight := s.inFlight.eraseIdx k }

/-- One event. Usage tracking is off, so no provider counts as exhausted. -/
def next (s : FailoverState) : FailoverEvent → Option FailoverState
  | .enter => some { s with snapshots := s.snapshots ++ [s.config] }
  | .resolve k requested =>
      s.snapshots[k]?.map fun cfg =>
        { s with
          snapshots := s.snapshots.eraseIdx k
          inFlight := s.inFlight ++
            (resolveCandidates cfg s.status [] requested).toOption.toList }
  | .answer k error =>
      match s.inFlight[k]? with
      | some (c :: rest) => some (s.onAnswer k error c rest)
      | _ => none
  -- a probe writes what it found, whatever the map holds by then
  | .probed name provider status =>
      if (name, provider) ∈ s.probes then
        some { s with status := Function.update s.status name (some status) }
      else none
  | .swapped cfg => some { s with config := cfg, probes := s.probes ++ watched cfg.providers }
  | .retained providers =>
      some { s with status := fun name =>
        if (providers.lookup name).isSome then s.status name else none }

/-- The server at startup: no request yet, and a task for each watched provider. -/
def start (cfg : Config) (status : StatusMap) : FailoverState :=
  ⟨cfg, status, [], [], watched cfg.providers, []⟩

theorem next_answer {s s' : FailoverState} {k : Nat} {error : Option BridgeError}
    (h : s.next (.answer k error) = some s') :
    ∃ c rest, s.inFlight[k]? = some (c :: rest) ∧ s' = s.onAnswer k error c rest := by
  rw [next] at h
  split at h
  · rename_i c rest hchain
    exact ⟨c, rest, hchain, (Option.some.inj h).symm⟩
  · cases h

theorem next_probed {s s' : FailoverState} {name : String} {provider : Provider}
    {status : ProviderStatus} (h : s.next (.probed name provider status) = some s') :
    (name, provider) ∈ s.probes ∧
      s' = { s with status := Function.update s.status name (some status) } := by
  rw [next] at h
  split at h
  · rename_i hmem
    exact ⟨hmem, (Option.some.inj h).symm⟩
  · cases h

end FailoverState

open FailoverState

/-! ## One provider that nobody probes -/

/-- The configuration has the provider, and not for probing. -/
def Unprobed (p : String) (cfg : Config) : Prop :=
  (cfg.providers.lookup p).isSome ∧ ∀ np ∈ cfg.providers, np.1 = p → np.2.isProbed = false

instance (p : String) (cfg : Config) : Decidable (Unprobed p cfg) :=
  inferInstanceAs (Decidable (_ ∧ _))

/-- A reload that keeps the provider. -/
def Keeps (p : String) : FailoverEvent → Prop
  | .swapped cfg => Unprobed p cfg
  | .retained providers => (providers.lookup p).isSome
  | _ => True

/-- The provider's most recent attempt was accepted. -/
def LastAccepted (p : String) (s : FailoverState) : Prop :=
  ((s.attempts.filter fun a => a.provider = p).getLast?.any UpstreamAttempt.accepted) = true

instance (p : String) (s : FailoverState) : Decidable (LastAccepted p s) :=
  inferInstanceAs (Decidable (_ = true))

/-- The provider is usable, and every chain ranks it as usable: its candidates stand
among the usable ones at the front. -/
def CountsUsable (p : String) (s : FailoverState) : Prop :=
  (∀ provider, s.config.providers.lookup p = some provider →
    isUsable provider (s.status p) = true) ∧
  ∀ requested chain, resolveCandidates s.config s.status [] requested = .ok chain →
    ∀ c ∈ chain, c.providerName = p → c ∈ chain.takeWhile (ranksUsable s.status [])

/-- In every state of a run in which the provider's most recent attempt was accepted,
the provider counts as usable. -/
def Recovers (p : String) (s₀ : FailoverState) (events : List FailoverEvent) : Prop :=
  ∀ before after s, events = before ++ after → Runs.run next s₀ before = some s →
    LastAccepted p s → CountsUsable p s

/-- What holds of an unprobed provider all along a run. -/
structure Marked (p : String) (s : FailoverState) : Prop where
  config : Unprobed p s.config
  snapshots : ∀ cfg ∈ s.snapshots, Unprobed p cfg
  inFlight : ∀ chain ∈ s.inFlight, ∀ c ∈ chain, c.providerName = p → c.provider.isProbed = false
  probes : ∀ np ∈ s.probes, np.1 ≠ p
  unmarked : (∀ a ∈ s.attempts, a.provider = p → a.demotes = false) → s.status p = none
  marked : (∃ a ∈ s.attempts, a.provider = p ∧ a.demotes = true) →
    ∃ st, s.status p = some st ∧ st.available = false

/-- An unprobed provider is not among those a probe is started for. -/
theorem Unprobed.ne_of_mem_watched {p : String} {cfg : Config} (h : Unprobed p cfg)
    {np : String × Provider} (hnp : np ∈ watched cfg.providers) : np.1 ≠ p := by
  intro heq
  obtain ⟨hmem, hprobed⟩ := List.mem_filter.1 hnp
  rw [h.2 np hmem heq] at hprobed
  cases hprobed

theorem marked_start {p : String} {cfg : Config} {status : StatusMap} (hcfg : Unprobed p cfg)
    (hstatus : status p = none) : Marked p (start cfg status) where
  config := hcfg
  snapshots := by simp [start]
  inFlight := by simp [start]
  probes := fun np hnp => hcfg.ne_of_mem_watched hnp
  unmarked := fun _ => hstatus
  marked := by simp [start]

/-- The candidates of an unprobed provider are not probed. -/
theorem Unprobed.candidate {p : String} {cfg : Config} (h : Unprobed p cfg) {status : StatusMap}
    {requested : String} {chain : List Resolved}
    (hchain : resolveCandidates cfg status [] requested = .ok chain) {c : Resolved}
    (hc : c ∈ chain) (hp : c.providerName = p) : c.provider.isProbed = false := by
  obtain ⟨-, raw, -, rfl⟩ := resolveCandidates_eq_ok hchain
  have hlookup := lookup_of_mem_knownCandidates (mem_rank.1 hc)
  rw [hp] at hlookup
  obtain ⟨before, after, hmem, -⟩ := List.lookup_eq_some_iff.1 hlookup
  exact h.2 (p, c.provider) (by simp [hmem]) rfl

/-! ## One event -/

/-- An attempt that demotes moves its request on to the next candidate. -/
theorem onAnswer_of_demotes {s : FailoverState} {k : Nat} {error : Option BridgeError}
    {c : Resolved} {rest : List Resolved}
    (h : (UpstreamAttempt.mk c.providerName error (rest ≠ [])).demotes = true) :
    ∃ e, s.onAnswer k error c rest =
      { s with
        attempts := s.attempts ++ [UpstreamAttempt.mk c.providerName error (rest ≠ [])]
        inFlight := s.inFlight.set k rest
        status := markDegraded c.providerName e s.status
        probes := if c.provider.isProbed then s.probes ++ [(c.providerName, c.provider)]
          else s.probes } := by
  cases error with
  | none => simp [UpstreamAttempt.demotes] at h
  | some e =>
      simp only [UpstreamAttempt.demotes, Option.any_some] at h
      exact ⟨e, by simp only [onAnswer, verdict, h, if_true]⟩

/-- Every other attempt ends its request and leaves the status map alone. -/
theorem onAnswer_of_not_demotes {s : FailoverState} {k : Nat} {error : Option BridgeError}
    {c : Resolved} {rest : List Resolved}
    (h : (UpstreamAttempt.mk c.providerName error (rest ≠ [])).demotes = false) :
    s.onAnswer k error c rest =
      { s with
        attempts := s.attempts ++ [UpstreamAttempt.mk c.providerName error (rest ≠ [])]
        inFlight := s.inFlight.eraseIdx k } := by
  cases error with
  | none => rfl
  | some e =>
      simp only [UpstreamAttempt.demotes, Option.any_some] at h
      simp only [onAnswer, verdict, h, Bool.false_eq_true, if_false]

/-- A chain loses candidates, it never gets new ones. -/
theorem mem_of_mem_set {chains : List (List Resolved)} {k : Nat} {c : Resolved}
    {rest : List Resolved} (hk : chains[k]? = some (c :: rest)) {chain : List Resolved}
    (h : chain ∈ chains.set k rest) : ∃ chain' ∈ chains, ∀ d ∈ chain, d ∈ chain' := by
  rcases List.mem_or_eq_of_mem_set h with h | rfl
  · exact ⟨chain, h, fun d hd => hd⟩
  · exact ⟨c :: chain, List.mem_of_getElem? hk, fun d hd => List.mem_cons_of_mem c hd⟩

/-- An attempt that does not demote leaves every mark as it is. -/
theorem Marked.answer_of_not_demotes {p : String} {s : FailoverState} (h : Marked p s) {k : Nat}
    {c : Resolved} {rest : List Resolved} {error : Option BridgeError}
    (hd : (UpstreamAttempt.mk c.providerName error (rest ≠ [])).demotes = false) :
    Marked p (s.onAnswer k error c rest) := by
  rw [onAnswer_of_not_demotes hd]
  refine ⟨h.config, h.snapshots, ?_, h.probes, ?_, ?_⟩
  · intro chain hchain
    exact h.inFlight chain (List.mem_of_mem_eraseIdx hchain)
  · intro hnone
    exact h.unmarked fun a ha => hnone a (List.mem_append_left _ ha)
  · rintro ⟨a, ha, hp, hdem⟩
    rcases List.mem_append.1 ha with ha | ha
    · exact h.marked ⟨a, ha, hp, hdem⟩
    · rw [List.mem_singleton.1 ha, hd] at hdem
      cases hdem

/-- An attempt that demotes marks its provider and no other. -/
theorem Marked.answer_of_demotes {p : String} {s : FailoverState} (h : Marked p s) {k : Nat}
    {c : Resolved} {rest : List Resolved} (hk : s.inFlight[k]? = some (c :: rest))
    {error : Option BridgeError}
    (hd : (UpstreamAttempt.mk c.providerName error (rest ≠ [])).demotes = true) :
    Marked p (s.onAnswer k error c rest) := by
  obtain ⟨e, heq⟩ := onAnswer_of_demotes (s := s) (k := k) hd
  rw [heq]
  refine ⟨h.config, h.snapshots, ?_, ?_, ?_, ?_⟩
  · intro chain hchain d hdc hp
    obtain ⟨chain', hmem', hsub⟩ := mem_of_mem_set hk hchain
    exact h.inFlight chain' hmem' d (hsub d hdc) hp
  · -- a probe is started for a probed provider only
    intro np hnp
    by_cases hprobed : c.provider.isProbed = true
    · simp only [hprobed, if_true, List.mem_append, List.mem_singleton] at hnp
      rcases hnp with hnp | rfl
      · exact h.probes np hnp
      · intro hp
        have := h.inFlight _ (List.mem_of_getElem? hk) c List.mem_cons_self hp
        rw [hprobed] at this
        cases this
    · simp only [hprobed, if_false, Bool.false_eq_true] at hnp
      exact h.probes np hnp
  · intro hnone
    have hne : c.providerName ≠ p := by
      intro hp
      have := hnone _ (List.mem_append_right _ (List.mem_singleton.2 rfl)) hp
      rw [hd] at this
      cases this
    change Function.update s.status c.providerName _ p = none
    rw [Function.update_of_ne (Ne.symm hne)]
    exact h.unmarked fun a ha => hnone a (List.mem_append_left _ ha)
  · rintro ⟨a, ha, hap, hdem⟩
    by_cases hp : c.providerName = p
    · exact ⟨degraded (s.status c.providerName) e, by simp [markDegraded, hp], rfl⟩
    · -- the attempt was another provider's, so the mark is an old one
      have hold : a ∈ s.attempts := by
        rcases List.mem_append.1 ha with ha | ha
        · exact ha
        · rw [List.mem_singleton.1 ha] at hap
          exact absurd hap hp
      obtain ⟨st, hst, hav⟩ := h.marked ⟨a, hold, hap, hdem⟩
      refine ⟨st, ?_, hav⟩
      change Function.update s.status c.providerName _ p = some st
      rw [Function.update_of_ne (Ne.symm hp), hst]

/-- What an answer does to the mark of an unprobed provider. -/
theorem Marked.answer {p : String} {s : FailoverState} (h : Marked p s) {k : Nat}
    {c : Resolved} {rest : List Resolved} (hk : s.inFlight[k]? = some (c :: rest))
    (error : Option BridgeError) : Marked p (s.onAnswer k error c rest) := by
  cases hd : (UpstreamAttempt.mk c.providerName error (rest ≠ [])).demotes with
  | false => exact h.answer_of_not_demotes hd
  | true => exact h.answer_of_demotes hk hd

/-- **One event.** -/
theorem Marked.next {p : String} {s s' : FailoverState} {ev : FailoverEvent} (hk : Keeps p ev)
    (h : Marked p s) (hnext : next s ev = some s') : Marked p s' := by
  cases ev with
  | enter =>
      cases hnext
      refine ⟨h.config, ?_, h.inFlight, h.probes, h.unmarked, h.marked⟩
      intro cfg hcfg
      rcases List.mem_append.1 hcfg with hcfg | hcfg
      · exact h.snapshots cfg hcfg
      · rw [List.mem_singleton.1 hcfg]
        exact h.config
  | resolve k requested =>
      -- the chain is resolved over the snapshot the request came in with
      obtain ⟨cfg, hcfg, rfl⟩ := Option.map_eq_some_iff.1 hnext
      refine ⟨h.config, ?_, ?_, h.probes, h.unmarked, h.marked⟩
      · exact fun cfg' hcfg' => h.snapshots cfg' (List.mem_of_mem_eraseIdx hcfg')
      · intro chain hchain c hc hp
        rcases List.mem_append.1 hchain with hchain | hchain
        · exact h.inFlight chain hchain c hc hp
        · have hok : resolveCandidates cfg s.status [] requested = .ok chain := by
            cases hres : resolveCandidates cfg s.status [] requested with
            | error e => simp [hres, Except.toOption] at hchain
            | ok chain' => simp_all [Except.toOption]
          exact (h.snapshots cfg (List.mem_of_getElem? hcfg)).candidate hok hc hp
  | answer k error =>
      obtain ⟨c, rest, hchain, rfl⟩ := next_answer hnext
      exact h.answer hchain error
  | probed name provider status =>
      obtain ⟨hmem, rfl⟩ := next_probed hnext
      -- a probe reports on a probed provider, so not on this one
      have hne : p ≠ name := fun heq => h.probes _ hmem heq.symm
      have hsame : Function.update s.status name (some status) p = s.status p :=
        Function.update_of_ne hne _ _
      refine ⟨h.config, h.snapshots, h.inFlight, h.probes, ?_, ?_⟩
      · intro hnone
        exact hsame.trans (h.unmarked hnone)
      · intro hsome
        obtain ⟨st, hst, hav⟩ := h.marked hsome
        exact ⟨st, hsame.trans hst, hav⟩
  | swapped cfg =>
      cases hnext
      refine ⟨hk, h.snapshots, h.inFlight, ?_, h.unmarked, h.marked⟩
      intro np hnp
      rcases List.mem_append.1 hnp with hnp | hnp
      · exact h.probes np hnp
      · exact Unprobed.ne_of_mem_watched hk hnp
  | retained providers =>
      cases hnext
      -- the entry stays, since the new providers include this one
      have hkept : (providers.lookup p).isSome = true := hk
      refine ⟨h.config, h.snapshots, h.inFlight, h.probes, ?_, ?_⟩
      · intro hnone
        simp only [hkept, if_true]
        exact h.unmarked hnone
      · intro hsome
        simp only [hkept, if_true]
        exact h.marked hsome

/-! ## Runs -/

/-- An event adds at most one attempt. -/
theorem attempts_next {s s' : FailoverState} {ev : FailoverEvent} (h : next s ev = some s') :
    s'.attempts = s.attempts ∨ ∃ a, s'.attempts = s.attempts ++ [a] := by
  cases ev with
  | answer k error =>
      obtain ⟨c, rest, -, rfl⟩ := next_answer h
      right
      -- an answer is one attempt, whether it demotes the provider or not
      cases hd : (UpstreamAttempt.mk c.providerName error (rest ≠ [])).demotes with
      | false => exact ⟨_, by rw [onAnswer_of_not_demotes hd]⟩
      | true =>
          obtain ⟨e, heq⟩ := onAnswer_of_demotes (s := s) (k := k) hd
          exact ⟨_, by rw [heq]⟩
  | resolve k requested =>
      obtain ⟨cfg, -, rfl⟩ := Option.map_eq_some_iff.1 h
      exact Or.inl rfl
  | probed name provider status =>
      obtain ⟨-, rfl⟩ := next_probed h
      exact Or.inl rfl
  | enter => cases h; exact Or.inl rfl
  | swapped cfg => cases h; exact Or.inl rfl
  | retained providers => cases h; exact Or.inl rfl

/-- A provider without an entry counts as usable. -/
theorem countsUsable_of_none {p : String} {s : FailoverState} (h : s.status p = none) :
    CountsUsable p s := by
  refine ⟨fun provider _ => by rw [h]; rfl, ?_⟩
  intro requested chain hchain c hc hp
  obtain ⟨-, raw, -, rfl⟩ := resolveCandidates_eq_ok hchain
  rw [takeWhile_rank]
  refine List.mem_filter.2 ⟨mem_rank.1 hc, ?_⟩
  simp [ranksUsable, hp, h, isUsable]

/-- A provider marked unavailable does not. -/
theorem not_countsUsable_of_unavailable {p : String} {s : FailoverState} (hcfg : Unprobed p s.config)
    {st : ProviderStatus} (h : s.status p = some st) (hav : st.available = false) :
    ¬ CountsUsable p s := by
  rintro ⟨husable, -⟩
  obtain ⟨provider, hp⟩ := Option.isSome_iff_exists.1 hcfg.1
  have := husable provider hp
  simp [h, isUsable, hav] at this

/-- The attempts of a run on one provider, none of them accepted behind one that
demoted the provider. -/
def NoReturn (p : String) (attempts : List UpstreamAttempt) : Prop :=
  (attempts.filter fun a => a.provider = p).Pairwise fun a b =>
    a.demotes = true → b.accepted = false

theorem not_demotes_of_accepted {a : UpstreamAttempt} (h : a.accepted = true) :
    a.demotes = false := by
  simp_all [UpstreamAttempt.accepted, UpstreamAttempt.demotes]

section Runs

variable {p : String} {cfg : Config} {status : StatusMap}

/-- The mark after a run from startup. -/
theorem marked_run (hcfg : Unprobed p cfg) (hstatus : status p = none)
    {events : List FailoverEvent} (hkeep : ∀ ev ∈ events, Keeps p ev) {s : FailoverState}
    (hrun : Runs.run next (start cfg status) events = some s) : Marked p s :=
  Runs.run_invariant (Keeps p) (Marked p) (fun _ _ _ hk h hn => h.next hk hn) hkeep
    (marked_start hcfg hstatus) hrun

/-- Attempts are never forgotten. -/
theorem attempts_run {s s' : FailoverState} {events : List FailoverEvent}
    (h : Runs.run next s events = some s') : s.attempts <+: s'.attempts := by
  refine Runs.run_invariant (fun _ => True) (fun t => s.attempts <+: t.attempts) ?_
    (fun _ _ => trivial) List.prefix_rfl h
  intro t ev t' _ hpre hn
  rcases attempts_next hn with heq | ⟨a, heq⟩
  · rwa [heq]
  · rw [heq]
    exact hpre.trans (List.prefix_append _ _)

/-- A provider that was accepted last and did not return from a demotion has no
entry. -/
theorem Marked.status_eq_none {s : FailoverState} (h : Marked p s)
    (hreturn : NoReturn p s.attempts) (hlast : LastAccepted p s) : s.status p = none := by
  obtain ⟨a, ha, hacc⟩ := (Option.any_eq_true _ _).1 hlast
  obtain ⟨before, hsplit⟩ := List.getLast?_eq_some_iff.1 ha
  rw [NoReturn, hsplit, List.pairwise_append] at hreturn
  apply h.unmarked
  intro b hb hp
  have hmem : b ∈ before ++ [a] := by
    rw [← hsplit]
    exact List.mem_filter.2 ⟨hb, by simpa using hp⟩
  rcases List.mem_append.1 hmem with hmem | hmem
  · -- a demotion before the acceptance is what `NoReturn` excludes
    by_contra hd
    have := hreturn.2.2 b hmem a (List.mem_singleton.2 rfl) (by simpa using hd)
    rw [hacc] at this
    cases this
  · rw [List.mem_singleton.1 hmem]
    exact not_demotes_of_accepted hacc

/-- A run in which the provider recovers has no acceptance behind a demotion. -/
theorem noReturn_of_recovers (hcfg : Unprobed p cfg) (hstatus : status p = none)
    {events : List FailoverEvent} (hkeep : ∀ ev ∈ events, Keeps p ev) {s : FailoverState}
    (hrun : Runs.run next (start cfg status) events = some s)
    (hrec : Recovers p (start cfg status) events) : NoReturn p s.attempts := by
  induction events using List.reverseRecOn generalizing s with
  | nil =>
      cases hrun
      exact List.Pairwise.nil
  | append_singleton events ev ih =>
      obtain ⟨t, ht, hnext⟩ := Runs.run_snoc hrun
      have hold : NoReturn p t.attempts := by
        refine ih (fun e he => hkeep e (List.mem_append_left _ he)) ht ?_
        intro before after u hsplit hu
        exact hrec before (after ++ [ev]) u (by simp [hsplit]) hu
      rcases attempts_next hnext with heq | ⟨a, heq⟩
      · rwa [heq]
      · rw [NoReturn, heq, List.filter_append]
        by_cases hp : a.provider = p
        · refine List.pairwise_append.2 ⟨hold, List.pairwise_filter.2 (by simp), ?_⟩
          intro b hb c hc hd
          have hc : c = a := by simpa [hp] using hc
          subst hc
          by_contra hacc
          -- the provider is accepted right after this event, but still marked
          have hlast : LastAccepted p s := by
            simp [LastAccepted, heq, List.filter_append, hp, Bool.of_not_eq_false hacc]
          have hmark := marked_run hcfg hstatus hkeep hrun
          obtain ⟨hb, hbp⟩ := List.mem_filter.1 hb
          obtain ⟨st, hst, hav⟩ := hmark.marked
            ⟨b, by rw [heq]; exact List.mem_append_left _ hb, by simpa using hbp, hd⟩
          exact not_countsUsable_of_unavailable hmark.config hst hav
            (hrec _ [] s (by simp) hrun hlast)
        · simpa [hp, NoReturn] using hold

/-- **When a provider recovers.** Along a run of an unprobed provider without a
status entry, the provider counts as usable whenever its most recent attempt was
accepted, exactly when no attempt on it is accepted behind one that demoted it. -/
theorem recovers_iff (p : String) (cfg : Config) (status : StatusMap) (hcfg : Unprobed p cfg)
    (hstatus : status p = none) (events : List FailoverEvent) (hkeep : ∀ ev ∈ events, Keeps p ev)
    (s : FailoverState) (hrun : Runs.run next (start cfg status) events = some s) :
    Recovers p (start cfg status) events ↔ NoReturn p s.attempts := by
  constructor
  · exact noReturn_of_recovers hcfg hstatus hkeep hrun
  · intro hreturn before after t hsplit ht hlast
    subst hsplit
    obtain ⟨u, hu, hafter⟩ := Runs.run_split hrun
    obtain rfl : u = t := Option.some.inj (hu.symm.trans ht)
    have hmark := marked_run hcfg hstatus (fun ev hev => hkeep ev (List.mem_append_left _ hev)) hu
    have hpre : NoReturn p u.attempts :=
      hreturn.sublist ((attempts_run hafter).sublist.filter _)
    exact countsUsable_of_none (hmark.status_eq_none hpre hlast)

end Runs

/-! ## A walk that nobody disturbs -/

/-- The error of an answer. -/
def errorOf {α : Type} : Except BridgeError α → Option BridgeError
  | .ok _ => none
  | .error e => some e

/-- **The attempts of one request, answered in a row, are the walk of the source**: they
leave its status map and end the request. -/
theorem run_tryFrom {α : Type} (post : Nat → Provider → Value → Except BridgeError α)
    (req : CanonicalRequest) (k : Nat) (cs : List Resolved) (hne : cs ≠ []) (i : Nat)
    (lastErr : Option BridgeError) (s : FailoverState) (hk : s.inFlight[k]? = some cs) :
    ∃ (errors : List (Option BridgeError)) (s' : FailoverState),
      Runs.run next s (errors.map (FailoverEvent.answer k)) = some s' ∧
      s'.status = (tryFrom post req i s.status lastErr cs).2 ∧
      s'.inFlight = s.inFlight.eraseIdx k := by
  induction cs generalizing i lastErr s with
  | nil => exact absurd rfl hne
  | cons c cs ih =>
      have hstep : next s (.answer k (errorOf (answerOf post req i c))) =
          some (s.onAnswer k (errorOf (answerOf post req i c)) c cs) := by
        simp [FailoverState.next, hk]
      cases hans : answerOf post req i c with
      | ok a =>
          -- accepted: the request is over
          refine ⟨[none], _, by simpa [Runs.run_cons, hans, errorOf] using hstep, ?_, ?_⟩
          · simp [tryFrom, hans, onAnswer, verdict]
          · simp [onAnswer, verdict]
      | error e =>
          cases hadv : isRetryable e && decide (cs ≠ []) with
          | false =>
              -- the error ends the request: it is fatal, or nobody is left
              refine ⟨[some e], _, by simpa [Runs.run_cons, hans, errorOf] using hstep, ?_, ?_⟩
              · simp only [tryFrom, hans, onAnswer, verdict, hadv, Bool.false_eq_true, if_false]
              · simp only [onAnswer, verdict, hadv, Bool.false_eq_true, if_false]
          | true =>
              -- the provider is marked, and the rest of the chain is tried in the new
              -- state
              have hcs : cs ≠ [] := by
                rintro rfl
                simp at hadv
              have hlt : k < s.inFlight.length := (List.getElem?_eq_some_iff.1 hk).1
              have hflight : (s.onAnswer k (some e) c cs).inFlight = s.inFlight.set k cs := by
                simp only [onAnswer, verdict, hadv, if_true]
              have hmarked : (s.onAnswer k (some e) c cs).status =
                  markDegraded c.providerName e s.status := by
                simp only [onAnswer, verdict, hadv, if_true]
              rw [hans, errorOf] at hstep
              obtain ⟨errors, s', hrun, hstatus, hrest⟩ := ih hcs (i + 1) (some e)
                (s.onAnswer k (some e) c cs) (by rw [hflight, List.getElem?_set_self hlt])
              refine ⟨some e :: errors, s', ?_, ?_, ?_⟩
              · rw [List.map_cons, Runs.run_cons, hstep]
                exact hrun
              · rw [hstatus, hmarked]
                simp only [tryFrom, hans, verdict, hadv, if_true]
              · rw [hrest, hflight, List.eraseIdx_set_eq]

/-! ## A provider that stays behind -/

/-- A provider with defaults only. -/
def defaultedProvider (baseUrl : String) : Provider :=
  ⟨.openaiChat, baseUrl, none, none, "max_tokens", [], none, none, .path, none, none, none, [], [],
    [], []⟩

/-- One route with one fallback, neither provider probed. -/
def failoverConfig : Config :=
  ⟨"127.0.0.1:8787", "bridge.db", none, none, false,
    [("go", defaultedProvider "https://go"), ("zen", defaultedProvider "https://zen")],
    [⟨"gpt-5.5", "go", "deepseek-v4-pro", [⟨"zen", "gpt-5.5"⟩]⟩], none⟩

/-- Two requests, one after the other: the primary fails and the fallback accepts;
then the fallback fails and the primary accepts as last resort. -/
def failoverAndBack : List FailoverEvent :=
  [.enter, .resolve 0 "gpt-5.5", .answer 0 (some (.upstream 503 "busy")), .answer 0 none,
    .enter, .resolve 0 "gpt-5.5", .answer 0 (some (.upstream 503 "busy")), .answer 0 none]

theorem keeps_failoverAndBack (p : String) : ∀ ev ∈ failoverAndBack, Keeps p ev := by
  simp [failoverAndBack, Keeps]

/-- After the first request the primary has not been accepted since it failed. -/
theorem recovers_iff_firstFailover :
    Recovers "go" (start failoverConfig fun _ => none) (failoverAndBack.take 4) ↔
      NoReturn "go" [⟨"go", some (.upstream 503 "busy"), true⟩, ⟨"zen", none, false⟩] :=
  recovers_iff "go" failoverConfig (fun _ => none) (by decide) rfl (failoverAndBack.take 4)
    (fun ev hev => keeps_failoverAndBack "go" ev (List.mem_of_mem_take hev)) _ rfl

/-- The primary has accepted again, and still counts as unavailable. -/
theorem not_recovers_failoverAndBack :
    Unprobed "go" failoverConfig ∧ (∀ ev ∈ failoverAndBack, Keeps "go" ev) ∧
      ¬ Recovers "go" (start failoverConfig fun _ => none) failoverAndBack := by
  refine ⟨by decide, keeps_failoverAndBack "go", fun hrec => ?_⟩
  have hunusable : ∀ s, Runs.run next (start failoverConfig fun _ => none) failoverAndBack =
      some s → LastAccepted "go" s ∧ isUsable (defaultedProvider "https://go") (s.status "go") =
        false ∧ s.config = failoverConfig := by
    rintro s ⟨⟩
    exact ⟨by decide, by decide, rfl⟩
  obtain ⟨hlast, husable, hcfg⟩ := hunusable _ rfl
  have := (hrec failoverAndBack [] _ (by simp) rfl hlast).1 _ (by rw [hcfg]; rfl)
  rw [husable] at this
  cases this

end AiApiBridge
