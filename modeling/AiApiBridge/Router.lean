import AiApiBridge.Config
import AiApiBridge.Lib.Binary64

/-!
# The router

`resolveCandidates` of `router.rs`: from a model alias to the ordered chain of
candidates. Candidates whose provider is usable come first, the others stay in the
chain as a last resort. The status map is read by provider name only, so it is a
function; the set of exhausted providers is a list of names.
-/

set_option autoImplicit false

namespace AiApiBridge

/-- Runtime watcher state of one provider (`store.rs`). -/
structure ProviderStatus where
  available : Bool
  quotaRemaining : Option FloatValue
  quotaUsed : Option FloatValue
  quotaLimit : Option FloatValue
  lastChecked : Option Int
  lastOk : Bool
  error : Option String
  note : Option String
  deriving DecidableEq, Repr

/-- `ProviderStatus::default()`. -/
def ProviderStatus.new : ProviderStatus := ⟨false, none, none, none, none, false, none, none⟩

/-- The live provider status, by provider name. -/
abbrev StatusMap := String → Option ProviderStatus

/-- One candidate of a chain. -/
structure Resolved where
  providerName : String
  provider : Provider
  upstreamModel : String
  deriving DecidableEq, Repr

namespace Router

/-- A provider is usable unless its status says unavailable or quota-exhausted. -/
def isUsable (provider : Provider) : Option ProviderStatus → Bool
  | none => true
  | some s =>
      s.available && match s.quotaRemaining, provider.quotaMin with
        | some rem, some least => FloatValue.le least rem
        | _, _ => true

/-- The (provider, model) pairs of an alias before the global fallback: the route
with its fallbacks, or the default provider, or nothing. -/
def rawCandidates (cfg : Config) (requested : String) : Except BridgeError (List (String × String)) :=
  match cfg.routes.find? fun r => r.routeAlias = requested with
  | some route =>
      .ok ((route.provider, route.model) :: route.fallback.map fun fb => (fb.provider, fb.model))
  | none =>
      match cfg.defaultProvider with
      | none => .ok []
      -- no route: the default provider, under its prefix unless the model names one
      | some pname =>
          match cfg.providers.lookup pname with
          | none => .error (.internal ("default provider " ++ pname ++ " not configured"))
          | some provider =>
              .ok [(pname, match provider.modelPrefix with
                | some pre => if '/' ∈ requested.toList then requested else pre ++ requested
                | none => requested)]

/-- Append the global fallback route, unless the chain already has it. -/
def withFallbackRoute (cfg : Config) (raw : List (String × String)) : List (String × String) :=
  match cfg.fallbackRoute with
  | some fb => if (fb.provider, fb.model) ∈ raw then raw else raw ++ [(fb.provider, fb.model)]
  | none => raw

/-- The candidates whose providers are configured; the others are dropped. -/
def knownCandidates (cfg : Config) (raw : List (String × String)) : List Resolved :=
  raw.filterMap fun (pname, model) =>
    (cfg.providers.lookup pname).map fun provider => ⟨pname, provider, model⟩

/-- Whether a candidate goes into the first part of the chain. -/
def ranksUsable (status : StatusMap) (costExhausted : List String) (c : Resolved) : Bool :=
  isUsable c.provider (status c.providerName) && !costExhausted.contains c.providerName

/-- The usable candidates, then the degraded ones. -/
def rank (status : StatusMap) (costExhausted : List String) (cs : List Resolved) : List Resolved :=
  cs.filter (ranksUsable status costExhausted) ++
    cs.filter fun c => !ranksUsable status costExhausted c

/-- Resolve an alias to its ordered candidate chain. -/
def resolveCandidates (cfg : Config) (status : StatusMap) (costExhausted : List String)
    (requested : String) : Except BridgeError (List Resolved) := do
  let raw ← rawCandidates cfg requested
  let chain := rank status costExhausted (knownCandidates cfg (withFallbackRoute cfg raw))
  if chain = [] then .error (.unknownModel requested) else .ok chain

/-! ## What a chain is -/

/-- A chain that has been resolved ranks configured candidates. -/
theorem resolveCandidates_eq_ok {cfg : Config} {status : StatusMap} {costExhausted : List String}
    {requested : String} {chain : List Resolved}
    (h : resolveCandidates cfg status costExhausted requested = .ok chain) :
    chain ≠ [] ∧ ∃ raw, rawCandidates cfg requested = .ok raw ∧
      chain = rank status costExhausted (knownCandidates cfg (withFallbackRoute cfg raw)) := by
  cases hraw : rawCandidates cfg requested with
  | error e => simp [resolveCandidates, hraw, bind, Except.bind] at h
  | ok raw =>
      simp only [resolveCandidates, hraw, bind, Except.bind] at h
      split at h
      · cases h
      · rename_i hne
        cases h
        exact ⟨hne, raw, rfl, rfl⟩

/-- A candidate carries the configuration of its provider. -/
theorem lookup_of_mem_knownCandidates {cfg : Config} {raw : List (String × String)} {c : Resolved}
    (h : c ∈ knownCandidates cfg raw) : cfg.providers.lookup c.providerName = some c.provider := by
  obtain ⟨⟨pname, model⟩, -, h⟩ := List.mem_filterMap.1 h
  obtain ⟨provider, hp, rfl⟩ := Option.map_eq_some_iff.1 h
  exact hp

section Ranking

variable {status : StatusMap} {costExhausted : List String} {cs : List Resolved}

theorem mem_rank {c : Resolved} : c ∈ rank status costExhausted cs ↔ c ∈ cs := by
  cases h : ranksUsable status costExhausted c <;> simp [rank, h]

/-- The usable candidates are what a ranked chain begins with. -/
theorem takeWhile_rank :
    (rank status costExhausted cs).takeWhile (ranksUsable status costExhausted) =
      cs.filter (ranksUsable status costExhausted) := by
  rw [rank, List.takeWhile_append_of_pos fun c hc => (List.mem_filter.1 hc).2]
  have hnone : (cs.filter fun c => !ranksUsable status costExhausted c).takeWhile
      (ranksUsable status costExhausted) = [] := by
    cases hd : cs.filter fun c => !ranksUsable status costExhausted c with
    | nil => rfl
    | cons c rest =>
        have hc : c ∈ cs.filter fun c => !ranksUsable status costExhausted c := by simp [hd]
        have := (List.mem_filter.1 hc).2
        simp_all
  rw [hnone, List.append_nil]

/-- What stands before a candidate ranked usable is ranked usable. -/
theorem ranksUsable_of_le {i j : Nat} {c d : Resolved}
    (hi : (rank status costExhausted cs)[i]? = some c)
    (hc : ranksUsable status costExhausted c = true)
    (hj : (rank status costExhausted cs)[j]? = some d) (hji : j ≤ i) :
    ranksUsable status costExhausted d = true := by
  have hlt : i < (cs.filter (ranksUsable status costExhausted)).length := by
    apply Nat.lt_of_not_le
    intro hge
    -- the second part of the chain holds nothing that is ranked usable
    rw [rank, List.getElem?_append_right hge] at hi
    have hback := (List.mem_filter.1 (List.mem_of_getElem? hi)).2
    rw [hc] at hback
    cases hback
  rw [rank, List.getElem?_append_left (Nat.lt_of_le_of_lt hji hlt)] at hj
  exact (List.mem_filter.1 (List.mem_of_getElem? hj)).2

end Ranking

end Router

end AiApiBridge
