import AiApiBridge.Failover
import AiApiBridge.UsageRuns

/-!
# The request cap

Requests on the recorded paths as two atomic steps, the decision which provider
serves and the recording of its usage, in any interleaving. A count limit of a
provider is a gate (`TimedLog.Gate`): the decision reads the window, the recording
comes later. So with `k` requests under way the limit can be passed by `k - 1`, as
long as every decision has another usable provider that accepts (`served_le`).
-/

set_option autoImplicit false

namespace AiApiBridge

open Router Failover TimedLog

/-- The meter, the clock, the requests decided but not recorded with their providers
and models, and the requests recorded so far. -/
structure CapState where
  clock : Int
  meter : UsageMeter
  inFlight : List (String × String)
  served : List ServedRequest

/-- A decision, with the status map it finds and the answers of the upstreams, or the
recording of a request under way. -/
inductive CapEvent where
  | decide (now : Int) (status : StatusMap) (req : CanonicalRequest)
      (post : Nat → Provider → Value → Except BridgeError Unit)
  | record (now : Int) (i : Nat) (cost : Option FloatValue) (pt ct : Option Nat)

namespace CapState

/-- Startup with usage tracking on and nothing recorded. -/
def start (clock : Int) : CapState := ⟨clock, .new, [], []⟩

section Step

variable (cfg : Config)

/-- The chain that a decision walks. -/
def chain (s : CapState) (now : Int) (status : StatusMap) (requested : String) :
    Except BridgeError (List Resolved) :=
  resolveCandidates cfg status (s.meter.exhaustedSet cfg.providers now) requested

/-- The provider and the model that serve a request. -/
def decision (s : CapState) (now : Int) (status : StatusMap) (req : CanonicalRequest)
    (post : Nat → Provider → Value → Except BridgeError Unit) :
    Except BridgeError (String × String) := do
  let candidates ← s.chain cfg now status req.model
  let (provider, model, _) ← (tryFrom post req 0 status none candidates).1
  pure (provider, model)

/-- One event; the clock does not go back. -/
def next (s : CapState) : CapEvent → Option CapState
  -- a decision that fails leaves nothing under way
  | .decide now status req post =>
      if s.clock ≤ now then
        some { s with
          clock := now
          inFlight := s.inFlight ++ (s.decision cfg now status req post).toOption.toList }
      else none
  | .record now i cost pt ct =>
      match s.inFlight[i]? with
      | some (provider, model) =>
          let r : ServedRequest := ⟨now, provider, model, cost, pt, ct⟩
          if s.clock ≤ now then
            some ⟨now, r.recorded cfg s.meter, s.inFlight.eraseIdx i, s.served ++ [r]⟩
          else none
      | none => none

end Step

end CapState

open CapState

/-- At a decision the chain holds a candidate of another provider that is ranked
usable and accepts. -/
def Relieved (cfg : Config) (p : String) (s : CapState) : CapEvent → Prop
  | .decide now status req post => ∀ candidates, s.chain cfg now status req.model = .ok candidates →
      ∃ (i : Nat) (c : Resolved), candidates[i]? = some c ∧ c.providerName ≠ p ∧
        ranksUsable status (s.meter.exhaustedSet cfg.providers now) c = true ∧
        answerOf post req i c = .ok ()
  | .record .. => True

/-- The states of the runs in which at most `k` requests are under way at once and
every decision is relieved. -/
inductive RelievedRun (cfg : Config) (p : String) (k : Nat) (clock : Int) : CapState → Prop where
  | start : RelievedRun cfg p k clock (start clock)
  | step {s s' : CapState} (ev : CapEvent) (before : RelievedRun cfg p k clock s)
      (relieved : Relieved cfg p s ev) (hnext : s.next cfg ev = some s')
      (capacity : s'.inFlight.length ≤ k) : RelievedRun cfg p k clock s'

/-- The requests of a provider recorded in the window of the given length that ends
at `t`. -/
def servedIn (p : String) (length t : Int) (rs : List ServedRequest) : Nat :=
  rs.countP fun r => r.provider = p ∧ t - length < r.time ∧ r.time ≤ t

/-! ## What a decision reads -/

section Count

variable {cfg : Config} {p : String} {provider : Provider}
  (hp : cfg.providers.lookup p = some provider)

include hp

/-- What a window shows as spent of a count: one for every request and spec, as far
as the amounts can count. -/
theorem spent_count {s : Int} (rs : List ServedRequest) (hs : ∀ r ∈ rs, r.time - retainSecs ≤ s) :
    ((since s ((recordAll cfg rs).events p .count)).map Prod.snd).foldl FloatValue.add
        (.finite 0) =
      .finite (min ((servedSince p s rs).length * repeats provider .count) (2 ^ 53) : Nat) := by
  have hlog : (since s ((recordAll cfg rs).events p .count)).map Prod.snd =
      List.replicate ((servedSince p s rs).length * repeats provider .count) (.finite 1) := by
    -- every request of the window is charged as one, once for each spec that counts
    have hcharged : ∀ r ∈ servedSince p s rs,
        r.charged cfg .count = List.replicate (repeats provider .count) (.finite 1) := by
      intro r hr
      have hprovider : r.provider = p := (of_decide_eq_true (List.mem_filter.1 hr).2).1
      have := charged_counting (k := .count) (by decide) r (by rw [hprovider, hp])
        (show 1 ≤ 2 ^ 53 by decide)
      simpa [ServedRequest.units] using this
    rw [since_recordAll cfg p .count rs hs, List.map_flatMap]
    generalize servedSince p s rs = rs at hcharged ⊢
    induction rs with
    | nil => simp
    | cons r rs ih =>
        rw [List.flatMap_cons, ih fun r' hr' => hcharged r' (List.mem_cons_of_mem r hr'),
          hcharged r List.mem_cons_self]
        simp [Nat.succ_mul, Nat.add_comm]
  rw [hlog, FloatValue.foldl_add_ones]

/-- **A provider that is not exhausted** has room in every window of its count. -/
theorem length_servedSince_lt {ws : List UsageWindow} (hspec : UsageSpec.count ws ∈ provider.usage)
    {w : UsageWindow} (hw : w ∈ ws) (hsecs : (w.windowSecs : Int) ≤ retainSecs) {limit : Nat}
    (hlimit : w.limit = .finite limit) (hmax : limit ≤ 2 ^ 53) {rs : List ServedRequest} {now : Int}
    (hnow : ∀ r ∈ rs, r.time ≤ now)
    (hfree : p ∉ (recordAll cfg rs).exhaustedSet cfg.providers now) :
    (servedSince p (now - w.windowSecs) rs).length < limit := by
  have hi64 : asI64 w.windowSecs = w.windowSecs := by
    have hhorizon : retainSecs < 2 ^ 63 := by decide
    exact asI64_of_lt (by omega)
  have hspent := spent_count hp (s := now - w.windowSecs) rs fun r hr => by
    have := hnow r hr
    omega
  have hlisted : 0 < repeats provider .count :=
    List.countP_pos_iff.2 ⟨_, hspec, by simp [UsageSpec.kind]⟩
  apply Nat.lt_of_not_le
  intro hfull
  -- a full window puts the provider into the set
  apply hfree
  obtain ⟨before, after, hmem, -⟩ := List.lookup_eq_some_iff.1 hp
  refine List.mem_map.2 ⟨(p, provider), List.mem_filter.2 ⟨by simp [hmem], ?_⟩, rfl⟩
  refine List.any_eq_true.2 ⟨_, hspec, List.any_eq_true.2 ⟨_, List.mem_map_of_mem hw, ?_⟩⟩
  simp only [UsageMeter.windowStat, UsageSpec.kind, hi64, hspent, hlimit]
  rw [FloatValue.le_max_sub_zero hmax (Nat.min_le_right _ _)]
  have hmul : (servedSince p (now - w.windowSecs) rs).length ≤
      (servedSince p (now - w.windowSecs) rs).length * repeats provider .count :=
    Nat.le_mul_of_pos_right _ hlisted
  exact decide_eq_true (Nat.le_min.2 ⟨Nat.le_trans hfull hmul, hmax⟩)

end Count

/-- A relieved decision serves by a candidate ranked usable. -/
theorem usable_of_decision {cfg : Config} {p : String} {s : CapState} {now : Int}
    {status : StatusMap} {req : CanonicalRequest}
    {post : Nat → Provider → Value → Except BridgeError Unit} {model : String}
    (hrelieved : Relieved cfg p s (.decide now status req post))
    (h : s.decision cfg now status req post = .ok (p, model)) :
    p ∉ s.meter.exhaustedSet cfg.providers now := by
  rw [decision] at h
  cases hchain : s.chain cfg now status req.model with
  | error e => simp [hchain, bind, Except.bind] at h
  | ok candidates =>
      obtain ⟨i, c, hi, hother, husable, haccepts⟩ := hrelieved candidates hchain
      rw [hchain] at h
      cases hwalk : tryFrom post req 0 status none candidates with
      | mk result status' =>
          cases result with
          | error e => simp [hwalk, bind, Except.bind] at h
          | ok served =>
              rcases served with ⟨provider, upstream, _⟩
              simp [hwalk, bind, Except.bind, pure, Except.pure] at h
              rcases h with ⟨rfl, -⟩
              obtain ⟨before, d, after, hsplit, hname, -, -, hnone⟩ := tryFrom_eq_ok hwalk
              have hd : candidates[before.length]? = some d := by
                rw [hsplit]
                simp
              -- the other provider's candidate stands behind the one that serves
              have hle : before.length ≤ i := by
                apply Nat.le_of_not_lt
                intro hlt
                have hbefore : before[i]? = some c := by
                  rwa [hsplit, List.getElem?_append_left hlt] at hi
                obtain ⟨hk, hget⟩ := List.getElem?_eq_some_iff.1 hbefore
                apply hnone i hk ()
                rw [Nat.zero_add, hget]
                exact haccepts
              obtain ⟨-, raw, -, hranked⟩ := resolveCandidates_eq_ok hchain
              rw [hranked] at hi hd
              have := ranksUsable_of_le hi husable hd hle
              rw [ranksUsable, hname] at this
              simpa using (Bool.and_eq_true_iff.1 this).2

/-! ## The gate of a limit -/

/-- A provider's requests, seen by the gate of its limit. -/
def CapState.gate (p : String) (s : CapState) : Gate :=
  ⟨s.clock, (s.served.filter fun r => r.provider = p).map ServedRequest.time,
    s.inFlight.countP fun entry => entry.1 = p⟩

theorem countSince_gate (p : String) (s : CapState) (t : Int) :
    (s.gate p).countSince t = (servedSince p t s.served).length := by
  rw [Gate.countSince, CapState.gate, List.countP_map, List.countP_filter, servedSince,
    ← List.countP_eq_length_filter]
  apply List.countP_congr
  intro r _
  simp [and_comm]

theorem countIn_gate (p : String) (s : CapState) (length t : Int) :
    (s.gate p).countIn length t = servedIn p length t s.served := by
  rw [Gate.countIn, CapState.gate, List.countP_map, List.countP_filter, servedIn]
  apply List.countP_congr
  intro r _
  simp [and_comm]

/-- What a decision adds to the gate: one request under way, if it is for the provider. -/
theorem gate_decided (p : String) (s : CapState) (now : Int) (entry : Option (String × String)) :
    CapState.gate p ⟨now, s.meter, s.inFlight ++ entry.toList, s.served⟩ =
      ⟨now, (s.gate p).logged,
        (s.gate p).pending + entry.toList.countP fun entry => entry.1 = p⟩ := by
  simp [CapState.gate, List.countP_append]

/-- The provider and the time of the requests: what a recording adds to the gate. -/
theorem gate_recorded (p : String) {s : CapState} (now : Int) {i : Nat} {q model : String}
    (hi : s.inFlight[i]? = some (q, model)) (m : UsageMeter) (cost : Option FloatValue)
    (pt ct : Option Nat) :
    let s' : CapState := ⟨now, m, s.inFlight.eraseIdx i, s.served ++ [⟨now, q, model, cost, pt, ct⟩]⟩
    if q = p then
      (s'.gate p).logged = (s.gate p).logged ++ [now] ∧
        (s.gate p).pending = (s'.gate p).pending + 1
    else (s'.gate p).logged = (s.gate p).logged ∧ (s'.gate p).pending = (s.gate p).pending := by
  obtain ⟨hlt, hget⟩ := List.getElem?_eq_some_iff.1 hi
  have hcount : s.inFlight.countP (fun entry => entry.1 = p) =
      (s.inFlight.eraseIdx i).countP (fun entry => entry.1 = p) + if q = p then 1 else 0 := by
    rw [← (List.getElem_cons_eraseIdx_perm hlt).countP_eq, List.countP_cons, hget]
    simp
  by_cases hq : q = p
  · simp only [if_pos hq] at hcount ⊢
    refine ⟨?_, hcount⟩
    simp [CapState.gate, List.filter_append, hq]
  · simp only [if_neg hq] at hcount ⊢
    refine ⟨?_, hcount.symm⟩
    simp [CapState.gate, List.filter_append, hq]

/-- What holds along a run of relieved decisions. -/
structure CapInv (cfg : Config) (p : String) (length : Int) (limit k : Nat) (s : CapState) :
    Prop where
  meter : s.meter = recordAll cfg s.served
  times : ∀ r ∈ s.served, r.time ≤ s.clock
  capped : Gate.Capped length limit k (s.gate p)

/-- A recording logs a request that is under way, or it is for another provider. -/
theorem CapInv.recorded {cfg : Config} {p : String} {length : Int} {limit k : Nat} {s : CapState}
    (h : CapInv cfg p length limit k s) {now : Int} (hclock : s.clock ≤ now) {i : Nat}
    {q model : String} (hi : s.inFlight[i]? = some (q, model)) (cost : Option FloatValue)
    (pt ct : Option Nat) :
    CapInv cfg p length limit k
      ⟨now, ServedRequest.recorded cfg s.meter ⟨now, q, model, cost, pt, ct⟩,
        s.inFlight.eraseIdx i, s.served ++ [⟨now, q, model, cost, pt, ct⟩]⟩ where
  meter := by rw [recordAll, List.foldl_concat, ← recordAll, ← h.meter]
  times := by
    intro r hr
    rcases List.mem_append.1 hr with hr | hr
    · exact Int.le_trans (h.times r hr) hclock
    · rw [List.mem_singleton.1 hr]
  capped := by
    -- for the gate of this provider the other requests are waiting time
    have hgate := gate_recorded p now hi
      (ServedRequest.recorded cfg s.meter ⟨now, q, model, cost, pt, ct⟩) cost pt ct
    by_cases hq : q = p
    · simp only [if_pos hq] at hgate
      have hstep := h.capped.step (.log hclock _ hgate.2)
      rw [← hgate.1] at hstep
      exact hstep
    · simp only [if_neg hq] at hgate
      have hstep := h.capped.step (.wait hclock)
      rw [← hgate.1, ← hgate.2] at hstep
      exact hstep

section Limit

variable {cfg : Config} {p : String} {provider : Provider}
  (hp : cfg.providers.lookup p = some provider) {ws : List UsageWindow}
  (hspec : UsageSpec.count ws ∈ provider.usage) {w : UsageWindow} (hw : w ∈ ws)
  (hsecs : (w.windowSecs : Int) ≤ retainSecs) {limit : Nat} (hlimit : w.limit = .finite limit)
  (hmax : limit ≤ 2 ^ 53) {k : Nat}

include hp hspec hw hsecs hlimit hmax

/-- A relieved decision takes the provider only when the gate accepts. -/
theorem CapInv.decided {s : CapState} (h : CapInv cfg p w.windowSecs limit k s) {now : Int}
    (hclock : s.clock ≤ now) {status : String → Option ProviderStatus} {req : CanonicalRequest}
    {post : Nat → Provider → Value → Except BridgeError Unit}
    (hrelieved : Relieved cfg p s (.decide now status req post))
    (hcapacity : (s.inFlight ++ (s.decision cfg now status req post).toOption.toList).length ≤ k) :
    CapInv cfg p w.windowSecs limit k { s with
      clock := now
      inFlight := s.inFlight ++ (s.decision cfg now status req post).toOption.toList } := by
  refine ⟨h.meter, fun r hr => Int.le_trans (h.times r hr) hclock, ?_⟩
  have hgate := gate_decided p s now (s.decision cfg now status req post).toOption
  refine hgate ▸ ?_
  cases hdecision : s.decision cfg now status req post with
  | error e => exact h.capped.step (.wait hclock)
  | ok entry =>
      rcases entry with ⟨q, model⟩
      by_cases hq : q = p
      · -- the provider is ranked usable, so its window is below the limit
        subst hq
        have hfree := usable_of_decision hrelieved hdecision
        rw [h.meter] at hfree
        have hbelow := length_servedSince_lt hp hspec hw hsecs hlimit hmax
          (fun r hr => Int.le_trans (h.times r hr) hclock) hfree
        rw [← countSince_gate] at hbelow
        have hfits : (s.gate q).pending + 1 ≤ k := by
          refine Nat.le_trans ?_ hcapacity
          rw [hdecision]
          simp only [Except.toOption, Option.toList, List.length_append]
          exact Nat.add_le_add_right List.countP_le_length 1
        simpa [Except.toOption] using h.capped.step (.accept hclock hbelow hfits)
      · simpa [Except.toOption, hq] using h.capped.step (.wait hclock)

/-- **One event is one step of the gate.** -/
theorem CapInv.next {s s' : CapState} {ev : CapEvent}
    (h : CapInv cfg p w.windowSecs limit k s) (hrelieved : Relieved cfg p s ev)
    (hnext : s.next cfg ev = some s') (hcapacity : s'.inFlight.length ≤ k) :
    CapInv cfg p w.windowSecs limit k s' := by
  cases ev with
  | decide now status req post =>
      simp only [CapState.next] at hnext
      split at hnext
      · rename_i hclock
        cases hnext
        exact h.decided hp hspec hw hsecs hlimit hmax hclock hrelieved hcapacity
      · cases hnext
  | record now i cost pt ct =>
      simp only [CapState.next] at hnext
      split at hnext
      · rename_i q model hi
        split at hnext
        · rename_i hclock
          cases hnext
          exact h.recorded hclock hi cost pt ct
        · cases hnext
      · cases hnext

end Limit

/-- **The cap.** In every run in which at most `k` requests are under way and every
decision is relieved, each window of the length of the limit holds at most
`limit + k - 1` requests of the provider. -/
theorem served_le (cfg : Config) (p : String) (provider : Provider)
    (hp : cfg.providers.lookup p = some provider) (ws : List UsageWindow)
    (hspec : UsageSpec.count ws ∈ provider.usage) (w : UsageWindow) (hw : w ∈ ws)
    (hsecs : (w.windowSecs : Int) ≤ retainSecs) (limit : Nat) (hlimit : w.limit = .finite limit)
    (hmax : limit ≤ 2 ^ 53) (k : Nat) (clock : Int) (s : CapState)
    (hrun : RelievedRun cfg p k clock s) (t : Int) :
    servedIn p w.windowSecs t s.served ≤ limit + k - 1 := by
  have hinv : CapInv cfg p w.windowSecs limit k s := by
    induction hrun with
    | start => exact ⟨rfl, fun _ hr => absurd hr List.not_mem_nil, Gate.capped_start clock⟩
    | step ev before relieved hnext capacity ih =>
        exact ih.next hp hspec hw hsecs hlimit hmax relieved hnext capacity
  rw [← countIn_gate]
  exact hinv.capped.window t

/-! ## A limit beyond the integers of the amounts -/

/-- A provider with nothing but a request limit. -/
def cappedProvider (baseUrl : String) (usage : List UsageSpec) : Provider :=
  ⟨.openaiChat, baseUrl, none, none, "max_tokens", [], none, none, .path, none, none, none,
    [], [], usage, []⟩

/-- The window of a request limit per hour. -/
def hourly (limit : Nat) : UsageWindow := ⟨"1h", 3600, .finite limit⟩

/-- A route whose primary has the limit, and a fallback without one. -/
def capConfig (limit : Nat) : Config :=
  ⟨"127.0.0.1:8787", "bridge.db", none, none, true,
    [("go", cappedProvider "https://go" [.count [hourly limit]]),
      ("zen", cappedProvider "https://zen" [])],
    [⟨"gpt-5.5", "go", "deepseek-v4-pro", [⟨"zen", "gpt-5.5"⟩]⟩], none⟩

/-- A request for the route, with defaults only. -/
def capRequest : CanonicalRequest :=
  ⟨"gpt-5.5", none, [], [], .auto, none, none, none, none, none, false⟩

/-- Every upstream accepts. -/
def acceptAll : Nat → Provider → Value → Except BridgeError Unit := fun _ _ _ => .ok ()

/-- The decision about one request at the start of the clock. -/
def decideEvent : CapEvent := .decide 0 (fun _ => none) capRequest acceptAll

def recordEvent : CapEvent := .record 0 0 none none none

/-- The recorded requests of the primary. -/
def goRequest : ServedRequest := ⟨0, "go", "deepseek-v4-pro", none, none, none⟩

/-- `n` requests served by the primary, all at the same time. -/
def afterRequests (limit n : Nat) : CapState :=
  ⟨0, recordAll (capConfig limit) (List.replicate n goRequest), [], List.replicate n goRequest⟩

/-- The chain of the route while nothing is exhausted. -/
def capChain (limit : Nat) : List Resolved :=
  [⟨"go", cappedProvider "https://go" [.count [hourly limit]], "deepseek-v4-pro"⟩,
    ⟨"zen", cappedProvider "https://zen" [], "gpt-5.5"⟩]

theorem chain_afterRequests {limit n : Nat}
    (hroom : (afterRequests limit n).meter.exhaustedSet (capConfig limit).providers 0 = []) :
    (afterRequests limit n).chain (capConfig limit) 0 (fun _ => none) "gpt-5.5" =
      .ok (capChain limit) := by
  rw [chain, hroom]
  rfl

/-- As long as there is room, one request after the other goes to the primary. -/
theorem relievedRun_afterRequests {limit : Nat} (n : Nat)
    (hroom : ∀ m < n,
      (afterRequests limit m).meter.exhaustedSet (capConfig limit).providers 0 = []) :
    RelievedRun (capConfig limit) "go" 1 0 (afterRequests limit n) := by
  induction n with
  | zero => exact .start
  | succ n ih =>
      have hbefore := ih fun m hm => hroom m (Nat.lt_succ_of_lt hm)
      have hn := hroom n (Nat.lt_succ_self n)
      have hchain := chain_afterRequests hn
      -- the limit is not reached, so the primary serves again
      have hdecision : (afterRequests limit n).decision (capConfig limit) 0 (fun _ => none)
          capRequest acceptAll = .ok ("go", "deepseek-v4-pro") := by
        rw [decision, show capRequest.model = "gpt-5.5" from rfl, hchain]
        rfl
      have hrelieved : Relieved (capConfig limit) "go" (afterRequests limit n) decideEvent := by
        intro candidates hcandidates
        rw [show capRequest.model = "gpt-5.5" from rfl, hchain] at hcandidates
        cases hcandidates
        refine ⟨1, _, rfl, by decide, ?_, rfl⟩
        rw [hn]
        rfl
      have hdecided : RelievedRun (capConfig limit) "go" 1 0 ⟨0, (afterRequests limit n).meter,
          [("go", "deepseek-v4-pro")], (afterRequests limit n).served⟩ :=
        .step decideEvent hbefore hrelieved
          (by simp only [decideEvent, CapState.next, hdecision]; rfl) (Nat.le_refl 1)
      have hrecorded := RelievedRun.step recordEvent hdecided trivial rfl (Nat.zero_le 1)
      have hsnoc : (afterRequests limit (n + 1)) = ⟨0,
          goRequest.recorded (capConfig limit) (afterRequests limit n).meter, [],
          (afterRequests limit n).served ++ [goRequest]⟩ := by
        simp only [afterRequests, List.replicate_succ', recordAll, List.foldl_concat]
      rw [hsnoc]
      exact hrecorded

/-- A run with one request, and room for two in each hour. -/
theorem served_le_oneRequest : servedIn "go" 3600 10 (afterRequests 2 1).served ≤ 2 + 1 - 1 :=
  served_le (capConfig 2) "go" (cappedProvider "https://go" [.count [hourly 2]]) rfl [hourly 2]
    (by decide) (hourly 2) (by decide) (by decide) 2 rfl (by decide) 1 0 (afterRequests 2 1)
    (relievedRun_afterRequests 1 fun m hm => by
      obtain rfl : m = 0 := by omega
      decide +kernel) 10

/-- The amounts cannot count to this limit. -/
def unreachableLimit : Nat := 2 ^ 53 + 2

/-- Whatever the amounts add up to, the limit leaves room. -/
theorem not_le_max_sub_unreachable {m : Nat} (h : m ≤ 2 ^ 53) :
    FloatValue.le (FloatValue.max (FloatValue.sub (.finite unreachableLimit) (.finite m))
      (.finite 0)) (.finite 0) = false := by
  match m, h with
  | 0, _ => decide +kernel
  | 1, _ => decide +kernel
  | m + 2, h =>
      -- what is left is a positive integer within `2 ^ 53`
      have hsub : FloatValue.sub (.finite unreachableLimit) (.finite (m + 2 : Nat)) =
          .finite ((2 ^ 53 - m : Nat)) := by
        rw [FloatValue.sub, FloatValue.neg, FloatValue.add,
          ← FloatValue.toBinary64_natCast (Nat.sub_le _ _), unreachableLimit, Nat.cast_sub (by omega)]
        push_cast
        congr 1
        ring
      have hpos : ¬ ((2 ^ 53 - m : Nat) : Rat) ≤ 0 := by
        rw [not_le]
        exact_mod_cast (show 0 < 2 ^ 53 - m by omega)
      rw [hsub]
      simp only [FloatValue.max, FloatValue.le, hpos, decide_false, Bool.false_eq_true, if_false]

theorem exhaustedSet_unreachable (n : Nat) :
    (afterRequests unreachableLimit n).meter.exhaustedSet (capConfig unreachableLimit).providers 0 =
      [] := by
  have hspent := spent_count
    (show (capConfig unreachableLimit).providers.lookup "go" = some _ from rfl) (s := 0 - 3600)
    (List.replicate n goRequest) fun r hr => by
      rw [List.eq_of_mem_replicate hr]
      decide
  have hgo : (afterRequests unreachableLimit n).meter.exhausted "go"
      [.count [hourly unreachableLimit]] 0 = false := by
    simp only [UsageMeter.exhausted, UsageMeter.windows, UsageSpec.kind, UsageSpec.windows,
      List.map_cons, List.map_nil, List.any_cons, List.any_nil, Bool.or_false]
    simp only [UsageMeter.windowStat, hourly, show asI64 3600 = 3600 by decide, afterRequests,
      hspent]
    exact not_le_max_sub_unreachable (Nat.min_le_right _ _)
  simp only [UsageMeter.exhaustedSet, capConfig, cappedProvider, List.filter_cons, hgo]
  rfl

/-- One request after the other, the primary serves more than its limit in an hour. -/
theorem not_served_le_unreachable :
    RelievedRun (capConfig unreachableLimit) "go" 1 0
        (afterRequests unreachableLimit (unreachableLimit + 1)) ∧
      1 ≤ unreachableLimit ∧
      ¬ servedIn "go" 3600 0 (afterRequests unreachableLimit (unreachableLimit + 1)).served ≤
        unreachableLimit + 1 - 1 := by
  refine ⟨relievedRun_afterRequests _ fun m _ => exhaustedSet_unreachable m, by decide, ?_⟩
  have hcount : servedIn "go" 3600 0 (afterRequests unreachableLimit (unreachableLimit + 1)).served =
      unreachableLimit + 1 := by
    rw [servedIn, afterRequests, List.countP_replicate, if_pos (by decide)]
  rw [hcount]
  omega

end AiApiBridge
