import AiApiBridge.Lib.MonotoneSums
import AiApiBridge.UsageRestart

/-!
# How usage wears off

Time goes by and nothing is recorded. Whatever a meter has recorded, over any number of restarts,
what a window reports as spent can only go down, and the sums are rounded ones (`relaxes`). A
window changes next when it says so, and a provider that is exhausted stops being it at one moment
and for good, until it serves again (`exhaustion_ends`).
-/

set_option autoImplicit false

namespace AiApiBridge

open Usage TimedLog FloatValue Store

/-! ## What a log holds -/

theorem zero_le_of_recordable {a : FloatValue} (h : recordable a = true) :
    le (.finite 0) a = true := by
  rw [recordable, Bool.and_eq_true] at h
  obtain ⟨hfinite, hpositive⟩ := h
  refine zero_le_of_not_le ?_ (by simpa using hpositive)
  rintro rfl
  cases hfinite

/-- Only what `record` takes is in the logs and in the table. -/
structure OnlyRecordable (s : UsageState) : Prop where
  logs : ∀ p k, ∀ e ∈ s.meter.events p k, recordable e.2 = true
  rows : ∀ r ∈ s.table, recordable r.amount = true

theorem recordable_of_entryFor {p : String} {k : UsageKind} {r : UsageRow} {e : Int × FloatValue}
    (h : r.entryFor p k = some e) : e.2 = r.amount := by
  rw [UsageRow.entryFor] at h
  split at h
  · cases h
    rfl
  · cases h

theorem onlyRecordable_of_life {rs : List UsageRecord} {clock : Int} {s : UsageState}
    (h : UsageState.Life rs clock s) : OnlyRecordable s := by
  induction h with
  | new clock =>
      exact ⟨fun _ _ e he => absurd he List.not_mem_nil, fun r hr => absurd hr List.not_mem_nil⟩
  | @recorded rs clock s r _ _ ih =>
      refine ⟨?_, ?_⟩
      · intro p k e he
        change e ∈ (s.meter.recordCall r).events p k at he
        rw [events_recordCall] at he
        split at he
        · rename_i hadds
          rcases List.mem_append.1 (List.mem_of_mem_filter he) with hold | hnew
          · exact ih.logs p k e hold
          · rw [List.mem_singleton.1 hnew]
            rw [UsageRecord.addsTo, Bool.and_eq_true] at hadds
            exact hadds.2
        · exact ih.logs p k e he
      · intro row hrow
        change row ∈ (if recordable r.amount then _ else s.table) at hrow
        split at hrow
        · rcases List.mem_append.1 hrow with hold | hnew
          · exact ih.rows row hold
          · rw [List.mem_singleton.1 hnew]
            assumption
        · exact ih.rows row hrow
  | @restarted rs clock now s s' _ _ hrestart ih =>
      obtain ⟨htable, events, ⟨hselected, -⟩, hmeter⟩ := hrestart
      have hrows : ∀ row ∈ s'.table, recordable row.amount = true := by
        intro row hrow
        rw [htable] at hrow
        exact ih.rows row (List.mem_of_mem_filter hrow)
      refine ⟨?_, hrows⟩
      intro p k e he
      rw [hmeter] at he
      -- a new log is sorted from the rows that were selected
      have hloaded := (List.mergeSort_perm _ _).mem_iff.1 he
      rw [List.mem_append] at hloaded
      rcases hloaded with hnone | hentry
      · exact absurd hnone List.not_mem_nil
      · obtain ⟨row, hrow, hentry⟩ := List.mem_filterMap.1 hentry
        rw [recordable_of_entryFor hentry]
        exact hrows row (List.mem_of_mem_filter (hselected.mem_iff.1 hrow))

/-! ## One window -/

/-- A window at a time and later, while nothing is recorded. -/
structure Relaxes (log : UsageLog) (w : UsageWindow) (t : Int) : Prop where
  spent : ∀ t', t ≤ t' → le (UsageMeter.windowStat log t' w).spent
    (UsageMeter.windowStat log t w).spent = true
  remaining : ∀ t', t ≤ t' → le (UsageMeter.windowStat log t w).remaining
    (UsageMeter.windowStat log t' w).remaining = true
  /-- Until the time it tells, a window stays the same. -/
  steady : ∀ t', t ≤ t' → t' < t + (UsageMeter.windowStat log t w).resetInSecs →
    (UsageMeter.windowStat log t' w).spent = (UsageMeter.windowStat log t w).spent
  /-- And then it holds less. -/
  expires : since (t - w.windowSecs) log ≠ [] →
    (since (t + (UsageMeter.windowStat log t w).resetInSecs - w.windowSecs) log).length <
      (since (t - w.windowSecs) log).length

section Window

variable {log : UsageLog} {w : UsageWindow} {t t' : Int}

theorem since_sublist {s s' : Int} (h : s ≤ s') (log : UsageLog) :
    (since s' log).Sublist (since s log) := by
  rw [← since_since h log]
  exact List.filter_sublist

theorem zero_le_spent (hlog : ∀ e ∈ log, recordable e.2 = true) (t : Int) :
    le (.finite 0) (UsageMeter.windowStat log t w).spent = true := by
  apply zero_le_foldl_add
  · intro x hx
    obtain ⟨e, he, rfl⟩ := List.mem_map.1 hx
    exact zero_le_of_recordable (hlog e (List.mem_of_mem_filter he))
  · exact le_refl_of_ne_nan (by simp)

/-- A later window holds no more, so its sum is no greater. -/
theorem spent_antitone (hlog : ∀ e ∈ log, recordable e.2 = true) (h : t ≤ t') :
    le (UsageMeter.windowStat log t' w).spent (UsageMeter.windowStat log t w).spent = true := by
  have hsub := (since_sublist (show t - asI64 w.windowSecs ≤ t' - asI64 w.windowSecs by omega)
    log).map Prod.snd
  refine foldl_add_le_of_sublist hsub ?_ ?_ ?_ ?_
  · intro x hx
    obtain ⟨e, he, rfl⟩ := List.mem_map.1 hx
    exact zero_le_of_recordable (hlog e (List.mem_of_mem_filter he))
  · exact le_refl_of_ne_nan (by simp)
  · exact le_refl_of_ne_nan (by simp)
  · exact isValue_toBinary64 0

theorem remaining_monotone (hlog : ∀ e ∈ log, recordable e.2 = true) (h : t ≤ t') :
    le (UsageMeter.windowStat log t w).remaining (UsageMeter.windowStat log t' w).remaining =
      true :=
  remainder_antitone (zero_le_spent hlog t') (spent_antitone hlog h)

/-- The time a window tells is the time its oldest event leaves it. -/
theorem resetInSecs_of_cons {e : Int × FloatValue} {rest : UsageLog}
    (h : since (t - asI64 w.windowSecs) log = e :: rest) :
    (UsageMeter.windowStat log t w).resetInSecs = e.1 + asI64 w.windowSecs - t := by
  have hmem : e ∈ since (t - asI64 w.windowSecs) log := by
    rw [h]
    exact List.mem_cons_self
  have hlate := of_decide_eq_true (List.mem_filter.1 hmem).2
  have hstat : (UsageMeter.windowStat log t w).resetInSecs =
      max (e.1 + asI64 w.windowSecs - t) 0 := by
    rw [UsageMeter.windowStat, h]
    rfl
  rw [hstat]
  omega

theorem since_eq_of_lt_reset (hascending : log.Pairwise fun e e' => e.1 ≤ e'.1) (h : t ≤ t')
    (hreset : t' < t + (UsageMeter.windowStat log t w).resetInSecs) :
    since (t' - asI64 w.windowSecs) log = since (t - asI64 w.windowSecs) log := by
  rw [← since_since (show t - asI64 w.windowSecs ≤ t' - asI64 w.windowSecs by omega) log]
  cases hinside : since (t - asI64 w.windowSecs) log with
  | nil => rfl
  | cons e rest =>
      rw [resetInSecs_of_cons hinside] at hreset
      -- the oldest event is still inside, and so are all others
      have hsorted : (e :: rest).Pairwise fun e e' => e.1 ≤ e'.1 := by
        rw [← hinside]
        exact hascending.sublist List.filter_sublist
      rw [since, List.filter_eq_self]
      intro e' he'
      apply decide_eq_true
      rcases List.mem_cons.1 he' with rfl | hrest
      · omega
      · have := List.rel_of_pairwise_cons hsorted hrest
        omega

theorem relaxes (hlog : ∀ e ∈ log, recordable e.2 = true)
    (hascending : log.Pairwise fun e e' => e.1 ≤ e'.1) {w : UsageWindow} (hw : w.InRange)
    (t : Int) : Relaxes log w t where
  spent := fun t' h => spent_antitone hlog h
  remaining := fun t' h => remaining_monotone hlog h
  steady := by
    intro t' h hreset
    rw [UsageMeter.windowStat, UsageMeter.windowStat, since_eq_of_lt_reset hascending h hreset]
  expires := by
    rw [← hw.asI64]
    intro hne
    cases hinside : since (t - asI64 w.windowSecs) log with
    | nil => exact absurd hinside hne
    | cons e rest =>
        rw [resetInSecs_of_cons hinside]
        have hsub : (since (t + (e.1 + asI64 w.windowSecs - t) - asI64 w.windowSecs) log).Sublist
            rest := by
          have hmem : e ∈ since (t - asI64 w.windowSecs) log := by
            rw [hinside]
            exact List.mem_cons_self
          have hlate := of_decide_eq_true (List.mem_filter.1 hmem).2
          rw [← since_since (show t - asI64 w.windowSecs ≤
            t + (e.1 + asI64 w.windowSecs - t) - asI64 w.windowSecs by omega) log, hinside, since,
            List.filter_cons_of_neg (by simp)]
          exact List.filter_sublist
        exact Nat.lt_succ_of_le hsub.length_le

end Window

/-! ## Providers -/

section Exhausted

variable {m : UsageMeter} {p : String} {specs : List UsageSpec} {clock t t' : Int}

theorem exhausted_iff : m.exhausted p specs t = true ↔ ∃ spec ∈ specs, ∃ w ∈ spec.windows,
    le (UsageMeter.windowStat (m.events p spec.kind) t w).remaining (.finite 0) = true := by
  simp only [UsageMeter.exhausted, UsageMeter.windows, List.any_eq_true, List.mem_map]
  constructor
  · rintro ⟨spec, hspec, -, ⟨w, hw, rfl⟩, hle⟩
    exact ⟨spec, hspec, w, hw, hle⟩
  · rintro ⟨spec, hspec, w, hw, hle⟩
    exact ⟨spec, hspec, _, ⟨w, hw, rfl⟩, hle⟩

/-- Nobody gets exhausted by waiting. -/
theorem exhausted_antitone (hlogs : ∀ p k, ∀ e ∈ m.events p k, recordable e.2 = true)
    (h : t ≤ t') (hlater : m.exhausted p specs t' = true) : m.exhausted p specs t = true := by
  obtain ⟨spec, hspec, w, hw, hle⟩ := exhausted_iff.1 hlater
  exact exhausted_iff.2 ⟨spec, hspec, w, hw,
    le_trans (remaining_monotone (hlogs p spec.kind) h) hle⟩

theorem exhaustedSet_sublist (hlogs : ∀ p k, ∀ e ∈ m.events p k, recordable e.2 = true)
    (h : t ≤ t') (providers : List (String × Provider)) :
    (m.exhaustedSet providers t').Sublist (m.exhaustedSet providers t) := by
  refine List.Sublist.map _ (List.monotone_filter_right providers ?_)
  rintro ⟨name, provider⟩ hlater
  exact exhausted_antitone hlogs h hlater

/-- A limit that leaves something as long as nothing is spent, over at most `longest` seconds. -/
structure Lenient (longest : Nat) (w : UsageWindow) : Prop where
  value : IsValue w.limit
  positive : lt (.finite 0) w.limit = true
  inRange : w.InRange
  secs : w.windowSecs ≤ longest

/-- Once every window has passed the last record, nothing is spent. -/
theorem not_exhausted_of_passed {longest : Nat}
    (hpast : ∀ p k, ∀ e ∈ m.events p k, e.1 ≤ clock)
    (hlimits : ∀ spec ∈ specs, ∀ w ∈ spec.windows, Lenient longest w)
    (h : clock + longest ≤ t) : m.exhausted p specs t = false := by
  rw [Bool.eq_false_iff]
  intro hexhausted
  obtain ⟨spec, hspec, w, hw, hle⟩ := exhausted_iff.1 hexhausted
  obtain ⟨hvalue, hpositive, hrange, hsecs⟩ := hlimits spec hspec w hw
  have hempty : since (t - asI64 w.windowSecs) (m.events p spec.kind) = [] := by
    rw [since, List.filter_eq_nil_iff]
    intro e he
    have := hpast p spec.kind e he
    simp only [hrange.asI64, decide_eq_true_eq, not_lt]
    omega
  rw [UsageMeter.windowStat, hempty] at hle
  have hleft := remainder_zero hvalue hpositive
  rw [show le (FloatValue.max (sub w.limit (.finite 0)) (.finite 0)) (.finite 0) = true from hle]
    at hleft
  cases hleft

/-- What never comes back once it has gone, and has gone by some time, goes at one moment. -/
theorem exists_moment {holds : Int → Bool} {start : Int} {length : Nat}
    (hanti : ∀ t t', start ≤ t → t ≤ t' → holds t' = true → holds t = true)
    (hgone : holds (start + length) = false) :
    ∃ moment ≤ start + length, ∀ t, start ≤ t → (holds t = true ↔ t < moment) := by
  have hexists : ∃ n : Nat, holds (start + n) = false := ⟨length, hgone⟩
  have hfirst := Nat.find_spec hexists
  refine ⟨start + Nat.find hexists, ?_, ?_⟩
  · have := Nat.find_min' hexists hgone
    omega
  · intro t ht
    constructor
    · intro hholds
      by_contra hlate
      have hback := hanti (start + Nat.find hexists) t (by omega) (by omega) hholds
      rw [hfirst] at hback
      cases hback
    · intro hbefore
      obtain ⟨n, hn⟩ : ∃ n : Nat, t = start + n := ⟨(t - start).toNat, by omega⟩
      have hnot := Nat.find_min hexists (show n < Nat.find hexists by omega)
      rw [hn]
      exact Bool.not_eq_false _ |>.mp hnot

end Exhausted

/-- **Exhaustion ends by itself.** From the clock of any life of a meter on, as long as nothing is
recorded, and for windows in range: no window reports more spent or less remaining than before,
none changes before the time it tells, and then its oldest event is out. A provider whose limits
are positive is exhausted up to one moment and not from then on, at the latest when the longest
window has passed; so ever fewer providers are demoted. -/
theorem exhaustion_ends {rs : List UsageRecord} {clock : Int} {s : UsageState}
    (h : UsageState.Life rs clock s) :
    (∀ p k w t, UsageWindow.InRange w → Relaxes (s.meter.events p k) w t) ∧
      (∀ p specs longest, (∀ spec ∈ specs, ∀ w ∈ UsageSpec.windows spec, Lenient longest w) →
        ∃ relief ≤ clock + longest, ∀ t, clock ≤ t →
          (s.meter.exhausted p specs t = true ↔ t < relief)) ∧
      ∀ providers t t', (∀ named ∈ providers, ∀ spec ∈ Provider.usage named.2,
          ∀ w ∈ spec.windows, UsageWindow.InRange w) → t ≤ t' →
        (s.meter.exhaustedSet providers t').Sublist (s.meter.exhaustedSet providers t) := by
  have hlogs := (onlyRecordable_of_life h).logs
  have hupTo := fun p k => (h.agree.meter p k).right
  refine ⟨?_, ?_, ?_⟩
  · intro p k w t hw
    exact relaxes (hlogs p k) (hupTo p k).ascending hw t
  · intro p specs longest hlimits
    apply exists_moment
    · intro t t' _ hle
      exact exhausted_antitone hlogs hle
    · exact not_exhausted_of_passed (fun p k => (hupTo p k).past) hlimits le_rfl
  · intro providers t t' _ hle
    exact exhaustedSet_sublist hlogs hle providers

/-- One request a minute, and one that has been served. -/
theorem exhaustion_ends_oneRequest :
    let spec : UsageSpec := .count [⟨"minute", 60, .finite 1⟩]
    let meter := UsageMeter.new.recordCall ⟨"go", .count, .finite 1, 100⟩
    ∃ relief ≤ 160, ∀ t, 100 ≤ t → (meter.exhausted "go" [spec] t = true ↔ t < relief) := by
  intro spec meter
  have hlife := UsageState.Life.recorded (r := ⟨"go", .count, .finite 1, 100⟩)
    (UsageState.Life.new 100) (Int.le_refl 100)
  refine (exhaustion_ends hlife).2.1 "go" [spec] 60 ?_
  intro spec' hspec w hw
  rw [List.mem_singleton.1 hspec] at hw
  rw [List.mem_singleton.1 hw]
  have hone : toBinary64 1 = .finite 1 := by
    exact_mod_cast toBinary64_natCast (n := 1) (by decide)
  exact ⟨hone, by decide, by decide, by decide⟩

end AiApiBridge
