import Mathlib.Data.List.Induction
import Mathlib.Algebra.Order.Ring.Int

/-!
# Timed logs

A log is a list of entries with their times. `push` appends an entry at the current
time and drops what is older than a horizon; no window that fits into the horizon
sees the difference (`since_push`), and logs that agree on all such windows agree on
them for good (`SameWindows`). A `Gate` admits by what a window of such a log
holds, while what it admits is logged only later: `Capped` is the bound that
follows, kept by every step.
-/

set_option autoImplicit false

namespace AiApiBridge.TimedLog

universe u

variable {α : Type u}

/-- The entries later than `s`. -/
def since (s : Int) (log : List (Int × α)) : List (Int × α) :=
  log.filter fun e => s < e.1

/-- Log an entry at the time `now` and drop what is older than the horizon. -/
def push (horizon now : Int) (a : α) (log : List (Int × α)) : List (Int × α) :=
  (log ++ [(now, a)]).filter fun e => now - horizon ≤ e.1

@[simp] theorem since_nil (s : Int) : since s ([] : List (Int × α)) = [] := rfl

theorem since_append (s : Int) (log log' : List (Int × α)) :
    since s (log ++ log') = since s log ++ since s log' :=
  List.filter_append log log'

/-- Entries of one time are seen together. -/
theorem since_entries (s now : Int) (as : List α) :
    since s (as.map fun a => (now, a)) = if s < now then as.map fun a => (now, a) else [] := by
  by_cases h : s < now
  · simp [since, h]
  · simp [since, h, Int.not_lt.1 h]

/-- A window that starts within the horizon sees the new entry and loses none. -/
theorem since_push {horizon now s : Int} (h : now - horizon ≤ s) (a : α) (log : List (Int × α)) :
    since s (push horizon now a log) = since s log ++ since s [(now, a)] := by
  rw [push, ← since_append, since, since, List.filter_filter]
  apply List.filter_congr
  intro e _
  rw [← Bool.decide_and]
  exact decide_eq_decide.2 ⟨And.left, fun hs => ⟨hs, by omega⟩⟩

/-- A later window sees what an earlier one has seen of it. -/
theorem since_since {s s' : Int} (h : s ≤ s') (log : List (Int × α)) :
    since s' (since s log) = since s' log := by
  rw [since, since, List.filter_filter]
  apply List.filter_congr
  intro e _
  rw [← Bool.decide_and]
  exact decide_eq_decide.2 ⟨And.left, fun he => ⟨he, by omega⟩⟩

/-! ## Retention -/

/-- The times of a log never go back, and none is later than the clock. -/
structure UpTo (clock : Int) (log : List (Int × α)) : Prop where
  ascending : log.Pairwise fun e e' => e.1 ≤ e'.1
  past : ∀ e ∈ log, e.1 ≤ clock

theorem upTo_nil (clock : Int) : UpTo clock ([] : List (Int × α)) :=
  ⟨List.Pairwise.nil, fun _ h => nomatch h⟩

theorem UpTo.later {clock clock' : Int} {log : List (Int × α)} (h : UpTo clock log)
    (hle : clock ≤ clock') : UpTo clock' log :=
  ⟨h.ascending, fun e he => Int.le_trans (h.past e he) hle⟩

theorem UpTo.filter {clock : Int} {log : List (Int × α)} (h : UpTo clock log)
    (p : Int × α → Bool) : UpTo clock (log.filter p) :=
  ⟨h.ascending.sublist List.filter_sublist, fun e he => h.past e (List.mem_filter.1 he).1⟩

/-- An entry at the time of the clock. -/
theorem UpTo.concat {clock : Int} {log : List (Int × α)} (h : UpTo clock log) (a : α) :
    UpTo clock (log ++ [(clock, a)]) where
  ascending := by
    refine List.pairwise_append.2 ⟨h.ascending, List.pairwise_singleton _ _, ?_⟩
    intro e he e' he'
    rw [List.mem_singleton.1 he']
    exact h.past e he
  past := by
    intro e he
    rcases List.mem_append.1 he with he | he
    · exact h.past e he
    · rw [List.mem_singleton.1 he]

theorem UpTo.push {clock now : Int} {log : List (Int × α)} (h : UpTo clock log)
    (hle : clock ≤ now) (horizon : Int) (a : α) : UpTo now (push horizon now a log) :=
  ((h.later hle).concat a).filter _

/-- The log of a run of entries, each pushed at its time. -/
def pushAll (horizon : Int) (entries : List (Int × α)) : List (Int × α) :=
  entries.foldl (fun log e => push horizon e.1 e.2 log) []

/-- The entries that no entry is later than by more than the horizon. -/
def retained (horizon : Int) (entries : List (Int × α)) : List (Int × α) :=
  entries.filter fun e => entries.all fun e' => e'.1 - horizon ≤ e.1

theorem pushAll_concat (horizon : Int) (entries : List (Int × α)) (e : Int × α) :
    pushAll horizon (entries ++ [e]) = push horizon e.1 e.2 (pushAll horizon entries) := by
  rw [pushAll, List.foldl_append]
  rfl

/-- **Pushing one by one retains what one look back from the end would.** -/
theorem pushAll_eq_retained (horizon : Int) {entries : List (Int × α)}
    (h : entries.Pairwise fun e e' => e.1 ≤ e'.1) :
    pushAll horizon entries = retained horizon entries := by
  induction entries using List.reverseRecOn with
  | nil => rfl
  | append_singleton entries e ih =>
      obtain ⟨hentries, -, hlast⟩ := List.pairwise_append.1 h
      have hpast : ∀ e' ∈ entries, e'.1 ≤ e.1 := fun e' he' => hlast e' he' e (List.mem_singleton.2 rfl)
      -- the horizon before the last entry is the latest one
      have hall : ∀ e₁ : Int × α, ((entries ++ [e]).all fun e' => decide (e'.1 - horizon ≤ e₁.1)) =
          decide (e.1 - horizon ≤ e₁.1) := by
        intro e₁
        rw [Bool.eq_iff_iff, List.all_eq_true, decide_eq_true_eq]
        constructor
        · intro hevery
          exact of_decide_eq_true (hevery e (List.mem_append_right _ (List.mem_singleton.2 rfl)))
        · intro he e' he'
          rcases List.mem_append.1 he' with he' | he'
          · have := hpast e' he'
            exact decide_eq_true (by omega)
          · rw [List.mem_singleton.1 he']
            exact decide_eq_true he
      rw [pushAll_concat, ih hentries, push, retained, retained, List.filter_append,
        List.filter_append, List.filter_filter]
      congr 1
      · apply List.filter_congr
        intro e₁ _
        rw [hall, Bool.and_eq_left_iff_imp]
        intro he
        refine List.all_eq_true.2 fun e' he' => decide_eq_true ?_
        have := hpast e' he'
        have := of_decide_eq_true he
        omega
      · apply List.filter_congr
        intro e₁ _
        rw [hall]

/-! ## Logs that no window tells apart -/

/-- Two logs that agree on what is later than the horizon before the clock, up to the
order of entries of one time. -/
structure SameWindows (horizon clock : Int) (log log' : List (Int × α)) : Prop where
  perm : (since (clock - horizon) log).Perm (since (clock - horizon) log')
  left : UpTo clock log
  right : UpTo clock log'

namespace SameWindows

variable {horizon clock now s : Int} {log log' : List (Int × α)}

/-- A window within the horizon sees the same entries in both logs. -/
theorem since (h : SameWindows horizon clock log log') (hs : clock - horizon ≤ s) :
    (since s log).Perm (TimedLog.since s log') := by
  rw [← since_since hs log, ← since_since hs log']
  exact h.perm.filter _

/-- And at the same times, one after the other. -/
theorem times (h : SameWindows horizon clock log log') (hs : clock - horizon ≤ s) :
    (TimedLog.since s log).map Prod.fst = (TimedLog.since s log').map Prod.fst := by
  have hsorted : ∀ {l : List (Int × α)}, UpTo clock l →
      ((TimedLog.since s l).map Prod.fst).Pairwise (· ≤ ·) := fun hl =>
    List.pairwise_map.2 (hl.filter _).ascending
  exact ((h.since hs).map Prod.fst).eq_of_pairwise (fun _ _ _ _ => Int.le_antisymm)
    (hsorted h.left) (hsorted h.right)

/-- Time goes by. -/
theorem later (h : SameWindows horizon clock log log') (hle : clock ≤ now) :
    SameWindows horizon now log log' :=
  ⟨h.since (by omega), h.left.later hle, h.right.later hle⟩

/-- **A push keeps two logs the same.** -/
theorem push (h : SameWindows horizon clock log log') (hle : clock ≤ now) (a : α) :
    SameWindows horizon now (push horizon now a log) (TimedLog.push horizon now a log') where
  perm := by
    rw [since_push (Int.le_refl _), since_push (Int.le_refl _)]
    exact (h.since (by omega)).append_right _
  left := h.left.push hle horizon a
  right := h.right.push hle horizon a

/-- A log that drops nothing stays the same as one that does. -/
theorem append (h : SameWindows horizon clock log log') (hle : clock ≤ now) (a : α) :
    SameWindows horizon now (TimedLog.push horizon now a log) (log' ++ [(now, a)]) where
  perm := by
    rw [since_push (Int.le_refl _), since_append]
    exact (h.since (by omega)).append_right _
  left := h.left.push hle horizon a
  right := (h.right.later hle).concat a

/-- What is older than the horizon may be dropped. -/
theorem dropRight (h : SameWindows horizon clock log log') {keep : Int × α → Bool}
    (hkeep : ∀ e, clock - horizon < e.1 → keep e = true) :
    SameWindows horizon clock log (log'.filter keep) where
  perm := by
    have hsame : TimedLog.since (clock - horizon) (log'.filter keep) =
        TimedLog.since (clock - horizon) log' := by
      rw [TimedLog.since, TimedLog.since, List.filter_filter]
      apply List.filter_congr
      intro e _
      rw [Bool.and_eq_left_iff_imp]
      exact fun he => hkeep e (of_decide_eq_true he)
    rw [hsame]
    exact h.perm
  left := h.left
  right := h.right.filter keep

/-- The order of a log may change as long as it stays ascending. -/
theorem permRight (h : SameWindows horizon clock log log') {log'' : List (Int × α)}
    (hperm : log''.Perm log') (hascending : log''.Pairwise fun e e' => e.1 ≤ e'.1) :
    SameWindows horizon clock log log'' where
  perm := h.perm.trans (hperm.symm.filter _)
  left := h.left
  right := ⟨hascending, fun e he => h.right.past e (hperm.mem_iff.1 he)⟩

end SameWindows

/-! ## Gates -/

/-- What a gate knows: the time, the times of the logged entries, and how many
admitted ones are still to be logged. -/
structure Gate where
  clock : Int
  logged : List Int
  pending : Nat

namespace Gate

/-- The entries logged later than `s`. -/
def countSince (g : Gate) (s : Int) : Nat := g.logged.countP fun t => s < t

/-- The entries logged in the window of the given length that ends at `t`. -/
def countIn (g : Gate) (length t : Int) : Nat := g.logged.countP fun u => t - length < u ∧ u ≤ t

/-- One step at the time `now`. The gate admits only below `limit` entries in the
window that ends now, and holds at most `capacity` pending ones. -/
inductive Step (length : Int) (limit capacity : Nat) (g : Gate) (now : Int) : Gate → Prop where
  | wait (later : g.clock ≤ now) : Step length limit capacity g now ⟨now, g.logged, g.pending⟩
  | accept (later : g.clock ≤ now) (below : g.countSince (now - length) < limit)
      (fits : g.pending + 1 ≤ capacity) :
      Step length limit capacity g now ⟨now, g.logged, g.pending + 1⟩
  | log (later : g.clock ≤ now) (pending : Nat) (one : g.pending = pending + 1) :
      Step length limit capacity g now ⟨now, g.logged ++ [now], pending⟩

/-- The bound. `decided` is about the last time something was admitted. -/
structure Capped (length : Int) (limit capacity : Nat) (g : Gate) : Prop where
  window : ∀ t, g.countIn length t ≤ limit + capacity - 1
  decided : ∃ d ≤ g.clock, g.countSince (d - length) + g.pending ≤ limit + capacity - 1

variable {length : Int} {limit capacity : Nat}

theorem capped_start (clock : Int) : Capped length limit capacity ⟨clock, [], 0⟩ :=
  ⟨fun _ => Nat.zero_le _, clock, Int.le_refl _, Nat.zero_le _⟩

/-- A window that ends after the time `d` holds no entry that a window ending at
`d` would have missed. -/
theorem countIn_le_countSince (g : Gate) {d t : Int} (h : d ≤ t) :
    g.countIn length t ≤ g.countSince (d - length) := by
  apply List.countP_mono_left
  intro u _ hu
  have := (of_decide_eq_true hu).1
  exact decide_eq_true (by omega)

/-- **One step keeps the bound.** -/
theorem Capped.step {g g' : Gate} {now : Int} (h : Capped length limit capacity g)
    (hstep : Step length limit capacity g now g') : Capped length limit capacity g' := by
  rcases h with ⟨hwindow, d, hd, hdecided⟩
  cases hstep with
  | wait later => exact ⟨hwindow, d, Int.le_trans hd later, hdecided⟩
  | accept later below fits =>
      refine ⟨hwindow, now, Int.le_refl now, ?_⟩
      change g.countSince (now - length) + (g.pending + 1) ≤ limit + capacity - 1
      omega
  | log later pending one =>
      have hsince : Gate.countSince ⟨now, g.logged ++ [now], pending⟩ (d - length) + pending ≤
          limit + capacity - 1 := by
        have hone : ([now].countP fun t => decide (d - length < t)) ≤ 1 := List.countP_le_length
        have hold : g.logged.countP (fun t => decide (d - length < t)) + g.pending ≤
          limit + capacity - 1 := hdecided
        rw [countSince, List.countP_append]
        omega
      refine ⟨?_, d, Int.le_trans hd later, hsince⟩
      intro t
      rcases Int.lt_or_le t now with ht | ht
      · -- the new entry is later than the window
        have hnew : ([now].countP fun u => decide (t - length < u ∧ u ≤ t)) = 0 := by
          simp [Int.not_le.2 ht]
        rw [countIn, List.countP_append, hnew]
        exact hwindow t
      · -- the window reaches past the last decision
        apply Nat.le_trans (countIn_le_countSince _ (Int.le_trans hd (Int.le_trans later ht)))
        exact Nat.le_of_add_right_le hsince

end Gate

end AiApiBridge.TimedLog
