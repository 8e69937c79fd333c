import AiApiBridge.Lib.TimedLog
import Mathlib.Data.Finset.Max

/-!
# Logs in the order of arrival

Entries may arrive at a log in another order than that of their times. A reader who
takes the first entry of a window for its oldest one is right about all windows from
some time on exactly when every time is first seen behind the earlier ones
(`leastFirst_iff`).
-/

set_option autoImplicit false

namespace AiApiBridge.TimedLog

universe u

variable {α : Type u}

/-- No entry is later than another by more than the horizon. -/
def Near (horizon : Int) (entries : List (Int × α)) : Prop :=
  ∀ e ∈ entries, ∀ e' ∈ entries, e.1 - horizon ≤ e'.1

/-- Such entries are all retained, whatever the order in which they arrive. -/
theorem pushAll_of_near {horizon : Int} {entries : List (Int × α)} (h : Near horizon entries) :
    pushAll horizon entries = entries := by
  induction entries using List.reverseRecOn with
  | nil => rfl
  | append_singleton entries e ih =>
      have hnear : Near horizon entries := fun e₁ he₁ e₂ he₂ =>
        h e₁ (List.mem_append_left _ he₁) e₂ (List.mem_append_left _ he₂)
      rw [pushAll_concat, ih hnear, push, List.filter_eq_self]
      intro e' he'
      exact decide_eq_true (h e (List.mem_append_right _ List.mem_cons_self) e' he')

theorem mem_since {s : Int} {log : List (Int × α)} {e : Int × α} :
    e ∈ since s log ↔ e ∈ log ∧ s < e.1 := by
  rw [since, List.mem_filter, decide_eq_true_eq]

theorem since_cons_of_lt {s : Int} {e : Int × α} (h : s < e.1) (log : List (Int × α)) :
    since s (e :: log) = e :: since s log :=
  List.filter_cons_of_pos (decide_eq_true h)

/-! ## The first entry of a window -/

/-- The first entry of every window from `s` on is an oldest one of the window. -/
def LeastFirst (s : Int) (log : List (Int × α)) : Prop :=
  ∀ t, s ≤ t → ∀ e ∈ (since t log).head?, ∀ e' ∈ since t log, e.1 ≤ e'.1

/-- An entry later than `s` that arrives behind a later one is not the first of its
time. -/
def FirstsAscend (s : Int) (log : List (Int × α)) : Prop :=
  ∀ before e behind, log = before ++ e :: behind →
    ∀ e' ∈ behind, s < e'.1 → e'.1 < e.1 → ∃ e'' ∈ before, e''.1 = e'.1

/-- **The first entry is the oldest** exactly when first arrivals are in the order of
time. -/
theorem leastFirst_iff {s : Int} {log : List (Int × α)} :
    LeastFirst s log ↔ FirstsAscend s log := by
  constructor
  · rintro h before e behind rfl e' he' hs hlt
    -- the window that begins with the time of the overtaken entry
    have hmem : e' ∈ since (e'.1 - 1) (before ++ e :: behind) :=
      mem_since.2 ⟨by simp [he'], by omega⟩
    cases hbefore : since (e'.1 - 1) before with
    | nil =>
        have hhead : e ∈ (since (e'.1 - 1) (before ++ e :: behind)).head? := by
          rw [since_append, hbefore, since_cons_of_lt (by omega)]
          rfl
        have := h (e'.1 - 1) (by omega) e hhead e' hmem
        omega
    | cons e₀ rest =>
        have hhead : e₀ ∈ (since (e'.1 - 1) (before ++ e :: behind)).head? := by
          rw [since_append, hbefore]
          rfl
        have he₀ : e₀ ∈ since (e'.1 - 1) before := by
          rw [hbefore]
          exact List.mem_cons_self
        rw [mem_since] at he₀
        have := h (e'.1 - 1) (by omega) e₀ hhead e' hmem
        exact ⟨e₀, he₀.1, by omega⟩
  · intro h t ht e hhead e' he'
    rw [since, List.head?_filter, Option.mem_def, List.find?_eq_some_iff_append] at hhead
    rcases hhead with ⟨hlater, before, behind, rfl, hbefore⟩
    rw [mem_since] at he'
    rcases List.mem_append.1 he'.1 with hmem | hmem
    · -- nothing in front of the first entry lies in the window
      have := hbefore e' hmem
      simp [he'.2] at this
    · rcases List.mem_cons.1 hmem with rfl | hmem
      · exact Int.le_refl _
      · rw [← Int.not_lt]
        intro hlt
        rcases h before e behind rfl e' hmem (by omega) hlt with ⟨e'', he'', heq⟩
        have := hbefore e'' he''
        simp [heq, he'.2] at this

/-- In the order of time. -/
theorem FirstsAscend.of_ascending {log : List (Int × α)}
    (h : log.Pairwise fun e e' => e.1 ≤ e'.1) (s : Int) : FirstsAscend s log := by
  rintro before e behind rfl e' he' _ hlt
  have := (List.pairwise_cons.1 (List.pairwise_append.1 h).2.1).1 e' he'
  omega

/-- Whoever arrives first at such a log is as old as anyone in its window. -/
theorem LeastFirst.head_le {s : Int} {e : Int × α} {log : List (Int × α)}
    (h : LeastFirst s (e :: log)) (hlater : s < e.1) :
    ∀ e' ∈ since s (e :: log), e.1 ≤ e'.1 := by
  apply h s (Int.le_refl s) e
  rw [since_cons_of_lt hlater]
  rfl

/-- Entries of one time may arrive in any order. -/
theorem LeastFirst.of_one_time {s : Int} {log log' : List (Int × α)} (hperm : log'.Perm log)
    (h : ∀ e ∈ since s log, ∀ e' ∈ since s log, e.1 = e'.1) : LeastFirst s log' := by
  intro t ht e he e' he'
  have hsame : ∀ e ∈ since t log', e ∈ since s log := by
    intro e he
    rw [mem_since, hperm.mem_iff] at he
    rw [mem_since]
    exact ⟨he.1, by omega⟩
  exact Int.le_of_eq (h e (hsame e (List.mem_of_mem_head? he)) e' (hsame e' he'))

/-- A window that is not empty has an oldest entry. -/
theorem exists_oldest {log : List (Int × α)} (h : log ≠ []) :
    ∃ e ∈ log, ∀ e' ∈ log, e.1 ≤ e'.1 := by
  have hne : (log : Multiset (Int × α)) ≠ 0 := by simpa using h
  simpa using Multiset.exists_min_image Prod.fst hne

end AiApiBridge.TimedLog
