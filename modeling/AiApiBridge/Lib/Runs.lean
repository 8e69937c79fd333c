import Mathlib.Data.List.Induction

/-!
# Runs of a labelled transition system

A system is a partial step function: an event is either impossible in a state or
leads to one next state. A run is a list of events that are possible one after the
other. `run_invariant` is the rule by which what every step keeps holds after a
run, and `run_split` cuts a run at any event. `visits_iff_takes` is the rule for what
a step keeps under a condition only: it holds in all states of a run exactly when all
steps of the run meet the condition.
-/

set_option autoImplicit false

namespace AiApiBridge.Runs

universe u v

variable {σ : Type u} {ε : Type v}

/-- The state after a list of events, when all of them are possible. -/
def run (next : σ → ε → Option σ) : σ → List ε → Option σ
  | s, [] => some s
  | s, e :: es => (next s e).bind fun s' => run next s' es

variable {next : σ → ε → Option σ}

@[simp] theorem run_nil (s : σ) : run next s [] = some s := rfl

theorem run_cons (s : σ) (e : ε) (es : List ε) :
    run next s (e :: es) = (next s e).bind fun s' => run next s' es := rfl

theorem run_append (s : σ) (es es' : List ε) :
    run next s (es ++ es') = (run next s es).bind fun s' => run next s' es' := by
  induction es generalizing s with
  | nil => rfl
  | cons e es ih =>
      rw [List.cons_append, run_cons, run_cons, Option.bind_assoc]
      simp only [ih]

/-- A run passes through a state at every cut. -/
theorem run_split {s s' : σ} {es es' : List ε} (h : run next s (es ++ es') = some s') :
    ∃ t, run next s es = some t ∧ run next t es' = some s' := by
  rw [run_append] at h
  exact Option.bind_eq_some_iff.1 h

theorem run_snoc {s s' : σ} {es : List ε} {e : ε} (h : run next s (es ++ [e]) = some s') :
    ∃ t, run next s es = some t ∧ next t e = some s' := by
  obtain ⟨t, ht, hs⟩ := run_split h
  refine ⟨t, ht, ?_⟩
  simpa [run_cons] using hs

/-- **Invariant rule.** What holds at the start and is kept by every step on an
allowed event holds after every run of such events. -/
theorem run_invariant (Ok : ε → Prop) (Inv : σ → Prop)
    (keep : ∀ s e s', Ok e → Inv s → next s e = some s' → Inv s') {s s' : σ} {es : List ε}
    (hok : ∀ e ∈ es, Ok e) (hs : Inv s) (h : run next s es = some s') : Inv s' := by
  induction es generalizing s with
  | nil =>
      cases h
      exact hs
  | cons e es ih =>
      rw [run_cons] at h
      obtain ⟨t, ht, hrest⟩ := Option.bind_eq_some_iff.1 h
      have hkept := keep s e t (hok e List.mem_cons_self) hs ht
      exact ih (fun e' he' => hok e' (List.mem_cons_of_mem e he')) hkept hrest

/-! ## The states and the steps of a run -/

/-- The run passes through the state `t`. -/
def Visits (next : σ → ε → Option σ) (s : σ) (es : List ε) (t : σ) : Prop :=
  ∃ es₁ es₂, es = es₁ ++ es₂ ∧ run next s es₁ = some t

/-- The run takes a step on `e` in the state `t`. -/
def Takes (next : σ → ε → Option σ) (s : σ) (es : List ε) (t : σ) (e : ε) : Prop :=
  ∃ es₁ es₂, es = es₁ ++ e :: es₂ ∧ run next s es₁ = some t

theorem visits_nil {s t : σ} : Visits next s [] t ↔ t = s := by
  constructor
  · rintro ⟨es₁, es₂, h, hrun⟩
    rw [(List.append_eq_nil_iff.1 h.symm).1] at hrun
    exact (Option.some.inj hrun).symm
  · rintro rfl
    exact ⟨[], [], rfl, rfl⟩

theorem not_takes_nil {s t : σ} {e : ε} : ¬ Takes next s [] t e := by
  rintro ⟨es₁, es₂, h, -⟩
  simp at h

theorem visits_cons {s s' t : σ} {e : ε} {es : List ε} (hs : next s e = some s') :
    Visits next s (e :: es) t ↔ t = s ∨ Visits next s' es t := by
  constructor
  · rintro ⟨es₁, es₂, h, hrun⟩
    cases es₁ with
    | nil => exact .inl (Option.some.inj hrun).symm
    | cons e' es₁ =>
        obtain ⟨rfl, hes⟩ := List.cons.inj h
        rw [run_cons, hs] at hrun
        exact .inr ⟨es₁, es₂, hes, hrun⟩
  · rintro (rfl | ⟨es₁, es₂, rfl, hrun⟩)
    · exact ⟨[], _, rfl, rfl⟩
    · refine ⟨e :: es₁, es₂, rfl, ?_⟩
      rw [run_cons, hs]
      exact hrun

theorem takes_cons {s s' t : σ} {e e' : ε} {es : List ε} (hs : next s e = some s') :
    Takes next s (e :: es) t e' ↔ (t = s ∧ e' = e) ∨ Takes next s' es t e' := by
  constructor
  · rintro ⟨es₁, es₂, h, hrun⟩
    cases es₁ with
    | nil => exact .inl ⟨(Option.some.inj hrun).symm, (List.cons.inj h).1.symm⟩
    | cons e₁ es₁ =>
        obtain ⟨rfl, hes⟩ := List.cons.inj h
        rw [run_cons, hs] at hrun
        exact .inr ⟨es₁, es₂, hes, hrun⟩
  · rintro (⟨rfl, rfl⟩ | ⟨es₁, es₂, rfl, hrun⟩)
    · exact ⟨[], es, rfl, rfl⟩
    · refine ⟨e :: es₁, es₂, rfl, ?_⟩
      rw [run_cons, hs]
      exact hrun

/-- **Rule for conditional invariants.** If a step on an allowed event keeps `P`
exactly when it meets `Q`, a run from `P` stays in `P` exactly when all its steps meet
`Q`. What every step keeps in any case may be used as `Inv`. -/
theorem visits_iff_takes (Ok : ε → Prop) (Inv P : σ → Prop) (Q : σ → ε → Prop)
    (keep : ∀ s e s', Ok e → Inv s → next s e = some s' → Inv s')
    (step : ∀ s e s', Ok e → Inv s → P s → next s e = some s' → (P s' ↔ Q s e))
    {s s' : σ} {es : List ε} (hok : ∀ e ∈ es, Ok e) (hs : Inv s) (hp : P s)
    (h : run next s es = some s') :
    (∀ t, Visits next s es t → P t) ↔ ∀ t e, Takes next s es t e → Q t e := by
  induction es generalizing s with
  | nil =>
      constructor
      · exact fun _ t e ht => absurd ht not_takes_nil
      · intro _ t ht
        rwa [visits_nil.1 ht]
  | cons e es ih =>
      rw [run_cons] at h
      obtain ⟨s₁, hs₁, hrest⟩ := Option.bind_eq_some_iff.1 h
      -- the first step, and what it leaves for the rest of the run
      have hfirst := step s e s₁ (hok e List.mem_cons_self) hs hp hs₁
      have hinv := keep s e s₁ (hok e List.mem_cons_self) hs hs₁
      have hokRest : ∀ e' ∈ es, Ok e' := fun e' he' => hok e' (List.mem_cons_of_mem e he')
      constructor
      · intro hall
        have hp₁ : P s₁ := hall s₁ ((visits_cons hs₁).2 (.inr ⟨[], es, rfl, rfl⟩))
        intro t e' ht
        rcases (takes_cons hs₁).1 ht with ⟨rfl, rfl⟩ | ht
        · exact hfirst.1 hp₁
        · exact (ih hokRest hinv hp₁ hrest).1
            (fun u hu => hall u ((visits_cons hs₁).2 (.inr hu))) t e' ht
      · intro hall
        have hp₁ : P s₁ := hfirst.2 (hall s e ((takes_cons hs₁).2 (.inl ⟨rfl, rfl⟩)))
        intro t ht
        rcases (visits_cons hs₁).1 ht with rfl | ht
        · exact hp
        · exact (ih hokRest hinv hp₁ hrest).2
            (fun u e' hu => hall u e' ((takes_cons hs₁).2 (.inr hu))) t ht

end AiApiBridge.Runs
