import Mathlib.Data.List.Induction

/-!
# Stream transducers

A transducer reads one input symbol at a time, changes its state and emits a
finite list of output symbols. `run` feeds it a whole input word. The module
gives the composition law of runs (`run_append`) and the rules by which a property
of single steps becomes a property of runs: `run_keeps` for what no step changes,
`forall_mem_run` for the symbols emitted, and `run_invariant` for an invariant that
may mention the input read and the output emitted so far.
-/

set_option autoImplicit false

namespace AiApiBridge.Transducer

universe u v w x

variable {σ : Type u} {ι : Type v} {ο : Type w}

/-- One step of a transducer: the next state and the symbols emitted. -/
abbrev Step (σ : Type u) (ι : Type v) (ο : Type w) := σ → ι → σ × List ο

/-- Do a second action after a first, keeping the output of both. -/
def andThen (r : σ × List ο) (f : σ → σ × List ο) : σ × List ο :=
  ((f r.1).1, r.2 ++ (f r.1).2)

@[simp] theorem andThen_fst (r : σ × List ο) (f : σ → σ × List ο) :
    (andThen r f).1 = (f r.1).1 := rfl

@[simp] theorem andThen_snd (r : σ × List ο) (f : σ → σ × List ο) :
    (andThen r f).2 = r.2 ++ (f r.1).2 := rfl

theorem andThen_assoc (r : σ × List ο) (f g : σ → σ × List ο) :
    andThen (andThen r f) g = andThen r fun s => andThen (f s) g := by
  simp [andThen]

/-- Feed a word to a transducer, collecting everything it emits. -/
def run (step : Step σ ι ο) : σ → List ι → σ × List ο
  | s, [] => (s, [])
  | s, i :: is =>
      let r := step s i
      let r' := run step r.1 is
      (r'.1, r.2 ++ r'.2)

@[simp] theorem run_nil (step : Step σ ι ο) (s : σ) : run step s [] = (s, []) := rfl

theorem run_cons (step : Step σ ι ο) (s : σ) (i : ι) (is : List ι) :
    run step s (i :: is) =
      ((run step (step s i).1 is).1, (step s i).2 ++ (run step (step s i).1 is).2) := rfl

@[simp] theorem run_singleton (step : Step σ ι ο) (s : σ) (i : ι) :
    run step s [i] = step s i := by
  simp [run_cons]

/-- **A run over a concatenation is the two runs in sequence.** -/
theorem run_append (step : Step σ ι ο) (s : σ) (is js : List ι) :
    run step s (is ++ js) =
      ((run step (run step s is).1 js).1,
        (run step s is).2 ++ (run step (run step s is).1 js).2) := by
  induction is generalizing s with
  | nil => simp
  | cons i is ih => simp [run_cons, ih]

/-- The final state of a run over a concatenation. -/
theorem run_append_fst (step : Step σ ι ο) (s : σ) (is js : List ι) :
    (run step s (is ++ js)).1 = (run step (run step s is).1 js).1 := by
  rw [run_append]

/-- The output of a run over a concatenation. -/
theorem run_append_snd (step : Step σ ι ο) (s : σ) (is js : List ι) :
    (run step s (is ++ js)).2 = (run step s is).2 ++ (run step (run step s is).1 js).2 := by
  rw [run_append]

section Invariants

/-- **Frame rule.** What every step keeps, a run keeps. -/
theorem run_keeps {κ : Type x} {step : Step σ ι ο} (kept : σ → κ)
    (h : ∀ s i, kept (step s i).1 = kept s) (s : σ) (is : List ι) :
    kept (run step s is).1 = kept s := by
  induction is generalizing s with
  | nil => rfl
  | cons i is ih => rw [run_cons, ih, h]

/-- **Order rule.** What no step lowers, no run lowers. -/
theorem le_run {step : Step σ ι ο} (measure : σ → Nat)
    (h : ∀ s i, measure s ≤ measure (step s i).1) (s : σ) (is : List ι) :
    measure s ≤ measure (run step s is).1 := by
  induction is generalizing s with
  | nil => exact Nat.le_refl _
  | cons i is ih => exact Nat.le_trans (h s i) (ih (step s i).1)

/-- **Output rule.** A property of all that the steps emit is one of what a run emits. -/
theorem forall_mem_run {step : Step σ ι ο} {P : ο → Prop} {is : List ι}
    (h : ∀ s, ∀ i ∈ is, ∀ o ∈ (step s i).2, P o) (s : σ) : ∀ o ∈ (run step s is).2, P o := by
  induction is generalizing s with
  | nil => exact fun o ho => nomatch ho
  | cons i is ih =>
      intro o ho
      rw [run_cons, List.mem_append] at ho
      rcases ho with ho | ho
      · exact h s i List.mem_cons_self o ho
      · exact ih (fun s i hi => h s i (List.mem_cons_of_mem _ hi)) _ o ho

/-- Steps that emit nothing to be read make runs of which nothing is read. -/
theorem filterMap_run_eq_nil {κ : Type x} {step : Step σ ι ο} {read : ο → Option κ} {is : List ι}
    (h : ∀ s, ∀ i ∈ is, (step s i).2.filterMap read = []) (s : σ) :
    (run step s is).2.filterMap read = [] := by
  rw [List.filterMap_eq_nil_iff]
  apply forall_mem_run
  intro s i hi
  exact List.filterMap_eq_nil_iff.1 (h s i hi)

/-- **Invariant rule.** A relation between the input read, the output emitted
and the state that holds at the start and is kept by every step holds after
every run. -/
theorem run_invariant (step : Step σ ι ο) {s₀ : σ} (Inv : List ι → List ο → σ → Prop)
    (start : Inv [] [] s₀)
    (keep : ∀ is os s i, Inv is os s → Inv (is ++ [i]) (os ++ (step s i).2) (step s i).1) :
    ∀ is, Inv is (run step s₀ is).2 (run step s₀ is).1 := by
  intro is
  induction is using List.reverseRecOn with
  | nil => exact start
  | append_singleton is i ih =>
      rw [run_append]
      simpa using keep is _ _ i ih

end Invariants

section Breaking

/-- A step that may break off the loop it is run in. -/
abbrev BreakStep (σ : Type u) (ι : Type v) (ο : Type w) := σ → ι → (σ × List ο) × Bool

/-- A loop over a word, up to the first symbol whose step breaks it off; and
whether one did. -/
def runUntil (step : BreakStep σ ι ο) : σ → List ι → (σ × List ο) × Bool
  | s, [] => ((s, []), false)
  | s, i :: is =>
      let r := step s i
      if r.2 then r
      else
        let r' := runUntil step r.1.1 is
        ((r'.1.1, r.1.2 ++ r'.1.2), r'.2)

theorem runUntil_cons_stop {step : BreakStep σ ι ο} {s : σ} {i : ι} (h : (step s i).2 = true)
    (is : List ι) : runUntil step s (i :: is) = step s i := by
  simp [runUntil, h]

theorem runUntil_cons_go {step : BreakStep σ ι ο} {s : σ} {i : ι} (h : (step s i).2 = false)
    (is : List ι) :
    runUntil step s (i :: is) =
      (((runUntil step (step s i).1.1 is).1.1,
        (step s i).1.2 ++ (runUntil step (step s i).1.1 is).1.2),
        (runUntil step (step s i).1.1 is).2) := by
  simp [runUntil, h]

/-- A loop that has been broken off reads no more. -/
theorem runUntil_append_stop {step : BreakStep σ ι ο} {s : σ} {is : List ι}
    (h : (runUntil step s is).2 = true) (js : List ι) :
    runUntil step s (is ++ js) = runUntil step s is := by
  induction is generalizing s with
  | nil => cases h
  | cons i is ih =>
      cases hi : (step s i).2 with
      | true => rw [List.cons_append, runUntil_cons_stop hi, runUntil_cons_stop hi]
      | false =>
          rw [runUntil_cons_go hi] at h
          rw [List.cons_append, runUntil_cons_go hi, runUntil_cons_go hi, ih h]

/-- A loop that has not been broken off goes on. -/
theorem runUntil_append_go {step : BreakStep σ ι ο} {s : σ} {is : List ι}
    (h : (runUntil step s is).2 = false) (js : List ι) :
    runUntil step s (is ++ js) =
      (((runUntil step (runUntil step s is).1.1 js).1.1,
        (runUntil step s is).1.2 ++ (runUntil step (runUntil step s is).1.1 js).1.2),
        (runUntil step (runUntil step s is).1.1 js).2) := by
  induction is generalizing s with
  | nil => simp [runUntil]
  | cons i is ih =>
      cases hi : (step s i).2 with
      | true =>
          rw [runUntil_cons_stop hi, hi] at h
          cases h
      | false =>
          rw [runUntil_cons_go hi] at h
          rw [List.cons_append, runUntil_cons_go hi, runUntil_cons_go hi, ih h]
          simp

/-- Whether a loop is broken off, when the symbols alone decide it. -/
theorem runUntil_stops (step : BreakStep σ ι ο) (p : ι → Bool) (h : ∀ s i, (step s i).2 = p i)
    (s : σ) (is : List ι) : (runUntil step s is).2 = is.any p := by
  induction is generalizing s with
  | nil => rfl
  | cons i is ih =>
      cases hi : p i with
      | true => rw [runUntil_cons_stop ((h s i).trans hi), h, List.any_cons, hi, Bool.true_or]
      | false =>
          rw [runUntil_cons_go ((h s i).trans hi), ih, List.any_cons, hi, Bool.false_or]

/-- **Invariant rule for loops.** A property of the state that every step keeps
while it emits good symbols only is kept by the loop, broken off or not. -/
theorem runUntil_invariant {step : BreakStep σ ι ο} {Ok : ι → Prop} {Inv : σ → Prop}
    {Good : ο → Prop}
    (keep : ∀ s i, Ok i → Inv s → Inv (step s i).1.1 ∧ ∀ o ∈ (step s i).1.2, Good o) :
    ∀ is s, (∀ i ∈ is, Ok i) → Inv s →
      Inv (runUntil step s is).1.1 ∧ ∀ o ∈ (runUntil step s is).1.2, Good o := by
  intro is
  induction is with
  | nil => exact fun s _ hs => ⟨hs, fun o ho => nomatch ho⟩
  | cons i is ih =>
      intro s hok hs
      obtain ⟨hinv, hgood⟩ := keep s i (hok i List.mem_cons_self) hs
      cases hi : (step s i).2 with
      | true =>
          rw [runUntil_cons_stop hi]
          exact ⟨hinv, hgood⟩
      | false =>
          obtain ⟨hinv', hgood'⟩ := ih _ (fun j hj => hok j (List.mem_cons_of_mem i hj)) hinv
          rw [runUntil_cons_go hi]
          refine ⟨hinv', ?_⟩
          intro o ho
          rcases List.mem_append.1 ho with ho | ho
          · exact hgood o ho
          · exact hgood' o ho

/-- What a loop does to a word that has been renamed symbol by symbol. -/
theorem runUntil_map {κ : Type x} (step : BreakStep σ ι ο) (f : κ → ι) (s : σ) (ks : List κ) :
    runUntil step s (ks.map f) = runUntil (fun s k => step s (f k)) s ks := by
  induction ks generalizing s with
  | nil => rfl
  | cons k ks ih => simp [runUntil, ih]

variable {κ : Type x} {τ : Type u}

/-- A loop inside a loop: each outer symbol is turned into inner ones, and a break
in the inner loop leaves both. -/
def nested (outer : Step σ ι κ) (inner : BreakStep τ κ ο) : BreakStep (σ × τ) ι ο := fun s i =>
  let r := outer s.1 i
  let r' := runUntil inner s.2 r.2
  (((r.1, r'.1.1), r'.1.2), r'.2)

/-- **Nested loops are one loop over all inner symbols**, as far as the inner
state, the output and the break go. -/
theorem runUntil_nested (outer : Step σ ι κ) (inner : BreakStep τ κ ο) (s : σ) (t : τ)
    (is : List ι) :
    (((runUntil (nested outer inner) (s, t) is).1.1.2,
      (runUntil (nested outer inner) (s, t) is).1.2),
      (runUntil (nested outer inner) (s, t) is).2) = runUntil inner t (run outer s is).2 := by
  induction is generalizing s t with
  | nil => rfl
  | cons i is ih =>
      rw [run_cons]
      cases hi : (runUntil inner t (outer s i).2).2 with
      | true =>
          have hstep : (nested outer inner (s, t) i).2 = true := hi
          rw [runUntil_cons_stop hstep, runUntil_append_stop hi]
          rfl
      | false =>
          have hstep : (nested outer inner (s, t) i).2 = false := hi
          rw [runUntil_cons_go hstep, runUntil_append_go hi, ← ih]
          rfl

end Breaking

end AiApiBridge.Transducer
