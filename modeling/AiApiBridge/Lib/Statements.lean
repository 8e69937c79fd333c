import Mathlib.Data.List.Basic

/-!
# Statements and commit points

Statements change a state or fail. A script of statements that commit one by one
keeps what was done before a failure (`autocommit`); a transaction rolls back
(`transaction`). Both succeed exactly when all statements do in a row (`runAll`), so
what a script achieves is read off `runAll`, and only its failures depend on where it
commits. A statement may also fail by a fault of its surroundings (`withFaults`).
-/

set_option autoImplicit false

namespace AiApiBridge.Statements

universe u v

variable {δ : Type u} {ε : Type v}

/-- A statement fails or leaves a state. -/
abbrev Statement (δ : Type u) (ε : Type v) := δ → Except ε δ

/-- Statements in a row, up to the first that fails. -/
def runAll : List (Statement δ ε) → Statement δ ε
  | [], s => .ok s
  | st :: sts, s =>
      match st s with
      | .ok s' => runAll sts s'
      | .error e => .error e

/-- Statements that commit one by one: the state that is left, and the failure if
there was one. -/
def autocommit : List (Statement δ ε) → δ → δ × Option ε
  | [], s => (s, none)
  | st :: sts, s =>
      match st s with
      | .ok s' => autocommit sts s'
      | .error e => (s, some e)

/-- Statements that commit together. -/
def transaction (sts : List (Statement δ ε)) (s : δ) : δ × Option ε :=
  match runAll sts s with
  | .ok s' => (s', none)
  | .error e => (s, some e)

/-! ## Success -/

theorem runAll_cons_ok {st : Statement δ ε} {sts : List (Statement δ ε)} {s s' : δ} :
    runAll (st :: sts) s = .ok s' ↔ ∃ s₁, st s = .ok s₁ ∧ runAll sts s₁ = .ok s' := by
  rw [runAll]
  cases hst : st s with
  | ok s₁ => simp
  | error e => simp

theorem runAll_append_ok {sts sts' : List (Statement δ ε)} {s s' : δ} :
    runAll (sts ++ sts') s = .ok s' ↔ ∃ s₁, runAll sts s = .ok s₁ ∧ runAll sts' s₁ = .ok s' := by
  induction sts generalizing s with
  | nil => simp [runAll]
  | cons st sts ih =>
      rw [List.cons_append, runAll_cons_ok]
      constructor
      · rintro ⟨s₁, hst, hrun⟩
        obtain ⟨s₂, hrun₂, hrun'⟩ := ih.1 hrun
        exact ⟨s₂, runAll_cons_ok.2 ⟨s₁, hst, hrun₂⟩, hrun'⟩
      · rintro ⟨s₂, hrun₂, hrun'⟩
        obtain ⟨s₁, hst, hrun⟩ := runAll_cons_ok.1 hrun₂
        exact ⟨s₁, hst, ih.2 ⟨s₂, hrun, hrun'⟩⟩

theorem autocommit_ok {sts : List (Statement δ ε)} {s s' : δ} :
    autocommit sts s = (s', none) ↔ runAll sts s = .ok s' := by
  induction sts generalizing s with
  | nil => simp [autocommit, runAll]
  | cons st sts ih =>
      rw [autocommit, runAll]
      cases hst : st s with
      | ok s₁ => exact ih
      | error e => simp

theorem transaction_ok {sts : List (Statement δ ε)} {s s' : δ} :
    transaction sts s = (s', none) ↔ runAll sts s = .ok s' := by
  rw [transaction]
  cases hrun : runAll sts s <;> simp

/-- **Invariant rule.** What every statement of a script keeps, the script keeps. -/
theorem runAll_invariant {Inv : δ → Prop} {sts : List (Statement δ ε)}
    (keep : ∀ st ∈ sts, ∀ s s', Inv s → st s = .ok s' → Inv s') {s s' : δ} (hs : Inv s)
    (hrun : runAll sts s = .ok s') : Inv s' := by
  induction sts generalizing s with
  | nil =>
      cases hrun
      exact hs
  | cons st sts ih =>
      obtain ⟨s₁, hst, hrun⟩ := runAll_cons_ok.1 hrun
      exact ih (fun st' hst' => keep st' (List.mem_cons_of_mem st hst'))
        (keep st List.mem_cons_self s s₁ hs hst) hrun

/-- Each statement of a script that succeeds has succeeded in a state with the
invariant. -/
theorem runAll_ok_of_mem {Inv : δ → Prop} {sts : List (Statement δ ε)}
    (keep : ∀ st ∈ sts, ∀ s s', Inv s → st s = .ok s' → Inv s') {s s' : δ} (hs : Inv s)
    (hrun : runAll sts s = .ok s') {st : Statement δ ε} (hst : st ∈ sts) :
    ∃ s₁ s₂, Inv s₁ ∧ st s₁ = .ok s₂ := by
  obtain ⟨before, after, rfl⟩ := List.append_of_mem hst
  obtain ⟨s₁, hbefore, hafter⟩ := runAll_append_ok.1 hrun
  obtain ⟨s₂, hst, -⟩ := runAll_cons_ok.1 hafter
  have hinv : Inv s₁ :=
    runAll_invariant (fun st' hst' => keep st' (List.mem_append_left _ hst')) hs hbefore
  exact ⟨s₁, s₂, hinv, hst⟩

/-- Statements that do not look at what `g` changes do the same behind it. -/
theorem runAll_map {g : δ → δ} {sts : List (Statement δ ε)}
    (h : ∀ st ∈ sts, ∀ s, st (g s) = (st s).map g) (s : δ) :
    runAll sts (g s) = (runAll sts s).map g := by
  induction sts generalizing s with
  | nil => rfl
  | cons st sts ih =>
      rw [runAll, runAll, h st List.mem_cons_self s]
      cases st s with
      | ok s₁ => exact ih (fun st' hst' => h st' (List.mem_cons_of_mem st hst')) s₁
      | error e => rfl

/-! ## Failure -/

/-- A script fails or leaves what its statements achieve in a row. -/
theorem transaction_cases (sts : List (Statement δ ε)) (s : δ) :
    (∃ s', runAll sts s = .ok s' ∧ transaction sts s = (s', none)) ∨
      ∃ e, transaction sts s = (s, some e) := by
  cases hrun : runAll sts s with
  | ok s' => exact .inl ⟨s', rfl, transaction_ok.2 hrun⟩
  | error e => exact .inr ⟨e, by rw [transaction, hrun]⟩

/-! ## Faults -/

/-- A script in which statement `i` fails by the fault `fault i`, if there is one. -/
def withFaults (fault : Nat → Option ε) (sts : List (Statement δ ε)) : List (Statement δ ε) :=
  sts.mapIdx fun i st s =>
    match fault i with
    | some e => .error e
    | none => st s

theorem withFaults_cons (fault : Nat → Option ε) (st : Statement δ ε)
    (sts : List (Statement δ ε)) :
    withFaults fault (st :: sts) =
      (fun s => match fault 0 with
        | some e => .error e
        | none => st s) :: withFaults (fun i => fault (i + 1)) sts :=
  List.mapIdx_cons

@[simp] theorem withFaults_none (sts : List (Statement δ ε)) :
    withFaults (fun _ => none) sts = sts := by
  induction sts with
  | nil => rfl
  | cons st sts ih => rw [withFaults_cons, ih]

/-- **A script that no fault has stopped** does what it does without faults. -/
theorem runAll_of_withFaults {fault : Nat → Option ε} {sts : List (Statement δ ε)} {s s' : δ}
    (h : runAll (withFaults fault sts) s = .ok s') : runAll sts s = .ok s' := by
  induction sts generalizing fault s with
  | nil => exact h
  | cons st sts ih =>
      rw [withFaults_cons] at h
      obtain ⟨s₁, hst, hrun⟩ := runAll_cons_ok.1 h
      cases hfault : fault 0 with
      | some e => simp [hfault] at hst
      | none =>
          rw [hfault] at hst
          exact runAll_cons_ok.2 ⟨s₁, hst, ih hrun⟩

end AiApiBridge.Statements
