import AiApiBridge.Lib.Tasks
import Mathlib.Data.List.Forall2

/-!
# Related runs

Relational rules for tasks that do related things: an access of the one matches an access of
the other, related states go to related states, the labels are related and so are the rests.
Related tasks keep the relation when they run alone (`Related.alone`), and in pools they leave
related traces under one schedule (`PoolsRelated.run`), so what the relation keeps secret stays
secret.
-/

set_option autoImplicit false

namespace AiApiBridge

variable {S S' L L' α α' β β' : Type} {R : S → S' → Prop} {E : L → L' → Prop}

namespace Task

/-- Two tasks that go through matching accesses. -/
def Related (R : S → S' → Prop) (E : L → L' → Prop) (Q : α → α' → Prop) :
    Task S L α → Task S' L' α' → Prop
  | done a, done a' => Q a a'
  | access act rest, access act' rest' =>
      ∀ s s', R s s' → R (act s).1 (act' s').1 ∧ E (act s).2 (act' s').2 ∧
        Related R E Q (rest s) (rest' s')
  | _, _ => False

/-- **Sequencing rule.** -/
theorem Related.bind {Q : α → α' → Prop} {Q' : β → β' → Prop} {t : Task S L α}
    {t' : Task S' L' α'} {k : α → Task S L β} {k' : α' → Task S' L' β'} (h : Related R E Q t t')
    (hk : ∀ a a', Q a a' → Related R E Q' (k a) (k' a')) :
    Related R E Q' (t.bind k) (t'.bind k') := by
  induction t generalizing t' with
  | done a =>
      cases t' with
      | done a' => exact hk a a' h
      | access act' rest' => exact h.elim
  | access act rest ih =>
      cases t' with
      | done a' => exact h.elim
      | access act' rest' =>
          intro s s' hs
          obtain ⟨hnext, hlabel, hrest⟩ := h s s' hs
          exact ⟨hnext, hlabel, ih s hrest⟩

/-- **Related tasks, each alone,** end in related states with related results. -/
theorem Related.alone {Q : α → α' → Prop} {t : Task S L α} {t' : Task S' L' α'}
    (h : Related R E Q t t') {s : S} {s' : S'} (hs : R s s') :
    Q (t.alone s).1 (t'.alone s').1 ∧ R (t.alone s).2 (t'.alone s').2 := by
  induction t generalizing t' s s' with
  | done a =>
      cases t' with
      | done a' => exact ⟨h, hs⟩
      | access act' rest' => exact h.elim
  | access act rest ih =>
      cases t' with
      | done a' => exact h.elim
      | access act' rest' =>
          obtain ⟨hnext, -, hrest⟩ := h s s' hs
          exact ih s hrest hnext

/-- **Related tasks on a component.** -/
theorem Related.focus {T T' M M' : Type} {P : T → T' → Prop} {F : M → M' → Prop}
    {Q : α → α' → Prop} {get : S → T} {put : T → S → S} {label : T → M → L} {get' : S' → T'}
    {put' : T' → S' → S'} {label' : T' → M' → L'} {t : Task T M α} {t' : Task T' M' α'}
    (h : Related P F Q t t') (hget : ∀ s s', R s s' → P (get s) (get' s'))
    (hput : ∀ x x' s s', P x x' → R s s' → R (put x s) (put' x' s'))
    (hlabel : ∀ x x' l l', P x x' → F l l' → E (label x l) (label' x' l')) :
    Related R E Q (t.focus get put label) (t'.focus get' put' label') := by
  induction t generalizing t' with
  | done a =>
      cases t' with
      | done a' => exact h
      | access act' rest' => exact h.elim
  | access act rest ih =>
      cases t' with
      | done a' => exact h.elim
      | access act' rest' =>
          intro s s' hs
          obtain ⟨hnext, hlabels, hrest⟩ := h _ _ (hget s s' hs)
          exact ⟨hput _ _ s s' hnext hs, hlabel _ _ _ _ hnext hlabels, ih (get s) hrest⟩

end Task

/-! ## Tasks that may fail -/

namespace Attempt

variable {ε ε' : Type}

/-- Both fail with the same error, or both succeed with related results. -/
def Agree (Q : α → α' → Prop) : Except ε α → Except ε α' → Prop
  | .ok a, .ok a' => Q a a'
  | .error e, .error e' => e = e'
  | _, _ => False

theorem Agree.refl {x : Except ε α} : Agree (· = ·) x x := by
  cases x <;> rfl

/-- The two ways to agree. -/
theorem Agree.cases {Q : α → α' → Prop} {x : Except ε α} {x' : Except ε α'} (h : Agree Q x x') :
    (∃ a a', x = .ok a ∧ x' = .ok a' ∧ Q a a') ∨ ∃ e, x = .error e ∧ x' = .error e := by
  cases x with
  | ok a =>
      cases x' with
      | ok a' => exact .inl ⟨a, a', rfl, rfl, h⟩
      | error e' => exact h.elim
  | error e =>
      cases x' with
      | ok a' => exact h.elim
      | error e' => exact .inr ⟨e, rfl, congrArg Except.error (Eq.symm h)⟩

theorem Agree.of_eq {x x' : Except ε α} (h : Agree (· = ·) x x') : x = x' := by
  rcases h.cases with ⟨a, a', rfl, rfl, rfl⟩ | ⟨e, rfl, rfl⟩ <;> rfl

/-- Related tasks are done together, with one result. -/
theorem done_iff {t : Task S L (Except ε α)} {t' : Task S' L' (Except ε α)}
    (h : Task.Related R E (Agree (· = ·)) t t') (r : Except ε α) : t = .done r ↔ t' = .done r := by
  cases t with
  | done x =>
      cases t' with
      | done x' =>
          obtain rfl := Agree.of_eq h
          simp
      | access act' rest' => exact h.elim
  | access act rest =>
      cases t' with
      | done x' => exact h.elim
      | access act' rest' => simp

/-- Two attempts that are related and fail together. -/
def Related (R : S → S' → Prop) (E : L → L' → Prop) (Q : α → α' → Prop) (t : Attempt S L ε α)
    (t' : Attempt S' L' ε α') : Prop :=
  Task.Related R E (Agree Q) t t'

theorem Related.bind {Q : α → α' → Prop} {Q' : β → β' → Prop} {t : Attempt S L ε α}
    {t' : Attempt S' L' ε α'} {k : α → Attempt S L ε β} {k' : α' → Attempt S' L' ε β'}
    (h : Related R E Q t t') (hk : ∀ a a', Q a a' → Related R E Q' (k a) (k' a')) :
    Related R E Q' (t >>= k : Attempt S L ε β) (t' >>= k' : Attempt S' L' ε β') := by
  apply Task.Related.bind h
  intro r r' hr
  cases r with
  | ok a =>
      cases r' with
      | ok a' => exact hk a a' hr
      | error e' => exact hr.elim
  | error e =>
      cases r' with
      | ok a' => exact hr.elim
      | error e' => exact hr

/-- Sequencing behind the same result on both sides. -/
theorem Related.bind_eq {Q : β → β' → Prop} {t : Attempt S L ε α} {t' : Attempt S' L' ε α}
    {k : α → Attempt S L ε β} {k' : α → Attempt S' L' ε β'} (h : Related R E (· = ·) t t')
    (hk : ∀ a, Related R E Q (k a) (k' a)) :
    Related R E Q (t >>= k : Attempt S L ε β) (t' >>= k' : Attempt S' L' ε β') := by
  apply h.bind
  rintro a _ rfl
  exact hk a

/-- Related computations that do not touch the state. -/
theorem Related.lift {Q : α → α' → Prop} {x : Except ε α} {x' : Except ε α'} (h : Agree Q x x') :
    Related R E Q (Attempt.lift x : Attempt S L ε α) (Attempt.lift x' : Attempt S' L' ε α') :=
  h

theorem Related.pure {Q : α → α' → Prop} {a : α} {a' : α'} (h : Q a a') :
    Related R E Q (pure a : Attempt S L ε α) (pure a' : Attempt S' L' ε α') :=
  h

/-- One access on each side. -/
theorem Related.access {Q : α → α' → Prop} {act : S → S × L} {act' : S' → S' × L'}
    {result : S → Except ε α} {result' : S' → Except ε α'}
    (h : ∀ s s', R s s' → R (act s).1 (act' s').1 ∧ E (act s).2 (act' s').2 ∧
      Agree Q (result s) (result' s')) :
    Related R E Q (Attempt.access act result) (Attempt.access act' result') :=
  h

theorem Related.mapError {Q : α → α' → Prop} (f : ε → ε') {t : Attempt S L ε α}
    {t' : Attempt S' L' ε α'} (h : Related R E Q t t') :
    Related R E Q (t.mapError f) (t'.mapError f) := by
  apply Task.Related.bind h
  intro r r' hr
  cases r with
  | ok a =>
      cases r' with
      | ok a' => exact hr
      | error e' => exact hr.elim
  | error e =>
      cases r' with
      | ok a' => exact hr.elim
      | error e' => exact congrArg f hr

end Attempt

/-! ## Pools -/

section Pools

variable {ι : Type} [DecidableEq ι] {Q : α → α' → Prop}

/-- Two pools in related states with related tasks. -/
structure PoolsRelated (R : S → S' → Prop) (E : L → L' → Prop) (Q : α → α' → Prop)
    (c : Pool ι S L α) (c' : Pool ι S' L' α') : Prop where
  shared : R c.shared c'.shared
  tasks : ∀ i, Task.Related R E Q (c.task i) (c'.task i)

/-- **A step of the same task.** -/
theorem PoolsRelated.advance {c : Pool ι S L α} {c' : Pool ι S' L' α'}
    (h : PoolsRelated R E Q c c') (i : ι) :
    PoolsRelated R E Q (c.advance i).1 (c'.advance i).1 ∧
      List.Forall₂ (fun e e' => e.1 = e'.1 ∧ E e.2 e'.2) (c.advance i).2 (c'.advance i).2 := by
  have hi := h.tasks i
  cases htask : c.task i with
  | done a =>
      cases htask' : c'.task i with
      | done a' =>
          rw [Pool.advance_done htask, Pool.advance_done htask']
          exact ⟨h, .nil⟩
      | access act' rest' =>
          rw [htask, htask'] at hi
          exact hi.elim
  | access act rest =>
      cases htask' : c'.task i with
      | done a' =>
          rw [htask, htask'] at hi
          exact hi.elim
      | access act' rest' =>
          rw [htask, htask'] at hi
          obtain ⟨hnext, hlabel, hrest⟩ := hi _ _ h.shared
          rw [Pool.advance_access htask, Pool.advance_access htask']
          -- both take one access, and the other tasks wait
          refine ⟨⟨hnext, fun j => ?_⟩, .cons ⟨rfl, hlabel⟩ .nil⟩
          by_cases hj : j = i
          · subst hj
            simpa using hrest
          · simpa [Function.update_of_ne hj] using h.tasks j

/-- **Every schedule** leaves related pools and related traces. -/
theorem PoolsRelated.run {c : Pool ι S L α} {c' : Pool ι S' L' α'} (h : PoolsRelated R E Q c c')
    (schedule : List ι) :
    PoolsRelated R E Q (c.after schedule) (c'.after schedule) ∧
      List.Forall₂ (fun e e' => e.1 = e'.1 ∧ E e.2 e'.2) (c.trace schedule)
        (c'.trace schedule) := by
  induction schedule generalizing c c' with
  | nil => exact ⟨h, .nil⟩
  | cons i schedule ih =>
      rw [Pool.after, Pool.after, Pool.trace, Pool.trace, Transducer.run_cons, Transducer.run_cons]
      obtain ⟨hstep, hlabels⟩ := h.advance i
      obtain ⟨hafter, htrace⟩ := ih hstep
      exact ⟨hafter, List.rel_append hlabels htrace⟩

end Pools

end AiApiBridge
