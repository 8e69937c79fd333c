import AiApiBridge.Lib.Splits
import AiApiBridge.Lib.Tasks
import Mathlib.Order.Defs.PartialOrder

/-!
# Contracts of tasks

What tasks over a shared state promise each other. A contract has worlds that only grow,
an invariant of world and state, a protocol that each task runs through for itself, and the
labels that are allowed in a world at a stage. A task `Meets` the contract when each of its
accesses, made in any later world and in any state the invariant allows, keeps the
invariant, does something allowed and takes the next step of the protocol. Tasks that meet
a contract may take turns in any way (`Pool.meets_run`).
-/

set_option autoImplicit false

namespace AiApiBridge

/-- A contract over states `S` and labels `L`, with worlds `W` and protocol stages `Q`. -/
structure Contract (S L W Q : Type) [Preorder W] where
  inv : W → S → Prop
  next : W → L → W
  allowed : W → Q → L → Prop
  step : Q → L → Option Q
  le_next : ∀ w l, w ≤ next w l

namespace Contract

variable {S L W Q : Type} [Preorder W] (C : Contract S L W Q)

/-- A monitor of the whole pool: the world, and the stage of every task. -/
def monitor {ι : Type} [DecidableEq ι] (m : W × (ι → Q)) (e : ι × L) : W × (ι → Q) :=
  (C.next m.1 e.2, Function.update m.2 e.1 ((C.step (m.2 e.1) e.2).getD (m.2 e.1)))

/-- What the monitor accepts. -/
def Accepts {ι : Type} (m : W × (ι → Q)) (e : ι × L) : Prop :=
  C.allowed m.1 (m.2 e.1) e.2 ∧ (C.step (m.2 e.1) e.2).isSome

/-- A stage after a word of labels. -/
def stages (q : Q) (ls : List L) : Option Q := ls.foldlM C.step q

end Contract

/-! ## Tasks that meet a contract -/

section Meets

variable {S L W Q α β : Type} [Preorder W] {C : Contract S L W Q}

/-- A task keeps to the contract from a stage and a world on, and ends with a result, a stage
and a world that satisfy `Post`. -/
def Task.Meets (C : Contract S L W Q) (Post : Q → W → α → Prop) : Q → W → Task S L α → Prop
  | q, w, .done a => Post q w a
  | q, w, .access act rest => ∀ w' s, w ≤ w' → C.inv w' s →
      C.inv (C.next w' (act s).2) (act s).1 ∧ C.allowed w' q (act s).2 ∧
        ∃ q', C.step q (act s).2 = some q' ∧ Meets C Post q' (C.next w' (act s).2) (rest s)

namespace Task.Meets

variable {Post Post' : Q → W → α → Prop} {Post₂ : Q → W → β → Prop} {q : Q} {w w' : W}

theorem mono {t : Task S L α} (h : Meets C Post q w t)
    (hpost : ∀ q w a, Post q w a → Post' q w a) : Meets C Post' q w t := by
  induction t generalizing q w with
  | done a => exact hpost q w a h
  | access act rest ih =>
      intro w' s hle hinv
      obtain ⟨hinv', hallowed, q', hstep, hrest⟩ := h w' s hle hinv
      exact ⟨hinv', hallowed, q', hstep, ih s hrest⟩

/-- A task may wait until the world has grown. -/
theorem later {t : Task S L α} (h : Meets C Post q w t) (hle : w ≤ w')
    (hpost : ∀ q w w' a, w ≤ w' → Post q w a → Post q w' a) : Meets C Post q w' t := by
  cases t with
  | done a => exact hpost q w w' a hle h
  | access act rest => exact fun w'' s hle' => h w'' s (le_trans hle hle')

/-- **Sequencing rule.** The second part starts in a later world. -/
theorem bind {t : Task S L α} {k : α → Task S L β} (h : Meets C Post q w t)
    (hk : ∀ q' w' a, w ≤ w' → Post q' w' a → Meets C Post₂ q' w' (k a)) :
    Meets C Post₂ q w (t.bind k) := by
  induction t generalizing q w with
  | done a => exact hk q w a (le_refl w) h
  | access act rest ih =>
      intro w' s hle hinv
      obtain ⟨hinv', hallowed, q', hstep, hrest⟩ := h w' s hle hinv
      refine ⟨hinv', hallowed, q', hstep, ih s hrest fun q'' w'' a hlater => hk q'' w'' a ?_⟩
      exact le_trans hle (le_trans (C.le_next w' _) hlater)

end Task.Meets

/-! ## Attempts -/

section Attempts

variable {ε ε' : Type}

/-- What holds of a result that is no error. -/
def OnOk (Post : Q → W → α → Prop) (Fails : Q → W → ε → Prop) : Q → W → Except ε α → Prop
  | q, w, .ok a => Post q w a
  | q, w, .error e => Fails q w e

/-- An attempt that keeps to the contract, failed or not. -/
def Attempt.Meets (C : Contract S L W Q) (Post : Q → W → α → Prop) (Fails : Q → W → ε → Prop)
    (q : Q) (w : W) (t : Attempt S L ε α) : Prop :=
  Task.Meets C (OnOk Post Fails) q w t

namespace Attempt.Meets

variable {Post : Q → W → α → Prop} {Post₂ : Q → W → β → Prop} {Fails : Q → W → ε → Prop} {q : Q}
  {w : W}

theorem bind {t : Attempt S L ε α} {k : α → Attempt S L ε β} (h : Meets C Post Fails q w t)
    (hk : ∀ q' w' a, w ≤ w' → Post q' w' a → Meets C Post₂ Fails q' w' (k a)) :
    Meets C Post₂ Fails q w (t >>= k : Attempt S L ε β) := by
  apply Task.Meets.bind h
  intro q' w' r hle hr
  cases r with
  | ok a => exact hk q' w' a hle hr
  | error e => exact hr

theorem pure {a : α} (h : Post q w a) : Meets C Post Fails q w (pure a : Attempt S L ε α) := h

theorem mapError {Fails' : Q → W → ε' → Prop} {f : ε → ε'} {t : Attempt S L ε α}
    (h : Meets C Post Fails q w t) (hf : ∀ q w e, Fails q w e → Fails' q w (f e)) :
    Meets C Post Fails' q w (t.mapError f) := by
  apply Task.Meets.bind h
  intro q' w' r _ hr
  cases r with
  | ok a => exact hr
  | error e => exact hf q' w' e hr

/-- A pure check. -/
theorem lift {x : Except ε α} (hok : ∀ a, x = .ok a → Post q w a)
    (herror : ∀ e, x = .error e → Fails q w e) : Meets C Post Fails q w (Attempt.lift x) := by
  cases x with
  | ok a => exact hok a rfl
  | error e => exact herror e rfl

/-- One access. -/
theorem access {act : S → S × L} {result : S → Except ε α}
    (h : ∀ w' s, w ≤ w' → C.inv w' s →
      C.inv (C.next w' (act s).2) (act s).1 ∧ C.allowed w' q (act s).2 ∧
        ∃ q', C.step q (act s).2 = some q' ∧
          OnOk Post Fails q' (C.next w' (act s).2) (result s)) :
    Meets C Post Fails q w (Attempt.access act result) :=
  h

end Attempt.Meets

end Attempts

end Meets

/-! ## Pools -/

section Pools

variable {ι S L W Q α : Type} [DecidableEq ι] [Preorder W] {C : Contract S L W Q}
  {Post : ι → Q → W → α → Prop}

/-- The invariant of a pool whose tasks meet a contract. -/
structure Keeping (C : Contract S L W Q) (Post : ι → Q → W → α → Prop) (c : Pool ι S L α)
    (m : W × (ι → Q)) : Prop where
  shared : C.inv m.1 c.shared
  tasks : ∀ i, Task.Meets C (Post i) (m.2 i) m.1 (c.task i)

/-- **One access** of a task that keeps to the contract. -/
theorem Keeping.step (hpost : ∀ i q w w' a, w ≤ w' → Post i q w a → Post i q w' a)
    {c : Pool ι S L α} {m : W × (ι → Q)} (h : Keeping C Post c m) {i : ι} {act : S → S × L}
    {rest : S → Task S L α} (htask : c.task i = .access act rest) :
    C.Accepts m (i, (act c.shared).2) ∧
      Keeping C Post ⟨(act c.shared).1, Function.update c.task i (rest c.shared)⟩
        (C.monitor m (i, (act c.shared).2)) := by
  have hi := h.tasks i
  rw [htask] at hi
  obtain ⟨hinv, hallowed, q', hstep, hrest⟩ := hi m.1 c.shared (le_refl _) h.shared
  refine ⟨⟨hallowed, by rw [hstep]; rfl⟩, hinv, fun j => ?_⟩
  by_cases hj : j = i
  · subst hj
    simpa [Contract.monitor, hstep] using hrest
  · -- the others wait
    simpa [Contract.monitor, Function.update_of_ne hj] using
      (h.tasks j).later (C.le_next _ _) (hpost j)

/-- **Tasks that meet a contract** keep it in every interleaving. -/
theorem Pool.meets_run (hpost : ∀ i q w w' a, w ≤ w' → Post i q w a → Post i q w' a)
    {c : Pool ι S L α} {m : W × (ι → Q)} (h : Keeping C Post c m) (schedule : List ι) :
    Guarded C.monitor C.Accepts m (c.trace schedule) ∧
      Keeping C Post (c.after schedule) ((c.trace schedule).foldl C.monitor m) := by
  induction schedule generalizing c m with
  | nil => exact ⟨trivial, h⟩
  | cons i schedule ih =>
      rw [Pool.trace, Pool.after, Transducer.run_cons, guarded_append, List.foldl_append]
      cases htask : c.task i with
      | done a =>
          rw [Pool.advance_done htask]
          exact ⟨⟨trivial, (ih h).1⟩, (ih h).2⟩
      | access act rest =>
          rw [Pool.advance_access htask]
          obtain ⟨haccepts, hkeeps⟩ := h.step hpost htask
          exact ⟨⟨⟨haccepts, trivial⟩, (ih hkeeps).1⟩, (ih hkeeps).2⟩

/-! ## What an accepted trace says -/

/-- The labels of one task in a trace. -/
def labelsOf (i : ι) (trace : List (ι × L)) : List L :=
  (trace.filter fun e => e.1 = i).map Prod.snd

/-- The world after a trace. -/
def Contract.world (C : Contract S L W Q) (w : W) (trace : List (ι × L)) : W :=
  trace.foldl (fun w e => C.next w e.2) w

theorem foldl_monitor_fst (m : W × (ι → Q)) (trace : List (ι × L)) :
    (trace.foldl C.monitor m).1 = C.world m.1 trace := by
  induction trace generalizing m with
  | nil => rfl
  | cons e trace ih => exact ih (C.monitor m e)

/-- A protocol of one stage leaves every task where it is. -/
theorem foldl_monitor_snd (hstatic : ∀ q l, C.step q l = some q) (m : W × (ι → Q))
    (trace : List (ι × L)) : (trace.foldl C.monitor m).2 = m.2 := by
  induction trace generalizing m with
  | nil => rfl
  | cons e trace ih =>
      rw [List.foldl_cons, ih]
      simp [Contract.monitor, hstatic]

/-- **What is done at some point** of an accepted trace is allowed in the world and at the stage
of that point. -/
theorem Guarded.everySplit {m : W × (ι → Q)} {trace : List (ι × L)}
    (h : Guarded C.monitor C.Accepts m trace) :
    EverySplit (fun before e =>
      C.allowed (C.world m.1 before) ((before.foldl C.monitor m).2 e.1) e.2) trace := by
  rintro before e after rfl
  have hat := ((guarded_append C.monitor C.Accepts m before _).1 h).2.1.1
  rwa [foldl_monitor_fst] at hat

/-- Every task goes through the protocol. -/
theorem Guarded.stages {m : W × (ι → Q)} {trace : List (ι × L)}
    (h : Guarded C.monitor C.Accepts m trace) (i : ι) :
    C.stages (m.2 i) (labelsOf i trace) = some ((trace.foldl C.monitor m).2 i) := by
  induction trace generalizing m with
  | nil => rfl
  | cons e trace ih =>
      rcases e with ⟨j, l⟩
      obtain ⟨⟨-, hstep⟩, hrest⟩ := h
      have hrest' := ih hrest
      by_cases hj : j = i
      · subst hj
        obtain ⟨q', hq'⟩ := Option.isSome_iff_exists.1 hstep
        have hstage : (C.monitor m (j, l)).2 j = q' := by simp [Contract.monitor, hq']
        have hlabels : labelsOf j ((j, l) :: trace) = l :: labelsOf j trace := by
          simp [labelsOf]
        rw [hstage] at hrest'
        rw [hlabels, Contract.stages, List.foldlM_cons, hq']
        exact hrest'
      · have hstage : (C.monitor m (j, l)).2 i = m.2 i := by
          simp [Contract.monitor, Function.update_of_ne (Ne.symm hj)]
        have hlabels : labelsOf i ((j, l) :: trace) = labelsOf i trace := by
          simp [labelsOf, hj]
        rw [hstage] at hrest'
        rw [hlabels]
        exact hrest'

end Pools

end AiApiBridge
