import AiApiBridge.Lib.Transducer
import Mathlib.Logic.Function.Basic

/-!
# Tasks over a shared state

A task accesses a shared state in atomic steps and runs code of its own in
between; an `Attempt` is one that may fail. `alone` runs one task with nobody in
its way; a `Pool` holds any number of tasks, and a schedule, a list of the tasks
in the order in which they get to take a step, stands for any interleaving of
theirs.

A pool step emits what the task did, so that runs leave a trace. A monitor reads
a trace from left to right; `Guarded` traces are those whose every event the
monitor allows, and `run_guarded` is the invariant rule for runs that leave such
a trace.
-/

set_option autoImplicit false

namespace AiApiBridge

/-- A task over the shared state `S`. An access turns the shared state into the
next one and says what it did; the rest of the task depends on the state read. -/
inductive Task (S L α : Type) where
  | done (result : α)
  | access (act : S → S × L) (rest : S → Task S L α)

namespace Task

variable {S L α β : Type}

/-- A task, then another that depends on its result. -/
protected def bind : Task S L α → (α → Task S L β) → Task S L β
  | done a, k => k a
  | access act rest, k => access act fun s => (rest s).bind k

/-- The result of a task and the state it leaves when nobody else takes a step. -/
def alone : Task S L α → S → α × S
  | done a, s => (a, s)
  | access act rest, s => (rest s).alone (act s).1

theorem alone_bind (t : Task S L α) (k : α → Task S L β) (s : S) :
    (t.bind k).alone s = (k (t.alone s).1).alone (t.alone s).2 := by
  induction t generalizing s with
  | done a => rfl
  | access act rest ih => exact ih s (act s).1

section Focus

variable {T L' : Type}

/-- A task on a component of the state. The label may tell of the new component. -/
def focus (get : S → T) (put : T → S → S) (label : T → L' → L) : Task T L' α → Task S L α
  | done a => done a
  | access act rest =>
      access (fun s => (put (act (get s)).1 s, label (act (get s)).1 (act (get s)).2)) fun s =>
        (rest (get s)).focus get put label

/-- A sequence on a component is the sequence of its parts on it. -/
theorem focus_bind {get : S → T} {put : T → S → S} {label : T → L' → L} (t : Task T L' α)
    (k : α → Task T L' β) :
    (t.bind k).focus get put label =
      (t.focus get put label).bind fun a => (k a).focus get put label := by
  induction t with
  | done a => rfl
  | access act rest ih => simp only [Task.bind, focus, ih]

end Focus

end Task

/-! ## Tasks that may fail -/

/-- A task that may fail with an error. -/
def Attempt (S L ε α : Type) : Type := Task S L (Except ε α)

namespace Attempt

variable {S L ε ε' α β : Type}

/-- An attempt, then another that depends on its result; the first error ends
both. -/
protected def bind (t : Attempt S L ε α) (k : α → Attempt S L ε β) : Attempt S L ε β :=
  Task.bind t fun
    | .ok a => k a
    | .error e => .done (.error e)

instance : Monad (Attempt S L ε) where
  pure a := Task.done (.ok a)
  bind := Attempt.bind

/-- A computation that does not touch the shared state. -/
def lift (x : Except ε α) : Attempt S L ε α := Task.done x

instance : MonadLift (Except ε) (Attempt S L ε) := ⟨lift⟩

/-- A single access. -/
def access (act : S → S × L) (result : S → Except ε α) : Attempt S L ε α :=
  Task.access act fun s => .done (result s)

/-- Rename the error. -/
def mapError (f : ε → ε') (t : Attempt S L ε α) : Attempt S L ε' α :=
  Task.bind t fun r => .done (r.mapError f)

/-- **Two attempts in a row succeed alone** when each of them does. -/
theorem alone_bind_ok {t : Attempt S L ε α} {k : α → Attempt S L ε β} {s s'' : S} {b : β}
    (h : Task.alone (t >>= k : Attempt S L ε β) s = (.ok b, s'')) :
    ∃ a s', Task.alone t s = (.ok a, s') ∧ Task.alone (k a) s' = (.ok b, s'') := by
  have hbind := (Task.alone_bind t (fun
    | .ok a => k a
    | .error e => .done (.error e)) s).symm.trans h
  rcases ht : Task.alone t s with ⟨r, s'⟩
  rw [ht] at hbind
  cases r with
  | error e => cases hbind
  | ok a => exact ⟨a, s', rfl, hbind⟩

/-- Two attempts in a row alone: the second follows a success of the first, and an error of the
first ends both. -/
theorem alone_bind_cases (t : Attempt S L ε α) (k : α → Attempt S L ε β) (s : S) :
    (∃ a s', Task.alone t s = (.ok a, s') ∧
      Task.alone (t >>= k : Attempt S L ε β) s = Task.alone (k a) s') ∨
    ∃ e s', Task.alone t s = (.error e, s') ∧
      Task.alone (t >>= k : Attempt S L ε β) s = (.error e, s') := by
  rcases ht : Task.alone t s with ⟨r, s'⟩
  cases r with
  | ok a => exact .inl ⟨a, s', rfl, (Task.alone_bind t _ s).trans (by rw [ht])⟩
  | error e => exact .inr ⟨e, s', rfl, (Task.alone_bind t _ s).trans (by rw [ht]; rfl)⟩

/-- A computation in front succeeds, and leaves the state as it is. -/
theorem alone_lift_ok {x : Except ε α} {k : α → Attempt S L ε β} {s s' : S} {b : β}
    (h : Task.alone (lift x >>= k : Attempt S L ε β) s = (.ok b, s')) :
    ∃ a, x = .ok a ∧ Task.alone (k a) s = (.ok b, s') := by
  obtain ⟨a, s₁, hx, h⟩ := alone_bind_ok h
  obtain ⟨hok, rfl⟩ := Prod.mk.inj hx
  exact ⟨a, hok, h⟩

end Attempt

/-! ## Pools -/

/-- Tasks over one shared state. -/
structure Pool (ι S L α : Type) where
  shared : S
  task : ι → Task S L α

namespace Pool

variable {ι S L α : Type} [DecidableEq ι]

/-- Let a task take its next step. A finished task has none. -/
def advance : Transducer.Step (Pool ι S L α) ι (ι × L) := fun c i =>
  match c.task i with
  | .done _ => (c, [])
  | .access act rest =>
      (⟨(act c.shared).1, Function.update c.task i (rest c.shared)⟩, [(i, (act c.shared).2)])

/-- The pool after a schedule. -/
def after (c : Pool ι S L α) (schedule : List ι) : Pool ι S L α :=
  (Transducer.run advance c schedule).1

/-- What the tasks have done in a schedule. -/
def trace (c : Pool ι S L α) (schedule : List ι) : List (ι × L) :=
  (Transducer.run advance c schedule).2

theorem advance_done {c : Pool ι S L α} {i : ι} {a : α} (h : c.task i = .done a) :
    advance c i = (c, []) := by
  simp [advance, h]

theorem advance_access {c : Pool ι S L α} {i : ι} {act : S → S × L} {rest : S → Task S L α}
    (h : c.task i = .access act rest) :
    advance c i =
      (⟨(act c.shared).1, Function.update c.task i (rest c.shared)⟩,
        [(i, (act c.shared).2)]) := by
  simp [advance, h]

end Pool

/-! ## Monitored runs -/

section Monitored

variable {M ε : Type} (next : M → ε → M) (allowed : M → ε → Prop)

/-- Every event of a trace is allowed by the monitor when it occurs. -/
def Guarded : M → List ε → Prop
  | _, [] => True
  | m, e :: es => allowed m e ∧ Guarded (next m e) es

instance Guarded.decidable [∀ m e, Decidable (allowed m e)] :
    ∀ m es, Decidable (Guarded next allowed m es)
  | _, [] => isTrue trivial
  | m, e :: es => @instDecidableAnd _ _ inferInstance (Guarded.decidable (next m e) es)

theorem guarded_append (m : M) (es es' : List ε) :
    Guarded next allowed m (es ++ es') ↔
      Guarded next allowed m es ∧ Guarded next allowed (es.foldl next m) es' := by
  induction es generalizing m with
  | nil => simp [Guarded]
  | cons e es ih => simp [Guarded, ih, and_assoc]

/-- **Invariant rule for pools under a monitor.** An invariant of pool and monitor
that every allowed access keeps holds after every schedule with a guarded
trace. -/
theorem Pool.run_guarded {ι S L α : Type} [DecidableEq ι] {next : M → ι × L → M}
    {allowed : M → ι × L → Prop} (Inv : Pool ι S L α → M → Prop)
    (keep : ∀ (c : Pool ι S L α) m i act rest, c.task i = .access act rest →
      allowed m (i, (act c.shared).2) → Inv c m →
        Inv ⟨(act c.shared).1, Function.update c.task i (rest c.shared)⟩
          (next m (i, (act c.shared).2)))
    (schedule : List ι) (c : Pool ι S L α) (m : M) (start : Inv c m)
    (h : Guarded next allowed m (c.trace schedule)) :
    Inv (c.after schedule) ((c.trace schedule).foldl next m) := by
  induction schedule generalizing c m with
  | nil => exact start
  | cons i schedule ih =>
      rw [trace, after, Transducer.run_cons] at *
      rw [guarded_append] at h
      rw [List.foldl_append]
      rcases h with ⟨hfirst, hrest⟩
      -- the first step keeps the invariant, and the rest is guarded from there
      refine ih _ _ ?_ hrest
      cases htask : c.task i with
      | done a =>
          rw [advance_done htask]
          exact start
      | access act rest =>
          rw [advance_access htask] at hfirst ⊢
          exact keep c m i act rest htask hfirst.1 start

/-- **Exact rule for pools under a monitor.** When an access is allowed exactly if it
leads to a good state, a trace is guarded exactly if all states on the way are good. -/
theorem Pool.guarded_iff {ι S L α : Type} [DecidableEq ι] {next : M → ι × L → M}
    {allowed : M → ι × L → Prop} (Inv : Pool ι S L α → M → Prop) (Good : S → M → Prop)
    (good : ∀ c m, Inv c m → Good c.shared m)
    (keep : ∀ (c : Pool ι S L α) m i act rest, c.task i = .access act rest → Inv c m →
      (allowed m (i, (act c.shared).2) ↔
        Good (act c.shared).1 (next m (i, (act c.shared).2))) ∧
      (allowed m (i, (act c.shared).2) →
        Inv ⟨(act c.shared).1, Function.update c.task i (rest c.shared)⟩
          (next m (i, (act c.shared).2))))
    (schedule : List ι) (c : Pool ι S L α) (m : M) (start : Inv c m) :
    Guarded next allowed m (c.trace schedule) ↔
      ∀ pre, pre <+: schedule → Good (c.after pre).shared ((c.trace pre).foldl next m) := by
  induction schedule generalizing c m with
  | nil =>
      apply iff_of_true trivial
      intro pre hpre
      rw [List.prefix_nil.1 hpre]
      exact good c m start
  | cons i schedule ih =>
      -- what comes behind the first step
      have hcons : (∀ pre, pre <+: i :: schedule →
            Good (c.after pre).shared ((c.trace pre).foldl next m)) ↔
          ∀ pre, pre <+: schedule → Good ((advance c i).1.after pre).shared
            (((advance c i).1.trace pre).foldl next ((advance c i).2.foldl next m)) := by
        constructor
        · intro h pre hpre
          have hi := h (i :: pre) (List.cons_prefix_cons.2 ⟨rfl, hpre⟩)
          rwa [after, trace, Transducer.run_cons, List.foldl_append] at hi
        · intro h pre hpre
          cases pre with
          | nil => exact good c m start
          | cons j pre =>
              obtain ⟨rfl, hrest⟩ := List.cons_prefix_cons.1 hpre
              rw [after, trace, Transducer.run_cons, List.foldl_append]
              exact h pre hrest
      -- a task that is done adds nothing; an access is judged first
      rw [hcons, trace, Transducer.run_cons, guarded_append]
      cases htask : c.task i with
      | done a =>
          rw [advance_done htask]
          simpa [Guarded, trace] using ih c m start
      | access act rest =>
          rw [advance_access htask]
          obtain ⟨hallowed, hkeep⟩ := keep c m i act rest htask start
          by_cases ha : allowed m (i, (act c.shared).2)
          · simpa [Guarded, ha, trace] using ih _ _ (hkeep ha)
          · refine iff_of_false (fun h => ha h.1.1) fun h => ha (hallowed.2 ?_)
            exact h [] List.nil_prefix

end Monitored

end AiApiBridge
