import AiApiBridge.Lib.Tasks
import Mathlib.Data.Fintype.Basic

/-!
# Writing through and refreshing a cache

A store is kept in parts, and a cache should hold what the store holds. Each task
writes to the store once and then refreshes the cache: it reads the parts one
after the other and swaps in what it has read. Nothing keeps tasks apart, so a
part may have been overwritten by the time the swap comes.

`Monitor` keeps, along a trace, which tasks are between their write and their
swap and which parts have been overwritten since a task read them. `Follows` is
the discipline of one task. When every swap that brings in an
overwritten part leaves another task to swap after it (`Monitor.Allowed`), the
cache is current whenever no task is between its write and its swap (`Sound`), and
so once all tasks have succeeded (`current_of_succeeded`).
-/

set_option autoImplicit false

namespace AiApiBridge.Refresh

/-- What one access does: nothing to the store or the cache, a write to some parts,
the read of one part, or the swap of the cache. -/
inductive Event (τ : Type) where
  | quiet
  | committed (touched : List τ)
  | read (part : τ)
  | swapped
  deriving DecidableEq, Repr

variable {ι τ : Type} [DecidableEq ι] [DecidableEq τ]

/-- What a trace has left open: the tasks between write and swap, and for each task
the parts overwritten since it read them. -/
structure Monitor (ι τ : Type) where
  between : ι → Bool
  stale : ι → τ → Bool

namespace Monitor

def init : Monitor ι τ := ⟨fun _ => false, fun _ _ => false⟩

def next (m : Monitor ι τ) : ι × Event τ → Monitor ι τ
  | (_, .quiet) => m
  | (i, .committed touched) =>
      { between := Function.update m.between i true
        stale := fun j t => m.stale j t || decide (t ∈ touched) }
  | (i, .read t) =>
      { m with stale := Function.update m.stale i (Function.update (m.stale i) t false) }
  | (i, .swapped) => { m with between := Function.update m.between i false }

/-- A swap is fine when no part has been overwritten since it was read, or when
another task is still to swap. -/
def Allowed (m : Monitor ι τ) : ι × Event τ → Prop
  | (i, .swapped) => (∀ t, m.stale i t = false) ∨ ∃ j, j ≠ i ∧ m.between j = true
  | _ => True

instance [Fintype ι] [Fintype τ] (m : Monitor ι τ) : ∀ e, Decidable (m.Allowed e)
  | (i, .swapped) =>
      inferInstanceAs (Decidable ((∀ t, m.stale i t = false) ∨ ∃ j, j ≠ i ∧ m.between j = true))
  | (_, .quiet) | (_, .committed _) | (_, .read _) => isTrue trivial

end Monitor

/-! ## The discipline of a task -/

/-- A store in parts and its cache, as far as tasks see them. `Inv` holds all along
and `Le` relates an earlier state to a later one. -/
structure Setting (S τ : Type) (V : τ → Type) where
  Inv : S → Prop
  Le : S → S → Prop
  part : (t : τ) → S → V t
  Current : S → Prop
  le_refl : ∀ s, Le s s
  le_trans : ∀ {s s' s''}, Le s s' → Le s' s'' → Le s s''

/-- How far a task has come: before its write, refreshing with the parts seen so
far, or behind its swap. -/
inductive Stage {τ : Type} (V : τ → Type) where
  | front
  | refreshing (seen : (t : τ) → Option (V t))
  | refreshed

/-- Nothing has been seen. -/
def unseen {V : τ → Type} : (t : τ) → Option (V t) := fun _ => none

/-- Note what has been seen of a part. -/
def see {V : τ → Type} (seen : (t : τ) → Option (V t)) (t : τ) (v : V t) : (t : τ) → Option (V t) :=
  Function.update seen t (some v)

section Discipline

variable {S : Type} {V : τ → Type} (P : Setting S τ V)

/-- The accesses open to a task at a stage, from the state `s` with the outcome `r`.
A swap has to make the cache current only if the parts still are what has been
seen. -/
def Permitted (s : S) : Stage V → S × Event τ → (Stage V → Prop) → Prop
  | stage, (s', .quiet), goOn => s' = s ∧ goOn stage
  | .front, (s', .committed touched), goOn =>
      P.Inv s' ∧ P.Le s s' ∧ (∀ t, t ∉ touched → P.part t s' = P.part t s) ∧
        goOn (.refreshing unseen)
  | .front, (s', .read t), goOn => s' = s ∧ goOn (.refreshing (see unseen t (P.part t s)))
  | .refreshing seen, (s', .read t), goOn =>
      s' = s ∧ goOn (.refreshing (see seen t (P.part t s)))
  | .refreshing seen, (s', .swapped), goOn =>
      P.Inv s' ∧ P.Le s s' ∧ (∀ t, P.part t s' = P.part t s) ∧
        ((∀ t v, seen t = some v → P.part t s = v) → P.Current s') ∧ goOn .refreshed
  | _, _, _ => False

variable {ε ε' α β : Type}

/-- From a stage on, in every state not earlier than `low`, an attempt keeps to the
discipline, and a result satisfies `Q` together with the stage and the state in
which it is reached. It may fail anywhere. -/
def Follows (Q : Stage V → S → α → Prop) : Stage V → S → Task S (Event τ) (Except ε α) → Prop
  | stage, low, .done (.ok a) => Q stage low a
  | _, _, .done (.error _) => True
  | stage, low, .access act rest =>
      ∀ s, P.Le low s → P.Inv s →
        Permitted P s stage (act s) fun stage' => Follows Q stage' (act s).1 (rest s)

/-! ### Rules -/

/-- What a permitted access is. -/
theorem permitted_cases {s : S} {stage : Stage V} {r : S × Event τ} {goOn : Stage V → Prop}
    (h : Permitted P s stage r goOn) :
    (r = (s, .quiet) ∧ goOn stage) ∨
    (∃ s' touched, r = (s', .committed touched) ∧ stage = .front ∧ P.Inv s' ∧ P.Le s s' ∧
      (∀ t, t ∉ touched → P.part t s' = P.part t s) ∧ goOn (.refreshing unseen)) ∨
    (∃ t seen, r = (s, .read t) ∧ (stage = .front ∧ seen = unseen ∨ stage = .refreshing seen) ∧
      goOn (.refreshing (see seen t (P.part t s)))) ∨
    (∃ s' seen, r = (s', .swapped) ∧ stage = .refreshing seen ∧ P.Inv s' ∧ P.Le s s' ∧
      (∀ t, P.part t s' = P.part t s) ∧
      ((∀ t v, seen t = some v → P.part t s = v) → P.Current s') ∧ goOn .refreshed) := by
  rcases r with ⟨s', e⟩
  -- each event is permitted in the stages that name it only
  cases e with
  | quiet =>
      have h : s' = s ∧ goOn stage := by cases stage <;> exact h
      exact .inl ⟨by rw [h.1], h.2⟩
  | committed touched =>
      cases stage with
      | front => exact .inr (.inl ⟨s', touched, rfl, rfl, h⟩)
      | refreshing seen => exact h.elim
      | refreshed => exact h.elim
  | read t =>
      cases stage with
      | front => exact .inr (.inr (.inl ⟨t, unseen, by rw [h.1], .inl ⟨rfl, rfl⟩, h.2⟩))
      | refreshing seen => exact .inr (.inr (.inl ⟨t, seen, by rw [h.1], .inr rfl, h.2⟩))
      | refreshed => exact h.elim
  | swapped =>
      cases stage with
      | front => exact h.elim
      | refreshing seen => exact .inr (.inr (.inr ⟨s', seen, rfl, rfl, h⟩))
      | refreshed => exact h.elim

theorem Permitted.mono {s : S} {stage : Stage V} {r : S × Event τ} {goOn goOn' : Stage V → Prop}
    (h : Permitted P s stage r goOn) (hgo : ∀ stage', goOn stage' → goOn' stage') :
    Permitted P s stage r goOn' := by
  rcases permitted_cases P h with ⟨rfl, hon⟩ | ⟨s', touched, rfl, rfl, hinv, hle, hparts, hon⟩ |
    ⟨t, seen, rfl, ⟨rfl, rfl⟩ | rfl, hon⟩ | ⟨s', seen, rfl, rfl, hinv, hle, hparts, hcurrent, hon⟩
  · cases stage <;> exact ⟨rfl, hgo _ hon⟩
  · exact ⟨hinv, hle, hparts, hgo _ hon⟩
  · exact ⟨rfl, hgo _ hon⟩
  · exact ⟨rfl, hgo _ hon⟩
  · exact ⟨hinv, hle, hparts, hcurrent, hgo _ hon⟩

variable {P}

/-- **Sequencing rule.** -/
theorem Follows.bind {Q : Stage V → S → α → Prop} {Q' : Stage V → S → β → Prop}
    {k : α → Attempt S (Event τ) ε β} {t : Attempt S (Event τ) ε α} {stage : Stage V} {low : S}
    (h : Follows P Q stage low t)
    (hk : ∀ stage' s a, Q stage' s a → Follows P Q' stage' s (k a)) :
    Follows P Q' stage low (t >>= k : Attempt S (Event τ) ε β) := by
  induction t generalizing stage low with
  | done r =>
      cases r with
      | ok a => exact hk stage low a h
      | error e => trivial
  | access act rest ih => exact fun s hle hinv => (h s hle hinv).mono P fun _ hgo => ih s hgo

/-- A pure check leads on only when it succeeds. -/
theorem Follows.lift {Q : Stage V → S → α → Prop} {x : Except ε α} {stage : Stage V} {low : S}
    (h : ∀ a, x = .ok a → Q stage low a) : Follows P Q stage low (Attempt.lift x) := by
  cases x with
  | ok a => exact h a rfl
  | error e => trivial

/-- A quiet access. -/
theorem Follows.quiet {Q : Stage V → S → α → Prop} {result : S → Except ε α} {stage : Stage V}
    {low : S}
    (h : ∀ s a, P.Le low s → P.Inv s → result s = .ok a → Q stage s a) :
    Follows P Q stage low (Attempt.access (fun s => (s, .quiet)) result) := by
  intro s hle hinv
  have hresult : Follows P Q stage s (.done (result s)) := Follows.lift fun a ha => h s a hle hinv ha
  cases stage <;> exact ⟨rfl, hresult⟩

/-- Reading a part. -/
theorem Follows.read {Q : Stage V → S → α → Prop} {result : S → Except ε α} {low : S} {t : τ}
    {seen : (t : τ) → Option (V t)} {stage : Stage V}
    (hstage : stage = .front ∧ seen = unseen ∨ stage = .refreshing seen)
    (h : ∀ s a, P.Le low s → P.Inv s → result s = .ok a →
      Q (.refreshing (see seen t (P.part t s))) s a) :
    Follows P Q stage low (Attempt.access (fun s => (s, .read t)) result) := by
  intro s hle hinv
  have hresult : Follows P Q (.refreshing (see seen t (P.part t s))) s (.done (result s)) :=
    Follows.lift fun a ha => h s a hle hinv ha
  rcases hstage with ⟨rfl, rfl⟩ | rfl <;> exact ⟨rfl, hresult⟩

/-- The one write of a task, if it writes anything at all. -/
theorem Follows.commit {Q : Stage V → S → α → Prop} {act : S → S × Event τ}
    {result : S → Except ε α} {low : S}
    (hact : ∀ s, P.Le low s → P.Inv s → act s = (s, .quiet) ∨
      ∃ s' touched, act s = (s', .committed touched) ∧ P.Inv s' ∧ P.Le s s' ∧
        ∀ t, t ∉ touched → P.part t s' = P.part t s)
    (h : ∀ stage s a, stage = .front ∨ stage = .refreshing unseen → Q stage s a) :
    Follows P Q .front low (Attempt.access act result) := by
  intro s hle hinv
  rcases hact s hle hinv with heq | ⟨s', touched, heq, hinv', hle', hparts⟩
  · rw [heq]
    exact ⟨rfl, Follows.lift fun a _ => h _ _ a (.inl rfl)⟩
  · rw [heq]
    exact ⟨hinv', hle', hparts, Follows.lift fun a _ => h _ _ a (.inr rfl)⟩

/-- The swap. -/
theorem Follows.swap {Q : Stage V → S → α → Prop} {act : S → S} {result : S → Except ε α} {low : S}
    {seen : (t : τ) → Option (V t)}
    (hact : ∀ s, P.Le low s → P.Inv s → P.Inv (act s) ∧ P.Le s (act s) ∧
      (∀ t, P.part t (act s) = P.part t s) ∧
        ((∀ t v, seen t = some v → P.part t s = v) → P.Current (act s)))
    (h : ∀ s a, Q .refreshed s a) :
    Follows P Q (.refreshing seen) low (Attempt.access (fun s => (act s, .swapped)) result) := by
  intro s hle hinv
  obtain ⟨hinv', hle', hparts, hcurrent⟩ := hact s hle hinv
  exact ⟨hinv', hle', hparts, hcurrent, Follows.lift fun a _ => h _ a⟩

/-- Renaming errors. -/
theorem Follows.mapError {Q : Stage V → S → α → Prop} (f : ε → ε')
    {t : Attempt S (Event τ) ε α} {stage : Stage V} {low : S} (h : Follows P Q stage low t) :
    Follows P Q stage low (t.mapError f) := by
  induction t generalizing stage low with
  | done r =>
      cases r with
      | ok a => exact h
      | error e => trivial
  | access act rest ih => exact fun s hle hinv => (h s hle hinv).mono P fun _ hgo => ih s hgo

/-- An attempt that writes and refreshes, and succeeds only behind its swap. -/
def Refreshes (P : Setting S τ V) (low : S) (t : Task S (Event τ) (Except ε α)) : Prop :=
  Follows P (fun stage _ _ => stage = .refreshed) .front low t

theorem Refreshes.mono {low low' : S} {t : Task S (Event τ) (Except ε α)} (h : Refreshes P low t)
    (hle : P.Le low low') : Refreshes P low' t := by
  cases t with
  | done r => cases r <;> exact h
  | access act rest => exact fun s hs hinv => h s (P.le_trans hle hs) hinv

/-- What is in front of the write may be anything that stays in front of it. -/
theorem Follows.refreshes {t : Attempt S (Event τ) ε α} {k : α → Attempt S (Event τ) ε β} {low : S}
    (h : Follows P (fun stage _ _ => stage = .front) .front low t)
    (hk : ∀ s a, Refreshes P s (k a)) :
    Refreshes P low (t >>= k : Attempt S (Event τ) ε β) := by
  apply h.bind
  intro stage s a hstage
  cases hstage
  exact hk s a

/-! ## A task with nobody in its way -/

variable (P)

/-- What a task that runs alone knows at a stage: the parts are as it has seen them,
and behind its swap the cache is current. -/
def Undisturbed (s : S) : Stage V → Prop
  | .front => True
  | .refreshing seen => ∀ t v, seen t = some v → P.part t s = v
  | .refreshed => P.Current s

variable {P}

theorem undisturbed_see {s : S} {seen : (t : τ) → Option (V t)}
    (h : ∀ t v, seen t = some v → P.part t s = v) (t : τ) :
    Undisturbed P s (.refreshing (see seen t (P.part t s))) := by
  intro p v hp
  by_cases hpt : p = t
  · subst hpt
    simpa [see] using hp
  · rw [see, Function.update_of_ne hpt] at hp
    exact h p v hp

/-- A task that keeps to the discipline and succeeds alone leaves the cache current. -/
theorem Follows.alone {stage : Stage V} {low s s' : S} {t : Task S (Event τ) (Except ε α)} {a : α}
    (h : Follows P (fun stage _ _ => stage = .refreshed) stage low t) (hle : P.Le low s)
    (hinv : P.Inv s) (hstage : Undisturbed P s stage) (hdone : t.alone s = (.ok a, s')) :
    P.Inv s' ∧ P.Current s' := by
  induction t generalizing stage low s with
  | done r =>
      obtain ⟨rfl, rfl⟩ := Prod.mk.inj hdone
      obtain rfl : stage = .refreshed := h
      exact ⟨hinv, hstage⟩
  | access act rest ih =>
      rw [Task.alone] at hdone
      have hpermitted := h s hle hinv
      rcases permitted_cases P hpermitted with ⟨hr, hgo⟩ |
        ⟨s₁, touched, hr, rfl, hinv₁, -, -, hgo⟩ | ⟨t, seen, hr, hseen, hgo⟩ |
        ⟨s₁, seen, hr, rfl, hinv₁, -, -, hcurrent, hgo⟩
      · rw [hr] at hgo hdone
        exact ih s hgo (P.le_refl s) hinv hstage hdone
      · -- behind the write nothing has been seen yet
        rw [hr] at hgo hdone
        exact ih s hgo (P.le_refl s₁) hinv₁ (fun _ _ hnone => nomatch hnone) hdone
      · rw [hr] at hgo hdone
        refine ih s hgo (P.le_refl s) hinv (undisturbed_see ?_ t) hdone
        rcases hseen with ⟨-, rfl⟩ | rfl
        · exact fun _ _ hnone => nomatch hnone
        · exact hstage
      · rw [hr] at hgo hdone
        exact ih s hgo (P.le_refl s₁) hinv₁ (hcurrent hstage) hdone

/-- **A refresh that nobody disturbs leaves the cache current.** -/
theorem Refreshes.alone {s s' : S} {t : Task S (Event τ) (Except ε α)} {a : α}
    (h : Refreshes P s t) (hinv : P.Inv s) (hdone : t.alone s = (.ok a, s')) :
    P.Inv s' ∧ P.Current s' :=
  Follows.alone h (P.le_refl s) hinv trivial hdone

/-! ## The invariant of a pool -/

variable (P)

/-- What a task's stage says about the monitor and the store: a part that has been
seen and not been overwritten since is still there. -/
def Holds (i : ι) (s : S) (m : Monitor ι τ) : Stage V → Prop
  | .front => m.between i = false
  | .refreshing seen => ∀ t v, seen t = some v → m.stale i t = false → P.part t s = v
  | .refreshed => m.between i = false

/-- A task is at some stage of its discipline. -/
def AtStage (i : ι) (t : Task S (Event τ) (Except ε α)) (s : S) (m : Monitor ι τ) : Prop :=
  ∃ stage low, P.Le low s ∧ Follows P (fun stage _ _ => stage = .refreshed) stage low t ∧
    Holds P i s m stage

/-- The invariant: every task is at some stage, and the cache is current when no
task is between its write and its swap. -/
structure Sound (c : Pool ι S (Event τ) (Except ε α)) (m : Monitor ι τ) : Prop where
  inv : P.Inv c.shared
  current : (∀ i, m.between i = false) → P.Current c.shared
  tasks : ∀ i, AtStage P i (c.task i) c.shared m

variable {P}

omit [DecidableEq ι] [DecidableEq τ] in
/-- A task is not disturbed by what leaves its own entries of the monitor and the
parts that are not stale to it alone. -/
theorem Holds.frame {i : ι} {s s' : S} {m m' : Monitor ι τ} {stage : Stage V}
    (h : Holds P i s m stage) (hbetween : m'.between i = m.between i)
    (hparts : ∀ t, m'.stale i t = false → m.stale i t = false ∧ P.part t s' = P.part t s) :
    Holds P i s' m' stage := by
  cases stage with
  | front => exact hbetween.trans h
  | refreshing seen =>
      intro t v hseen hstale
      obtain ⟨hstale', hpart⟩ := hparts t hstale
      exact hpart.trans (h t v hseen hstale')
  | refreshed => exact hbetween.trans h

omit [DecidableEq ι] in
theorem AtStage.frame {i : ι} {t : Task S (Event τ) (Except ε α)} {s s' : S} {m m' : Monitor ι τ}
    (h : AtStage P i t s m) (hle : P.Le s s') (hbetween : m'.between i = m.between i)
    (hparts : ∀ p, m'.stale i p = false → m.stale i p = false ∧ P.part p s' = P.part p s) :
    AtStage P i t s' m' := by
  rcases h with ⟨stage, low, hlow, hfollows, hholds⟩
  exact ⟨stage, low, P.le_trans hlow hle, hfollows, hholds.frame hbetween hparts⟩

/-- The tasks of a pool after one of them has taken a step. -/
theorem atStage_update {c : Pool ι S (Event τ) (Except ε α)} {i : ι}
    {t : Task S (Event τ) (Except ε α)} {s' : S} {m' : Monitor ι τ} (hi : AtStage P i t s' m')
    (hothers : ∀ j, j ≠ i → AtStage P j (c.task j) s' m') (j : ι) :
    AtStage P j (Function.update c.task i t j) s' m' := by
  by_cases hj : j = i
  · subst hj
    rwa [Function.update_self]
  · rw [Function.update_of_ne hj]
    exact hothers j hj

/-- **An allowed access keeps the invariant.** -/
theorem Sound.step {c : Pool ι S (Event τ) (Except ε α)} {m : Monitor ι τ} (h : Sound P c m) {i : ι}
    {act : S → S × Event τ} {rest : S → Task S (Event τ) (Except ε α)}
    (htask : c.task i = .access act rest) (hallowed : m.Allowed (i, (act c.shared).2)) :
    Sound P ⟨(act c.shared).1, Function.update c.task i (rest c.shared)⟩
      (m.next (i, (act c.shared).2)) := by
  obtain ⟨stage, low, hlow, hfollows, hholds⟩ := h.tasks i
  rw [htask] at hfollows
  have hnow := P.le_refl c.shared
  rcases permitted_cases P (hfollows c.shared hlow h.inv) with ⟨hr, hgo⟩ |
    ⟨s', touched, hr, rfl, hinv, hle, hparts, hgo⟩ | ⟨t, seen, hr, hstage, hgo⟩ |
    ⟨s', seen, hr, rfl, hinv, hle, hparts, hcurrent, hgo⟩
  · rw [hr] at hgo ⊢
    exact ⟨h.inv, h.current, atStage_update ⟨stage, _, hnow, hgo, hholds⟩ fun j _ => h.tasks j⟩
  · rw [hr] at hgo ⊢
    refine ⟨hinv, fun hquiet => ?_, atStage_update ⟨_, _, P.le_refl s', hgo, ?_⟩ fun j hj => ?_⟩
    · have := hquiet i
      simp [Monitor.next] at this
    · exact fun t v hseen => nomatch hseen
    · apply (h.tasks j).frame hle (Function.update_of_ne hj ..)
      intro p hp
      simp only [Monitor.next, Bool.or_eq_false_iff, decide_eq_false_iff_not] at hp
      exact ⟨hp.1, hparts p hp.2⟩
  · have hseen : ∀ p v, seen p = some v → m.stale i p = false → P.part p c.shared = v := by
      rcases hstage with ⟨-, rfl⟩ | rfl
      · exact fun p v hp => nomatch hp
      · exact hholds
    rw [hr] at hgo ⊢
    refine ⟨h.inv, h.current, atStage_update ⟨_, _, hnow, hgo, ?_⟩ fun j hj => ?_⟩
    · intro p v hsee hstale
      by_cases hp : p = t
      · subst hp
        simpa [see] using hsee
      · rw [see, Function.update_of_ne hp] at hsee
        apply hseen p v hsee
        simpa [Monitor.next, hp] using hstale
    · refine (h.tasks j).frame hnow rfl fun p hp => ⟨?_, rfl⟩
      simpa [Monitor.next, hj] using hp
  · rw [hr] at hgo hallowed ⊢
    refine ⟨hinv, fun hquiet => ?_, atStage_update ⟨_, _, P.le_refl s', hgo, ?_⟩ fun j hj => ?_⟩
    · -- nobody else is still to swap, so nothing read has been overwritten
      rcases hallowed with hfresh | ⟨j, hj, hbetween⟩
      · exact hcurrent fun t v hseen => hholds t v hseen (hfresh t)
      · have := hquiet j
        simp [Monitor.next, hj, hbetween] at this
    · exact Function.update_self ..
    · exact (h.tasks j).frame hle (Function.update_of_ne hj ..) fun p hp => ⟨hp, hparts p⟩

/-! ## Runs -/

/-- Every swap of a trace is fine. -/
def GoodSwaps (trace : List (ι × Event τ)) : Prop := Guarded Monitor.next Monitor.Allowed .init trace

instance [Fintype ι] [Fintype τ] (trace : List (ι × Event τ)) : Decidable (GoodSwaps trace) :=
  inferInstanceAs (Decidable (Guarded _ _ _ _))

/-- **Sound runs.** The invariant holds after every schedule whose swaps are fine. -/
theorem sound_after {c : Pool ι S (Event τ) (Except ε α)} (hinv : P.Inv c.shared)
    (hcurrent : P.Current c.shared) (htasks : ∀ i, Refreshes P c.shared (c.task i))
    (schedule : List ι) (h : GoodSwaps (c.trace schedule)) :
    Sound P (c.after schedule) ((c.trace schedule).foldl Monitor.next .init) :=
  Pool.run_guarded (Sound P) (fun _ _ _ _ _ htask hallowed hsound => hsound.step htask hallowed)
    schedule c .init
    ⟨hinv, fun _ => hcurrent, fun i => ⟨.front, _, P.le_refl _, htasks i, rfl⟩⟩ h

/-- **The cache is current once all tasks have succeeded.** -/
theorem current_of_succeeded {c : Pool ι S (Event τ) (Except ε α)} (hinv : P.Inv c.shared)
    (hcurrent : P.Current c.shared) (htasks : ∀ i, Refreshes P c.shared (c.task i))
    (schedule : List ι) (h : GoodSwaps (c.trace schedule))
    (hdone : ∀ i, ∃ a, (c.after schedule).task i = .done (.ok a)) :
    P.Current (c.after schedule).shared := by
  have hsound := sound_after hinv hcurrent htasks schedule h
  apply hsound.current
  intro i
  obtain ⟨stage, low, -, hfollows, hholds⟩ := hsound.tasks i
  obtain ⟨a, ha⟩ := hdone i
  rw [ha] at hfollows
  have hstage : stage = .refreshed := hfollows
  rw [hstage] at hholds
  exact hholds

end Discipline

end AiApiBridge.Refresh
