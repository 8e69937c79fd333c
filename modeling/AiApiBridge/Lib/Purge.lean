import AiApiBridge.Lib.Contracts
import Mathlib.Data.List.Forall2

/-!
# Tasks that go unnoticed

A pool seen under an `Aspect` of its shared state. Some tasks are `Silent`: they leave the
aspect as it is, and end in an expected way. The others `Mirror` tasks over the aspect alone:
what they do to it, and what they find, are functions of it. Then the silent tasks can be struck
from any run (`Pool.purge`): what is left is a run of the other pool, to which the others have
done the same with the same results.
-/

set_option autoImplicit false

namespace AiApiBridge

/-- An aspect of the states that an invariant allows, and which labels show under it. -/
structure Aspect (S T L L' : Type) where
  inv : S → Prop
  view : S → T
  Hidden : L → Prop
  Shows : L → L' → Prop

namespace Task

section Aspects

variable {S T L L' α α' β β' : Type} (V : Aspect S T L L')

/-- A task that leaves the aspect as it is, and ends with an expected result. -/
def Silent (Ends : α → Prop) : Task S L α → Prop
  | done a => Ends a
  | access act rest => ∀ s, V.inv s →
      V.inv (act s).1 ∧ V.view (act s).1 = V.view s ∧ V.Hidden (act s).2 ∧ Silent Ends (rest s)

/-- A task that does to the aspect what another does to it as its whole state, with a result to
match. -/
def Mirrors (Same : α → α' → Prop) : Task S L α → Task T L' α' → Prop
  | done a, done a' => Same a a'
  | access act rest, access act' rest' => ∀ s, V.inv s →
      V.inv (act s).1 ∧ V.view (act s).1 = (act' (V.view s)).1 ∧
        V.Shows (act s).2 (act' (V.view s)).2 ∧ Mirrors Same (rest s) (rest' (V.view s))
  | _, _ => False

variable {V}

theorem bind_done (t : Task S L α) : t.bind done = t := by
  induction t with
  | done a => rfl
  | access act rest ih => simp only [Task.bind, ih]

section Mirroring

variable {Same : α → α' → Prop} {t : Task S L α} {t' : Task T L' α'}

/-- A task is done when the one it mirrors is. -/
theorem Mirrors.of_done {a : α} (h : Mirrors V Same (done a) t') :
    ∃ a', t' = done a' ∧ Same a a' := by
  cases t' with
  | done a' => exact ⟨a', rfl, h⟩
  | access act' rest' => exact h.elim

theorem Mirrors.of_done' {a' : α'} (h : Mirrors V Same t (done a')) :
    ∃ a, t = done a ∧ Same a a' := by
  cases t with
  | done a => exact ⟨a, rfl, h⟩
  | access act rest => exact h.elim

/-- What is done with the results. -/
theorem Mirrors.bind {Same' : β → β' → Prop} {k : α → Task S L β} {k' : α' → Task T L' β'}
    (h : Mirrors V Same t t') (hk : ∀ a a', Same a a' → Mirrors V Same' (k a) (k' a')) :
    Mirrors V Same' (t.bind k) (t'.bind k') := by
  induction t generalizing t' with
  | done a =>
      obtain ⟨a', rfl, hsame⟩ := h.of_done
      exact hk a a' hsame
  | access act rest ih =>
      cases t' with
      | done a' => exact h.elim
      | access act' rest' =>
          intro s hs
          obtain ⟨hinv, hview, hshows, hrest⟩ := h s hs
          exact ⟨hinv, hview, hshows, ih s hrest⟩

end Mirroring

/-- **A focused task mirrors the task itself.** -/
theorem mirrors_focus {put : T → S → S} {label : T → L' → L} (t : Task T L' α)
    (hview : ∀ x s, V.view (put x s) = x) (hinv : ∀ x s, V.inv s → V.inv (put x s))
    (hshows : ∀ x l, V.Shows (label x l) l) :
    Mirrors V Eq (t.focus V.view put label) t := by
  induction t with
  | done a => rfl
  | access act rest ih =>
      exact fun s hs => ⟨hinv _ s hs, hview _ s, hshows _ _, ih (V.view s)⟩

theorem Silent.bind {Ends : α → Prop} {Ends' : β → Prop} {t : Task S L α} {k : α → Task S L β}
    (h : Silent V Ends t) (hk : ∀ a, Ends a → Silent V Ends' (k a)) :
    Silent V Ends' (t.bind k) := by
  induction t with
  | done a => exact hk a h
  | access act rest ih =>
      intro s hs
      obtain ⟨hinv, hview, hhidden, hrest⟩ := h s hs
      exact ⟨hinv, hview, hhidden, ih s hrest⟩

theorem Silent.weaken {Ends Ends' : α → Prop} {t : Task S L α} (h : Silent V Ends t)
    (hends : ∀ a, Ends a → Ends' a) : Silent V Ends' t := by
  induction t with
  | done a => exact hends a h
  | access act rest ih =>
      intro s hs
      obtain ⟨hinv, hview, hhidden, hrest⟩ := h s hs
      exact ⟨hinv, hview, hhidden, ih s hrest⟩

/-- **A task that meets a contract mirrors itself** on the states that the contract can come to,
whatever the world. -/
theorem Meets.mirrors {W Q : Type} [Preorder W] {C : Contract S L W Q} {Post : Q → W → α → Prop}
    {q : Q} {w : W} {t : Task S L α} (h : Meets C Post q w t) {s₀ : S} (hs₀ : C.inv w s₀)
    {Hidden : L → Prop} {inv : S → Prop} (hinv : ∀ w s, C.inv w s → inv s)
    (hgrow : ∀ w s₀ s, C.inv w s₀ → inv s → ∃ w', w ≤ w' ∧ C.inv w' s) :
    Mirrors ⟨inv, id, Hidden, Eq⟩ Eq t t := by
  induction t generalizing q w s₀ with
  | done a => rfl
  | access act rest ih =>
      intro s hs
      obtain ⟨w', hle, hinv'⟩ := hgrow w s₀ s hs₀ hs
      obtain ⟨hnext, -, q', -, hrest⟩ := h w' s hle hinv'
      exact ⟨hinv _ _ hnext, rfl, rfl, ih s hrest hnext⟩

end Aspects

end Task

/-! ## Attempts -/

namespace Attempt

variable {S T L L' ε α β : Type} {V : Aspect S T L L'}

/-- An attempt that leaves the aspect as it is. -/
def Silent (V : Aspect S T L L') (t : Attempt S L ε α) : Prop := Task.Silent V (fun _ => True) t

theorem Silent.bind {t : Attempt S L ε α} {k : α → Attempt S L ε β} (h : Silent V t)
    (hk : ∀ a, Silent V (k a)) : Silent V (t >>= k : Attempt S L ε β) := by
  apply Task.Silent.bind h
  intro r _
  cases r with
  | ok a => exact hk a
  | error e => trivial

theorem Silent.done {r : Except ε α} : Silent V (Task.done r : Attempt S L ε α) := trivial

/-- One access that keeps the aspect. -/
theorem Silent.access {act : S → S × L} {result : S → Except ε α}
    (h : ∀ s, V.inv s → V.inv (act s).1 ∧ V.view (act s).1 = V.view s ∧ V.Hidden (act s).2) :
    Silent V (Attempt.access act result) :=
  fun s hs => ⟨(h s hs).1, (h s hs).2.1, (h s hs).2.2, trivial⟩

end Attempt

/-! ## Pools -/

/-- The members of a part. -/
def only {ι : Type} (p : ι → Bool) (i : ι) : Option {i // p i = true} :=
  if h : p i = true then some ⟨i, h⟩ else none

theorem only_eq_some {ι : Type} {p : ι → Bool} {i : ι} {k : {i // p i = true}}
    (h : only p i = some k) : k.1 = i := by
  rw [only] at h
  split at h <;> cases h
  rfl

theorem only_of_true {ι : Type} {p : ι → Bool} {i : ι} (h : p i = true) :
    only p i = some ⟨i, h⟩ := dif_pos h

theorem isSome_only {ι : Type} (p : ι → Bool) (i : ι) : (only p i).isSome = p i := by
  rw [only]
  split
  · rename_i h
    rw [h]
    rfl
  · rename_i h
    exact (Bool.eq_false_iff.2 h).symm

theorem eq_false_of_only {ι : Type} {p : ι → Bool} {i : ι} (h : only p i = none) : p i = false := by
  rw [← isSome_only p i, h]
  rfl

/-- Traces of a part and of the whole, as one list. -/
theorem eq_map_of_forall₂_only {ι L L' : Type} {p : ι → Bool} {f : L' → L} {es : List (ι × L)}
    {es' : List ({i // p i = true} × L')}
    (h : List.Forall₂ (fun e e' => only p e.1 = some e'.1 ∧ e.2 = f e'.2) es es') :
    es = es'.map fun e => (e.1.1, f e.2) := by
  induction h with
  | nil => rfl
  | cons hhead _ ih =>
      rw [List.map_cons, ← ih]
      exact congrArg (· :: _) (Prod.ext (only_eq_some hhead.1).symm hhead.2)

/-- The labels of the whole that show are those of the part. -/
theorem filterMap_eq_map_of_forall₂_only {ι L L' : Type} {p : ι → Bool} {shown : L → Option L'}
    {es : List (ι × L)} {es' : List ({i // p i = true} × L')}
    (h : List.Forall₂ (fun e e' => only p e.1 = some e'.1 ∧ shown e.2 = some e'.2)
      (es.filter fun e => p e.1) es')
    (hhidden : ∀ e ∈ es, only p e.1 = none → shown e.2 = none) :
    (es.filterMap fun e => (shown e.2).map fun l => (e.1, l)) =
      es'.map fun e => (e.1.1, e.2) := by
  induction es generalizing es' with
  | nil =>
      cases h
      rfl
  | cons e es ih =>
      have hrest := fun e' he' => hhidden e' (List.mem_cons_of_mem _ he')
      cases hp : p e.1 with
      | false =>
          rw [List.filter_cons_of_neg (by simp [hp])] at h
          have hnone : only p e.1 = none := dif_neg (by simp [hp])
          rw [List.filterMap_cons_none (by rw [hhidden e List.mem_cons_self hnone]; rfl)]
          exact ih h hrest
      | true =>
          rw [List.filter_cons_of_pos (by exact hp)] at h
          cases h with
          | cons hhead htail =>
              rw [List.filterMap_cons_some (by rw [hhead.2]; rfl), List.map_cons, ih htail hrest,
                only_eq_some hhead.1]

section Pools

variable {ι κ S T L L' α α' : Type} [DecidableEq ι]

/-- A step is labelled with its task. -/
theorem Pool.fst_of_mem_advance {c : Pool ι S L α} {i : ι} {e : ι × L} (h : e ∈ (c.advance i).2) :
    e.1 = i := by
  cases htask : c.task i with
  | done a =>
      rw [advance_done htask] at h
      cases h
  | access act rest =>
      rw [advance_access htask] at h
      rw [List.mem_singleton.1 h]

/-- A pool and a pool over the aspect: the tasks that are seen mirror those of the other pool,
and the rest are silent. -/
structure Projects (V : Aspect S T L L') (Ends : ι → α → Prop) (Same : α → α' → Prop)
    (seen : ι → Option κ) (c : Pool ι S L α) (c' : Pool κ T L' α') : Prop where
  kept : V.inv c.shared
  shared : V.view c.shared = c'.shared
  mirrors : ∀ i k, seen i = some k → Task.Mirrors V Same (c.task i) (c'.task k)
  silent : ∀ i, seen i = none → Task.Silent V (Ends i) (c.task i)

variable {V : Aspect S T L L'} {Ends : ι → α → Prop} {Same : α → α' → Prop} {seen : ι → Option κ}

/-- **A silent step** is nothing to the aspect. -/
theorem Projects.advance_silent {c : Pool ι S L α} {c' : Pool κ T L' α'}
    (h : Projects V Ends Same seen c c') {i : ι} (hi : seen i = none) :
    Projects V Ends Same seen (c.advance i).1 c' ∧ ∀ e ∈ (c.advance i).2, V.Hidden e.2 := by
  have hsilent := h.silent i hi
  cases htask : c.task i with
  | done a =>
      rw [Pool.advance_done htask]
      exact ⟨h, fun e he => absurd he List.not_mem_nil⟩
  | access act rest =>
      rw [htask] at hsilent
      obtain ⟨hinv, hview, hhidden, hrest⟩ := hsilent c.shared h.kept
      rw [Pool.advance_access htask]
      refine ⟨⟨hinv, hview.trans h.shared, fun j k hj => ?_, fun j hj => ?_⟩, ?_⟩
      · have hne : j ≠ i := fun heq => by rw [heq, hi] at hj; cases hj
        simpa [Function.update_of_ne hne] using h.mirrors j k hj
      · by_cases hji : j = i
        · subst hji
          simpa using hrest
        · simpa [Function.update_of_ne hji] using h.silent j hj
      · intro e he
        rw [List.mem_singleton.1 he]
        exact hhidden

variable [DecidableEq κ] (hinj : ∀ i j k, seen i = some k → seen j = some k → i = j)
include hinj

/-- **A step that is seen** is a step of the other pool. -/
theorem Projects.advance_seen {c : Pool ι S L α} {c' : Pool κ T L' α'}
    (h : Projects V Ends Same seen c c') {i : ι} {k : κ} (hi : seen i = some k) :
    Projects V Ends Same seen (c.advance i).1 (c'.advance k).1 ∧
      List.Forall₂ (fun e e' => e.1 = i ∧ e'.1 = k ∧ V.Shows e.2 e'.2) (c.advance i).2
        (c'.advance k).2 := by
  have hmirrors := h.mirrors i k hi
  cases htask : c.task i with
  | done a =>
      rw [htask] at hmirrors
      obtain ⟨a', htask', -⟩ := hmirrors.of_done
      rw [Pool.advance_done htask, Pool.advance_done htask']
      exact ⟨h, .nil⟩
  | access act rest =>
      cases htask' : c'.task k with
      | done a' =>
          rw [htask, htask'] at hmirrors
          exact hmirrors.elim
      | access act' rest' =>
          rw [htask, htask'] at hmirrors
          obtain ⟨hinv, hview, hshows, hrest⟩ := hmirrors c.shared h.kept
          rw [h.shared] at hview hshows hrest
          rw [Pool.advance_access htask, Pool.advance_access htask']
          refine ⟨⟨hinv, hview, fun j k' hj => ?_, fun j hj => ?_⟩,
            .cons ⟨rfl, rfl, hshows⟩ .nil⟩
          · by_cases hji : j = i
            · subst hji
              obtain rfl : k = k' := Option.some.inj (hi.symm.trans hj)
              simpa using hrest
            · have hk : k' ≠ k := fun heq => hji (hinj j i k (heq ▸ hj) hi)
              simpa [Function.update_of_ne hji, Function.update_of_ne hk] using h.mirrors j k' hj
          · have hne : j ≠ i := fun heq => by rw [heq, hi] at hj; cases hj
            simpa [Function.update_of_ne hne] using h.silent j hj

/-- **Silent tasks can be struck.** After any schedule the pool projects to what the other pool
is after the steps that are seen, the seen part of its trace shows as the trace of the other
pool, and the rest of the trace is hidden. -/
theorem Pool.purge {c : Pool ι S L α} {c' : Pool κ T L' α'} (h : Projects V Ends Same seen c c')
    (schedule : List ι) :
    Projects V Ends Same seen (c.after schedule) (c'.after (schedule.filterMap seen)) ∧
      List.Forall₂ (fun e e' => seen e.1 = some e'.1 ∧ V.Shows e.2 e'.2)
        ((c.trace schedule).filter fun e => (seen e.1).isSome)
        (c'.trace (schedule.filterMap seen)) ∧
      ∀ e ∈ c.trace schedule, seen e.1 = none → V.Hidden e.2 := by
  induction schedule generalizing c c' with
  | nil => exact ⟨h, .nil, fun e he => absurd he List.not_mem_nil⟩
  | cons i schedule ih =>
      rw [Pool.after, Pool.trace, Transducer.run_cons]
      cases hi : seen i with
      | none =>
          obtain ⟨hstep, hlabels⟩ := h.advance_silent hi
          obtain ⟨hafter, htrace, hhidden⟩ := ih hstep
          have hnone : (c.advance i).2.filter (fun e => (seen e.1).isSome) = [] := by
            apply List.filter_eq_nil_iff.2
            intro e he
            rw [fst_of_mem_advance he, hi]
            exact Bool.false_ne_true
          rw [List.filterMap_cons_none hi, List.filter_append, hnone, List.nil_append]
          refine ⟨hafter, htrace, fun e he hseen => ?_⟩
          rcases List.mem_append.1 he with he | he
          · exact hlabels e he
          · exact hhidden e he hseen
      | some k =>
          obtain ⟨hstep, hlabels⟩ := h.advance_seen hinj hi
          obtain ⟨hafter, htrace, hhidden⟩ := ih hstep
          have hall : (c.advance i).2.filter (fun e => (seen e.1).isSome) = (c.advance i).2 := by
            apply List.filter_eq_self.2
            intro e he
            rw [fst_of_mem_advance he, hi]
            rfl
          rw [List.filterMap_cons_some hi, Pool.after, Pool.trace, Transducer.run_cons,
            List.filter_append, hall]
          refine ⟨hafter, ?_, fun e he hseen => ?_⟩
          · refine List.rel_append (hlabels.imp ?_) htrace
            rintro e e' ⟨hfst, hfst', hshows⟩
            exact ⟨by rw [hfst, hfst', hi], hshows⟩
          · rcases List.mem_append.1 he with he | he
            · rw [fst_of_mem_advance he, hi] at hseen
              cases hseen
            · exact hhidden e he hseen

end Pools

end AiApiBridge
