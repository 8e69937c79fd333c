import Mathlib.Data.List.Induction

/-!
# Positions of a list

`EverySplit P l` says that `P` holds at every position of `l`, of the elements
before the position and the element at it. It is how a law about a transcript
("each message of this kind comes after such a message") is stated; the rules
here take such a law apart along the list.
-/

set_option autoImplicit false

namespace AiApiBridge

universe u v

variable {α : Type u} {β : Type v}

/-- `P` holds at every position, of the prefix and the element. -/
def EverySplit (P : List α → α → Prop) (l : List α) : Prop :=
  ∀ pre x post, l = pre ++ x :: post → P pre x

@[simp] theorem everySplit_nil (P : List α → α → Prop) : EverySplit P [] := by
  intro pre x post h
  simp at h

theorem everySplit_cons (P : List α → α → Prop) (a : α) (l : List α) :
    EverySplit P (a :: l) ↔ P [] a ∧ EverySplit (fun pre => P (a :: pre)) l := by
  constructor
  · intro h
    refine ⟨h [] a l rfl, ?_⟩
    rintro pre x post rfl
    exact h (a :: pre) x post rfl
  · rintro ⟨h0, h⟩ pre x post heq
    cases pre with
    | nil =>
        simp only [List.nil_append, List.cons.injEq] at heq
        rcases heq with ⟨rfl, rfl⟩
        exact h0
    | cons b pre =>
        simp only [List.cons_append, List.cons.injEq] at heq
        rcases heq with ⟨rfl, rfl⟩
        exact h pre x post rfl

theorem everySplit_append (P : List α → α → Prop) (l l' : List α) :
    EverySplit P (l ++ l') ↔ EverySplit P l ∧ EverySplit (fun pre => P (l ++ pre)) l' := by
  induction l generalizing P with
  | nil => simp
  | cons a l ih => simp [everySplit_cons, ih, and_assoc]

theorem everySplit_map (P : List β → β → Prop) (f : α → β) (l : List α) :
    EverySplit P (l.map f) ↔ EverySplit (fun pre x => P (pre.map f) (f x)) l := by
  induction l generalizing P with
  | nil => simp
  | cons a l ih => simp [everySplit_cons, ih]

theorem EverySplit.congr {P Q : List α → α → Prop} {l : List α}
    (h : ∀ pre x post, l = pre ++ x :: post → (P pre x ↔ Q pre x)) :
    EverySplit P l ↔ EverySplit Q l :=
  ⟨fun hP pre x post e => (h pre x post e).1 (hP pre x post e),
    fun hQ pre x post e => (h pre x post e).2 (hQ pre x post e)⟩

/-- A split of a list with one element appended is at that element or inside the
list. -/
theorem split_append_singleton {l before run : List α} {a x : α}
    (h : l ++ [x] = before ++ a :: run) :
    (before = l ∧ a = x ∧ run = []) ∨ ∃ run', run = run' ++ [x] ∧ l = before ++ a :: run' := by
  rcases List.eq_nil_or_concat run with rfl | ⟨run', y, rfl⟩
  · obtain ⟨rfl, hx⟩ := List.append_inj' h rfl
    exact Or.inl ⟨rfl, (List.singleton_inj.1 hx).symm, rfl⟩
  · have h' : l ++ [x] = (before ++ a :: run') ++ [y] := by simpa using h
    obtain ⟨rfl, hx⟩ := List.append_inj' h' rfl
    obtain rfl := List.singleton_inj.1 hx
    exact Or.inr ⟨run', by simp, rfl⟩

end AiApiBridge
