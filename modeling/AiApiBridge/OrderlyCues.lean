import AiApiBridge.BlockOrder

/-!
# Streams that end items in turn

What a stream must not bring for its items to be ended in the order in which they were
started: reasoning while content is pending, a call while one of a larger index is, or
the end of a text within a call. `orderly_snoc` says what one more cue does.
-/

set_option autoImplicit false

namespace AiApiBridge

open Cue

/-! ## Disorderly streams -/

/-- A stream in which a call starts while a call of a larger index is pending. -/
def CallsOutOfOrder (w : List Cue) : Prop :=
  Sometime (fun before c => ∃ i j, c = .call i ∧ i < j ∧ Pending (.tool j) before) w

/-- A stream in which reasoning or content is ended while a call is pending. -/
def TextEndsInCall (w : List Cue) : Prop :=
  Sometime (fun before c => ∃ i, Pending (.tool i) before ∧
    ∃ k, (k = .thinking ∨ k = .text) ∧ Pending k before ∧ c.ends k = true) w

/-- A stream that stops with reasoning or content left while a call is pending. -/
def TextLeftInCall (w : List Cue) : Prop :=
  ∃ i, Pending (.tool i) w ∧ (Pending .thinking w ∨ Pending .text w)

namespace Cue

/-- The pending calls have been started in the order of their indices. -/
def CallsInOrder (started : List Nat) (w : List Cue) : Prop :=
  started.Pairwise fun i j => Pending (.tool i) w → Pending (.tool j) w → i < j

/-- What is pending can be ended in turn, apart from texts within calls. -/
def Orderly (started : List Nat) (w : List Cue) : Prop :=
  ¬ (Pending .thinking w ∧ Pending .text w) ∧ CallsInOrder started w

/-- No item is bound to be ended out of turn. -/
def Tidy (w : List Cue) : Prop :=
  ¬ ReasoningAfterContent w ∧ ¬ CallsOutOfOrder w ∧ ¬ TextEndsInCall w

theorem tidy_nil : Tidy [] := ⟨not_sometime_nil _, not_sometime_nil _, not_sometime_nil _⟩

theorem callsOutOfOrder_snoc (w : List Cue) (c : Cue) :
    CallsOutOfOrder (w ++ [c]) ↔
      CallsOutOfOrder w ∨ ∃ i j, c = .call i ∧ i < j ∧ Pending (.tool j) w :=
  sometime_snoc

theorem textEndsInCall_snoc (w : List Cue) (c : Cue) :
    TextEndsInCall (w ++ [c]) ↔ TextEndsInCall w ∨ ∃ i, Pending (.tool i) w ∧
      ∃ k, (k = .thinking ∨ k = .text) ∧ Pending k w ∧ c.ends k = true :=
  sometime_snoc

/-- A cue that brings in nothing untidy: no reasoning while content is pending, no call
while one of a larger index is, and no end of a text within a call. -/
def KeepsTidy (w : List Cue) (c : Cue) : Prop :=
  ¬ (c = .reasoning ∧ Pending .text w) ∧
    (∀ i j, c = .call i → Pending (.tool j) w → ¬ i < j) ∧
    ∀ i k, Pending (.tool i) w → k = .thinking ∨ k = .text → Pending k w → c.ends k = false

/-- **One more cue.** The stream stays tidy when the cue brings in nothing untidy. -/
theorem tidy_snoc (w : List Cue) (c : Cue) : Tidy (w ++ [c]) ↔ Tidy w ∧ KeepsTidy w c := by
  rw [Tidy, Tidy, reasoningAfterContent_snoc, callsOutOfOrder_snoc, textEndsInCall_snoc]
  constructor
  · intro ⟨hr, hc, ht⟩
    rw [not_or] at hr hc ht
    refine ⟨⟨hr.1, hc.1, ht.1⟩, hr.2, fun i j hi hj hij => hc.2 ⟨i, j, hi, hij, hj⟩, ?_⟩
    intro i k hi hk hpending
    rw [← Bool.not_eq_true]
    exact fun hends => ht.2 ⟨i, hi, k, hk, hpending, hends⟩
  · rintro ⟨⟨hr, hc, ht⟩, hr', hc', ht'⟩
    rw [not_or, not_or, not_or]
    refine ⟨⟨hr, hr'⟩, ⟨hc, ?_⟩, ht, ?_⟩
    · rintro ⟨i, j, hi, hij, hj⟩
      exact hc' i j hi hj hij
    · rintro ⟨i, hi, k, hk, hpending, hends⟩
      rw [ht' i k hi hk hpending] at hends
      cases hends

theorem keepsTidy_reasoning (w : List Cue) : KeepsTidy w .reasoning ↔ ¬ Pending .text w := by
  constructor
  · intro h htext
    exact h.1 ⟨rfl, htext⟩
  · intro h
    refine ⟨fun h' => h h'.2, ?_, fun _ _ _ _ _ => rfl⟩
    intro i j hi
    cases hi

theorem keepsTidy_content (w : List Cue) :
    KeepsTidy w .content ↔ ∀ i, ¬ (Pending .thinking w ∧ Pending (.tool i) w) := by
  constructor
  · rintro ⟨-, -, h⟩ i ⟨hthinking, hi⟩
    cases h i .thinking hi (Or.inl rfl) hthinking
  · intro h
    refine ⟨?_, ?_, ?_⟩
    · rintro ⟨hc, -⟩
      cases hc
    · intro i j hi
      cases hi
    · rintro i k hi (rfl | rfl) hk
      · exact absurd ⟨hk, hi⟩ (h i)
      · rfl

theorem keepsTidy_call (w : List Cue) (i : Nat) :
    KeepsTidy w (.call i) ↔ (∀ j, Pending (.tool j) w → ¬ i < j) ∧
      (∀ j, ¬ (Pending .thinking w ∧ Pending (.tool j) w)) ∧
      ∀ j, ¬ (Pending .text w ∧ Pending (.tool j) w) := by
  constructor
  · rintro ⟨-, hlater, h⟩
    refine ⟨fun j => hlater i j rfl, ?_, ?_⟩
    · rintro j ⟨hk, hj⟩
      cases h j .thinking hj (Or.inl rfl) hk
    · rintro j ⟨hk, hj⟩
      cases h j .text hj (Or.inr rfl) hk
  · rintro ⟨hlater, hthinking, htext⟩
    refine ⟨?_, ?_, ?_⟩
    · rintro ⟨hc, -⟩
      cases hc
    · rintro i' j ⟨⟩
      exact hlater j
    · rintro j k hj (rfl | rfl) hk
      · exact absurd ⟨hk, hj⟩ (hthinking j)
      · exact absurd ⟨hk, hj⟩ (htext j)

theorem keepsTidy_finish (w : List Cue) : KeepsTidy w .finish := by
  refine ⟨?_, ?_, ?_⟩
  · rintro ⟨hc, -⟩
    cases hc
  · intro i j hi
    cases hi
  · rintro i k - (rfl | rfl) - <;> rfl

/-- The items a cue ends are ended in turn: none of them was started after one that
stays. -/
def EndsInTurn (started : List Nat) (w : List Cue) : Cue → Prop
  | reasoning => True
  | content =>
      ¬ (Pending .thinking w ∧ Pending .text w) ∧
        ∀ i, ¬ (Pending .thinking w ∧ Pending (.tool i) w)
  | call _ =>
      ¬ (Pending .thinking w ∧ Pending .text w) ∧
        (∀ i, ¬ (Pending .thinking w ∧ Pending (.tool i) w)) ∧
        ∀ i, ¬ (Pending .text w ∧ Pending (.tool i) w)
  | finish => CallsInOrder started w

/-- The index that a cue starts. -/
def newIndex : Cue → Option Nat
  | reasoning => none
  | content => none
  | call i => some i
  | finish => none

theorem callsInOrder_append {started : List Nat} {w : List Cue} {c : Cue}
    (h : ∀ i, Pending (.tool i) (w ++ [c]) ↔ Pending (.tool i) w) :
    CallsInOrder started (w ++ [c]) ↔ CallsInOrder started w := by
  simp only [CallsInOrder, h]

theorem orderly_reasoning {started : List Nat} {w : List Cue} :
    Orderly started (w ++ [.reasoning]) ↔ ¬ Pending .text w ∧ CallsInOrder started w := by
  have htexts : Pending .thinking (w ++ [.reasoning]) ∧ Pending .text (w ++ [.reasoning]) ↔
      Pending .text w := by
    simp [pending_snoc, starts, ends]
  rw [Orderly, htexts, callsInOrder_append (by simp [pending_snoc, starts, ends])]

/-- Content ends the reasoning. -/
theorem orderly_content {started : List Nat} {w : List Cue} :
    Orderly started (w ++ [.content]) ↔ CallsInOrder started w := by
  have hthinking : ¬ Pending .thinking (w ++ [.content]) := by simp [pending_snoc, starts, ends]
  rw [Orderly, and_iff_right fun h => hthinking h.1,
    callsInOrder_append (by simp [pending_snoc, starts, ends])]

/-- A call ends both texts, and it comes after the calls of smaller indices. -/
theorem orderly_call {started : List Nat} {w : List Cue} {i : Nat} (hi : i ∉ started)
    (hpending : ∀ j, Pending (.tool j) w → j ∈ started) :
    Orderly (started ++ [i]) (w ++ [.call i]) ↔
      CallsInOrder started w ∧ ∀ j, Pending (.tool j) w → ¬ i < j := by
  -- a call ends the reasoning, and starts one call
  have hthinking : ¬ Pending .thinking (w ++ [.call i]) := by simp [pending_snoc, starts, ends]
  have hold : ∀ j ∈ started, Pending (.tool j) (w ++ [.call i]) ↔ Pending (.tool j) w := by
    intro j hj
    have hij : i ≠ j := fun heq => hi (heq ▸ hj)
    simp [pending_snoc, starts, ends, hij]
  have hnew : Pending (.tool i) (w ++ [.call i]) := pending_snoc.2 (Or.inl rfl)
  rw [Orderly, and_iff_right fun h => hthinking h.1, CallsInOrder, CallsInOrder,
    List.pairwise_append]
  constructor
  · rintro ⟨hp, -, hlast⟩
    refine ⟨hp.imp_of_mem fun hk hl hkl hk' hl' => hkl ((hold _ hk).2 hk') ((hold _ hl).2 hl'), ?_⟩
    intro j hj hij
    have hj' := hpending j hj
    exact Nat.lt_asymm hij (hlast j hj' i List.mem_cons_self ((hold j hj').2 hj) hnew)
  · rintro ⟨hp, hlater⟩
    refine ⟨hp.imp_of_mem fun hk hl hkl hk' hl' => hkl ((hold _ hk).1 hk') ((hold _ hl).1 hl'),
      List.pairwise_singleton _ _, ?_⟩
    intro j hj i' hi' hj' _
    rw [List.mem_singleton.1 hi']
    have hne : j ≠ i := fun heq => hi (heq ▸ hj)
    exact Nat.lt_of_le_of_ne (Nat.le_of_not_lt (hlater j ((hold j hj).1 hj'))) hne

/-- A finish reason ends all calls. -/
theorem orderly_finish {started : List Nat} {w : List Cue} :
    Orderly started (w ++ [.finish]) ↔ ¬ (Pending .thinking w ∧ Pending .text w) := by
  have hcalls : CallsInOrder started (w ++ [.finish]) := by
    apply List.pairwise_of_forall
    intro i j hi
    simp [pending_snoc, starts, ends] at hi
  have htexts : Pending .thinking (w ++ [.finish]) ∧ Pending .text (w ++ [.finish]) ↔
      Pending .thinking w ∧ Pending .text w := by
    simp [pending_snoc, starts, ends]
  rw [Orderly, and_iff_left hcalls, htexts]

/-- **A cue ends items in turn and leaves an orderly stream** exactly when the stream
was orderly and the cue brings in nothing untidy. -/
theorem orderly_snoc {started : List Nat} {w : List Cue} {c : Cue}
    (hfresh : ∀ i, c = .call i → i ∉ started) (hpending : ∀ i, Pending (.tool i) w → i ∈ started) :
    EndsInTurn started w c ∧ Orderly (started ++ c.newIndex.toList) (w ++ [c]) ↔
      Orderly started w ∧ KeepsTidy w c := by
  cases c with
  | reasoning =>
      rw [newIndex, Option.toList_none, List.append_nil, orderly_reasoning, keepsTidy_reasoning]
      simp only [EndsInTurn, Orderly]
      tauto
  | content =>
      rw [newIndex, Option.toList_none, List.append_nil, orderly_content, keepsTidy_content]
      simp only [EndsInTurn, Orderly]
      tauto
  | call i =>
      rw [newIndex, Option.toList_some, orderly_call (hfresh i rfl) hpending, keepsTidy_call]
      simp only [EndsInTurn, Orderly]
      tauto
  | finish =>
      rw [newIndex, Option.toList_none, List.append_nil, orderly_finish,
        iff_true_intro (keepsTidy_finish w)]
      simp only [EndsInTurn, Orderly]
      tauto

end Cue

end AiApiBridge
