import AiApiBridge.Lib.Splits

/-!
# The past of a word

Two operators on finite words, read at the end of the word: `Since start ended` says
that something has started and has not ended since, and `Sometime F` that `F` held at
some position, of the word before it and the symbol at it. Both are taken apart at the
last symbol.
-/

set_option autoImplicit false

namespace AiApiBridge

universe u

variable {α : Type u}

/-- A starting symbol has come, and no ending one after it. -/
def Since (start ended : α → Prop) (w : List α) : Prop :=
  ∃ before x between, w = before ++ x :: between ∧ start x ∧ ∀ z ∈ between, ¬ ended z

/-- `F` holds at some position, of the symbols before it and the symbol at it. -/
def Sometime (F : List α → α → Prop) (w : List α) : Prop :=
  ∃ before y after, w = before ++ y :: after ∧ F before y

@[simp] theorem not_since_nil (start ended : α → Prop) : ¬ Since start ended [] := by
  rintro ⟨before, x, between, h, -⟩
  cases before <;> cases h

theorem since_snoc {start ended : α → Prop} {w : List α} {a : α} :
    Since start ended (w ++ [a]) ↔ start a ∨ (Since start ended w ∧ ¬ ended a) := by
  constructor
  · rintro ⟨before, x, between, h, hstart, hbetween⟩
    rcases split_append_singleton h with ⟨rfl, rfl, rfl⟩ | ⟨between', rfl, rfl⟩
    · exact Or.inl hstart
    · refine Or.inr ⟨⟨before, x, between', rfl, hstart, ?_⟩, hbetween a (by simp)⟩
      intro z hz
      exact hbetween z (List.mem_append_left _ hz)
  · rintro (hstart | ⟨⟨before, x, between, rfl, hstart, hbetween⟩, hended⟩)
    · exact ⟨w, a, [], rfl, hstart, fun z hz => absurd hz List.not_mem_nil⟩
    · refine ⟨before, x, between ++ [a], by simp, hstart, ?_⟩
      intro z hz
      rcases List.mem_append.1 hz with hz | hz
      · exact hbetween z hz
      · rwa [List.mem_singleton.1 hz]

/-- `Since` along the word. -/
theorem since_iff_foldl {start ended : α → Prop} [DecidablePred start] [DecidablePred ended]
    (w : List α) :
    Since start ended w ↔
      w.foldl (fun b x => decide (start x) || (b && !decide (ended x))) false = true := by
  induction w using List.reverseRecOn with
  | nil => simp
  | append_singleton w a ih => simp [since_snoc, List.foldl_append, ih]

instance {start ended : α → Prop} [DecidablePred start] [DecidablePred ended] (w : List α) :
    Decidable (Since start ended w) :=
  decidable_of_iff _ (since_iff_foldl w).symm

theorem Since.congr {start start' ended ended' : α → Prop} (hstart : ∀ x, start x ↔ start' x)
    (hended : ∀ x, ended x ↔ ended' x) (w : List α) :
    Since start ended w ↔ Since start' ended' w := by
  rw [show start = start' from funext fun x => propext (hstart x),
    show ended = ended' from funext fun x => propext (hended x)]

/-- One of several things has started. -/
theorem exists_since {ι : Sort*} {start : ι → α → Prop} {ended : α → Prop} {w : List α} :
    (∃ i, Since (start i) ended w) ↔ Since (fun x => ∃ i, start i x) ended w := by
  constructor
  · rintro ⟨i, before, x, between, hw, hstart, hbetween⟩
    exact ⟨before, x, between, hw, ⟨i, hstart⟩, hbetween⟩
  · rintro ⟨before, x, between, hw, ⟨i, hstart⟩, hbetween⟩
    exact ⟨i, before, x, between, hw, hstart, hbetween⟩

/-- What has started has occurred. -/
theorem Since.exists_mem {start ended : α → Prop} {w : List α} (h : Since start ended w) :
    ∃ x ∈ w, start x := by
  rcases h with ⟨before, x, between, rfl, hstart, -⟩
  exact ⟨x, by simp, hstart⟩

@[simp] theorem not_sometime_nil (F : List α → α → Prop) : ¬ Sometime F [] := by
  rintro ⟨before, y, after, h, -⟩
  cases before <;> cases h

theorem sometime_snoc {F : List α → α → Prop} {w : List α} {a : α} :
    Sometime F (w ++ [a]) ↔ Sometime F w ∨ F w a := by
  constructor
  · rintro ⟨before, y, after, h, hF⟩
    rcases split_append_singleton h with ⟨rfl, rfl, -⟩ | ⟨after', -, rfl⟩
    · exact Or.inr hF
    · exact Or.inl ⟨before, y, after', rfl, hF⟩
  · rintro (⟨before, y, after, rfl, hF⟩ | hF)
    · exact ⟨before, y, after ++ [a], by simp, hF⟩
    · exact ⟨w, a, [], rfl, hF⟩

end AiApiBridge
