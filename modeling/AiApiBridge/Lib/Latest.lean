import Mathlib.Data.List.Basic

/-!
# The latest reading

Some symbols of a word can be read. `latest` is the reading of the last one that can,
which is what a variable holds that every reading overwrites.
-/

set_option autoImplicit false

namespace AiApiBridge

variable {α β γ : Type}

/-- The latest reading of a word. -/
def latest (read : α → Option β) (xs : List α) : Option β :=
  (xs.filterMap read).getLast?

/-- One more symbol in front gives way to what follows it. -/
theorem latest_cons_or (read : α → Option β) (x : α) (xs : List α) (b : Option β) :
    (latest read (x :: xs)).or b = (latest read xs).or ((read x).or b) := by
  cases h : read x with
  | none => simp [latest, h]
  | some y => cases h' : (xs.filterMap read).getLast? <;> simp [latest, h, h', List.getLast?_cons]

/-- What cannot be read may be left out. -/
theorem latest_bind (field : α → Option β) (keep : β → Bool) (read : β → Option γ)
    (h : ∀ b, keep b = false → read b = none) (xs : List α) :
    latest (fun x => (field x).bind read) xs = latest read ((xs.filterMap field).filter keep) := by
  have hread : (fun b => if keep b = true then read b else none) = read := by
    funext b
    cases hb : keep b <;> simp [h, hb]
  rw [latest, latest, List.filterMap_filter, hread, List.filterMap_filterMap]

theorem latest_singleton (read : α → Option β) (x : α) :
    latest read [x] = read x := by
  cases h : read x <;> simp [latest, h]

end AiApiBridge
