import AiApiBridge.Json

/-!
# Values as trees

What lies in a JSON value: the values within it, and the value a path of keys and
indices leads to. `treeInduction` is the induction that follows the nesting through
lists of items and members.
-/

set_option autoImplicit false

namespace AiApiBridge.Value

/-! ## Induction -/

section Induction

variable {P : Value → Prop}

mutual

/-- A property that every array has when its items have it, and every object when its
members have it, holds of all values. -/
theorem treeInduction (hleaf : ∀ v, v.asArray = none → v.asObject = none → P v)
    (harray : ∀ items : List Value, (∀ v ∈ items, P v) → P (.array items))
    (hobject : ∀ m : Map, (∀ kv ∈ m, P kv.2) → P (.object m)) : ∀ v, P v
  | null => hleaf _ rfl rfl
  | bool _ => hleaf _ rfl rfl
  | number _ => hleaf _ rfl rfl
  | string _ => hleaf _ rfl rfl
  | array items => harray items (treeInductionItems hleaf harray hobject items)
  | object m => hobject m (treeInductionMembers hleaf harray hobject m)

theorem treeInductionItems (hleaf : ∀ v, v.asArray = none → v.asObject = none → P v)
    (harray : ∀ items : List Value, (∀ v ∈ items, P v) → P (.array items))
    (hobject : ∀ m : Map, (∀ kv ∈ m, P kv.2) → P (.object m)) :
    ∀ items : List Value, ∀ v ∈ items, P v
  | [] => by simp
  | v :: vs => by
      rw [List.forall_mem_cons]
      exact ⟨treeInduction hleaf harray hobject v, treeInductionItems hleaf harray hobject vs⟩

theorem treeInductionMembers (hleaf : ∀ v, v.asArray = none → v.asObject = none → P v)
    (harray : ∀ items : List Value, (∀ v ∈ items, P v) → P (.array items))
    (hobject : ∀ m : Map, (∀ kv ∈ m, P kv.2) → P (.object m)) :
    ∀ m : List (String × Value), ∀ kv ∈ m, P kv.2
  | [] => by simp
  | (k, v) :: m => by
      rw [List.forall_mem_cons]
      exact ⟨treeInduction hleaf harray hobject v, treeInductionMembers hleaf harray hobject m⟩

end

end Induction

/-! ## What lies in a value -/

/-- `w.Within v`: `w` is `v` itself or lies in it at some depth. -/
inductive Within (w : Value) : Value → Prop where
  | refl : Within w w
  | item {items : List Value} {v : Value} (hmem : v ∈ items) (hv : Within w v) :
      Within w (.array items)
  | member {m : Map} {kv : String × Value} (hmem : kv ∈ m) (hv : Within w kv.2) :
      Within w (.object m)

theorem within_array {w : Value} {items : List Value} :
    Within w (.array items) ↔ w = .array items ∨ ∃ v ∈ items, Within w v := by
  constructor
  · intro h
    cases h with
    | refl => exact Or.inl rfl
    | item hmem hv => exact Or.inr ⟨_, hmem, hv⟩
  · rintro (rfl | ⟨v, hmem, hv⟩)
    · exact .refl
    · exact .item hmem hv

theorem within_object {w : Value} {m : Map} :
    Within w (.object m) ↔ w = .object m ∨ ∃ kv ∈ m, Within w kv.2 := by
  constructor
  · intro h
    cases h with
    | refl => exact Or.inl rfl
    | member hmem hv => exact Or.inr ⟨_, hmem, hv⟩
  · rintro (rfl | ⟨kv, hmem, hv⟩)
    · exact .refl
    · exact .member hmem hv

theorem within_leaf {w v : Value} (harray : v.asArray = none) (hobject : v.asObject = none) :
    Within w v ↔ w = v := by
  constructor
  · intro h
    cases h with
    | refl => rfl
    | item hmem hv => simp at harray
    | member hmem hv => simp at hobject
  · rintro rfl
    exact .refl

/-! ## Paths -/

/-- One step down: to a member by its key, or to an item by its index. -/
inductive Step where
  | key (k : String)
  | index (i : Nat)
  deriving DecidableEq, Repr

/-- The value one step below. -/
def child : Value → Step → Option Value
  | .object m, .key k => m.lookup k
  | .array items, .index i => items[i]?
  | _, _ => none

/-- The value a path leads to. -/
def locate (v : Value) : List Step → Option Value
  | [] => some v
  | s :: path => (v.child s).bind fun w => w.locate path

/-- A value without what lies in it. -/
def outline : Value → Value
  | .array _ => .array []
  | .object _ => .object []
  | v => v

@[simp] theorem locate_nil (v : Value) : v.locate [] = some v := rfl

theorem locate_cons (v : Value) (s : Step) (path : List Step) :
    v.locate (s :: path) = (v.child s).bind fun w => w.locate path := rfl

/-- Nothing lies below a leaf. -/
theorem locate_leaf_cons {v : Value} (harray : v.asArray = none) (hobject : v.asObject = none)
    (s : Step) (path : List Step) : v.locate (s :: path) = none := by
  cases v <;> simp_all [asArray, asObject, locate_cons, child]

@[simp] theorem locate_null_cons (s : Step) (path : List Step) :
    null.locate (s :: path) = none := locate_leaf_cons rfl rfl s path

@[simp] theorem locate_string_cons (t : String) (s : Step) (path : List Step) :
    (string t).locate (s :: path) = none := locate_leaf_cons rfl rfl s path

end AiApiBridge.Value
