import AiApiBridge.Lib.FloatValue
import Mathlib.Algebra.Group.Int.Defs
import Mathlib.Algebra.Group.Nat.Defs
import Mathlib.Data.List.Sort
import Mathlib.Data.Rat.Defs

/-!
# JSON values

The value type the bridge reads and builds (`serde_json::Value`). An object is a
list of members read by key; the source's map keeps its members by key, and
nothing in the bridge reads them by position, so member order carries no
information here. Numbers keep the three forms in which the parser stores them,
because `as_u64` answers on the first form only.
-/

set_option autoImplicit false

namespace AiApiBridge

/-- A JSON number: a non-negative integer, a negative integer, or a finite
binary64 value given by the rational it denotes. -/
inductive Number where
  | posInt (n : Nat)
  | negInt (n : Int)
  | float (q : Rat)
  deriving DecidableEq, Repr

/-- A JSON value. -/
inductive Value where
  | null
  | bool (b : Bool)
  | number (n : Number)
  | string (s : String)
  | array (items : List Value)
  | object (members : List (String × Value))
  deriving Repr

/-- The members of an object. -/
abbrev Map := List (String × Value)

instance : Inhabited Value := ⟨.null⟩

namespace Value

/-! ## Decidable equality

The derive handler does not cover a type nested through lists, so the three
mutually recursive comparisons are written out. -/

mutual

/-- Compare two values. -/
protected def decEq : (a b : Value) → Decidable (a = b)
  | null, null => isTrue rfl
  | bool a, bool b => decidable_of_iff (a = b) (by simp)
  | number a, number b => decidable_of_iff (a = b) (by simp)
  | string a, string b => decidable_of_iff (a = b) (by simp)
  | array a, array b => @decidable_of_iff _ (a = b) (by simp) (Value.decEqItems a b)
  | object a, object b => @decidable_of_iff _ (a = b) (by simp) (Value.decEqMembers a b)
  | null, bool _ | null, number _ | null, string _ | null, array _ | null, object _
  | bool _, null | bool _, number _ | bool _, string _ | bool _, array _ | bool _, object _
  | number _, null | number _, bool _ | number _, string _ | number _, array _
  | number _, object _ | string _, null | string _, bool _ | string _, number _
  | string _, array _ | string _, object _ | array _, null | array _, bool _
  | array _, number _ | array _, string _ | array _, object _ | object _, null
  | object _, bool _ | object _, number _ | object _, string _ | object _, array _ =>
      isFalse (by simp)

/-- Compare two item lists. -/
protected def decEqItems : (a b : List Value) → Decidable (a = b)
  | [], [] => isTrue rfl
  | [], _ :: _ | _ :: _, [] => isFalse (by simp)
  | a :: as, b :: bs =>
      @decidable_of_iff _ (a = b ∧ as = bs) (by simp)
        (@instDecidableAnd _ _ (Value.decEq a b) (Value.decEqItems as bs))

/-- Compare two member lists. -/
protected def decEqMembers : (a b : List (String × Value)) → Decidable (a = b)
  | [], [] => isTrue rfl
  | [], _ :: _ | _ :: _, [] => isFalse (by simp)
  | (k, a) :: as, (l, b) :: bs =>
      @decidable_of_iff _ (k = l ∧ a = b ∧ as = bs) (by simp [and_assoc])
        (@instDecidableAnd _ _ inferInstance
          (@instDecidableAnd _ _ (Value.decEq a b) (Value.decEqMembers as bs)))

end

instance : DecidableEq Value := Value.decEq

/-! ## Reading -/

/-- The string a value holds. -/
def asStr : Value → Option String
  | string s => some s
  | _ => none

/-- The boolean a value holds. -/
def asBool : Value → Option Bool
  | bool b => some b
  | _ => none

/-- The items of an array. -/
def asArray : Value → Option (List Value)
  | array items => some items
  | _ => none

/-- The members of an object. -/
def asObject : Value → Option Map
  | object m => some m
  | _ => none

/-- A number stored as a non-negative integer. A float is no `u64`, also when it
is integral. -/
def asU64 : Value → Option Nat
  | number (.posInt n) => some n
  | _ => none

/-- Any number as a binary64 value. An integer beyond `2 ^ 53` is rounded. -/
def asF64 : Value → Option FloatValue
  | number (.posInt n) => some (.toBinary64 n)
  | number (.negInt n) => some (.toBinary64 n)
  | number (.float q) => some (.finite q)
  | _ => none

/-- Whether a value is `null`. -/
def isNull : Value → Bool
  | null => true
  | _ => false

/-- A member of an object; nothing on every other value. -/
def get (v : Value) (key : String) : Option Value :=
  match v with
  | object m => m.lookup key
  | _ => none

/-- The number an unsigned counter is written as. -/
def ofNat (n : Nat) : Value := number (.posInt n)

/-- An optional string, written as `null` when absent. -/
def ofOption : Option String → Value
  | some s => string s
  | none => null

end Value

/-! ## Maps -/

namespace Map

/-- Set a member, in place when the key is there. -/
def insert (m : Map) (key : String) (v : Value) : Map :=
  match m with
  | [] => [(key, v)]
  | (k, w) :: m => if k = key then (key, v) :: m else (k, w) :: insert m key v

/-- Drop a member. -/
def remove (m : Map) (key : String) : Map := m.filter fun kv => kv.1 ≠ key

/-- Whether a key is there. -/
def containsKey (m : Map) (key : String) : Bool := (m.lookup key).isSome

end Map

/-- Lookup decides between the first member and the rest. -/
@[simp] theorem lookup_cons_ite {α : Type} (key k : String) (v : α) (m : List (String × α)) :
    List.lookup key ((k, v) :: m) = if key = k then some v else List.lookup key m := by
  by_cases h : key = k
  · simp [h]
  · simp [List.lookup_cons, h, beq_false_of_ne h]

@[simp] theorem Map.lookup_insert (m : Map) (key k : String) (v : Value) :
    List.lookup k (m.insert key v) = if k = key then some v else List.lookup k m := by
  induction m with
  | nil => simp [Map.insert]
  | cons kv m ih =>
      rcases kv with ⟨k', w⟩
      by_cases h : k' = key
      · subst h
        by_cases hk : k = k' <;> simp [Map.insert, hk]
      · by_cases hk : k = k'
        · subst hk
          simp [Map.insert, h]
        · simp [Map.insert, h, hk, ih]

@[simp] theorem Map.lookup_remove (m : Map) (key k : String) :
    List.lookup k (m.remove key) = if k = key then none else List.lookup k m := by
  induction m with
  | nil => simp [Map.remove]
  | cons kv m ih =>
      rcases kv with ⟨k', w⟩
      rw [Map.remove] at ih ⊢
      by_cases h : k' = key
      · rw [List.filter_cons_of_neg (by simp [h]), ih]
        by_cases hk : k = key <;> simp [h, hk]
      · rw [List.filter_cons_of_pos (by simp [h]), lookup_cons_ite, lookup_cons_ite, ih]
        by_cases hk : k = k'
        · simp [hk, h]
        · simp [hk]

namespace Value

@[simp] theorem get_object (m : Map) (key : String) : (object m).get key = m.lookup key := rfl
@[simp] theorem get_null (key : String) : null.get key = none := rfl
@[simp] theorem get_string (s key : String) : (string s).get key = none := rfl
@[simp] theorem get_array (items : List Value) (key : String) : (array items).get key = none := rfl
@[simp] theorem asStr_string (s : String) : (string s).asStr = some s := rfl
@[simp] theorem asArray_array (items : List Value) : (array items).asArray = some items := rfl
@[simp] theorem asObject_object (m : Map) : (object m).asObject = some m := rfl
@[simp] theorem asU64_ofNat (n : Nat) : (ofNat n).asU64 = some n := rfl
@[simp] theorem asStr_ofNat (n : Nat) : (ofNat n).asStr = none := rfl
@[simp] theorem asArray_string (s : String) : (string s).asArray = none := rfl

end Value

/-! ## Narrowing casts -/

/-- `as u32`: the low 32 bits. -/
def asU32 (n : Nat) : Nat := n % 2 ^ 32

/-- `as u16`: the low 16 bits. -/
def asU16 (n : Nat) : Nat := n % 2 ^ 16

theorem asU32_of_lt {n : Nat} (h : n < 2 ^ 32) : asU32 n = n := Nat.mod_eq_of_lt h

/-- A `u32` counter that wraps holds the low 32 bits of the count. -/
theorem asU32_succ (n : Nat) : asU32 (n + 1) = asU32 (asU32 n + 1) := by
  simp only [asU32, Nat.mod_add_mod]

/-- `as i64` of a `u64`: the same 64 bits, read with a sign. -/
def asI64 (n : Nat) : Int := Int.bmod n (2 ^ 64)

theorem asI64_of_lt {n : Nat} (h : n < 2 ^ 63) : asI64 n = n :=
  Int.bmod_eq_of_le (by omega) (by omega)

end AiApiBridge
