import Mathlib.Data.List.Nodup

/-!
# Tables with a primary key

A table is a list of rows in which no two have the same key. Each operation
carries the proof that it keeps keys apart, so that a table with a double key
cannot be built.
-/

set_option autoImplicit false

namespace AiApiBridge

/-- Rows that `key` tells apart, in the order in which they were inserted. -/
structure KeyedTable {α κ : Type} (key : α → κ) where
  rows : List α
  nodup : (rows.map key).Nodup

namespace KeyedTable

variable {α κ : Type} {key : α → κ}

theorem ext_rows {t t' : KeyedTable key} (h : t.rows = t'.rows) : t = t' := by
  cases t
  cases t'
  cases h
  rfl

instance [DecidableEq α] : DecidableEq (KeyedTable key) := fun t t' =>
  decidable_of_iff (t.rows = t'.rows) ⟨ext_rows, fun h => by rw [h]⟩

def empty : KeyedTable key := ⟨[], List.nodup_nil⟩

/-- The keys in use. -/
def keys (t : KeyedTable key) : List κ := t.rows.map key

theorem mem_keys {t : KeyedTable key} {k : κ} : k ∈ t.keys ↔ ∃ r ∈ t.rows, key r = k :=
  List.mem_map

/-- Add a row under a new key. -/
def insert (t : KeyedTable key) (row : α) (h : key row ∉ t.keys) : KeyedTable key where
  rows := t.rows ++ [row]
  nodup := by
    rw [List.map_append]
    exact List.nodup_append'.2 ⟨t.nodup, by simp, by simpa [keys] using h⟩

@[simp] theorem rows_insert (t : KeyedTable key) (row : α) (h : key row ∉ t.keys) :
    (t.insert row h).rows = t.rows ++ [row] := rfl

variable [DecidableEq κ]

/-- The row under a key. -/
def get? (t : KeyedTable key) (k : κ) : Option α := t.rows.find? fun r => key r = k

theorem map_key_replace (rows : List α) (row : α) :
    (rows.map fun r => if key r = key row then row else r).map key = rows.map key := by
  rw [List.map_map]
  apply List.map_congr_left
  intro r _
  by_cases h : key r = key row <;> simp [h]

/-- Replace the row under a key by another with the same key. -/
def modify (t : KeyedTable key) (row : α) : KeyedTable key where
  rows := t.rows.map fun r => if key r = key row then row else r
  nodup := by
    rw [map_key_replace]
    exact t.nodup

omit [DecidableEq κ] in
/-- Remove every row that fails a test. -/
def filter (t : KeyedTable key) (p : α → Bool) : KeyedTable key where
  rows := t.rows.filter p
  nodup := t.nodup.sublist ((List.filter_sublist ..).map key)

/-- Remove the row under a key. -/
def erase (t : KeyedTable key) (k : κ) : KeyedTable key := t.filter fun r => key r ≠ k

theorem keys_modify (t : KeyedTable key) (row : α) : (t.modify row).keys = t.keys :=
  map_key_replace t.rows row

theorem mem_keys_erase {t : KeyedTable key} {k k' : κ} :
    k' ∈ (t.erase k).keys ↔ k' ∈ t.keys ∧ k' ≠ k := by
  simp only [mem_keys, erase, filter, List.mem_filter, decide_eq_true_eq]
  constructor
  · rintro ⟨r, ⟨hr, hne⟩, rfl⟩
    exact ⟨⟨r, hr, rfl⟩, hne⟩
  · rintro ⟨⟨r, hr, rfl⟩, hne⟩
    exact ⟨r, ⟨hr, hne⟩, rfl⟩

theorem modify_of_notMem {t : KeyedTable key} {row : α} (h : key row ∉ t.keys) :
    t.modify row = t := by
  apply ext_rows
  refine (List.map_congr_left fun r hr => ?_).trans (List.map_id _)
  have hne : key r ≠ key row := fun heq => h (mem_keys.2 ⟨r, hr, heq⟩)
  simp [hne]

omit [DecidableEq κ] in
theorem filter_of_forall {t : KeyedTable key} {p : α → Bool} (h : ∀ r ∈ t.rows, p r = true) :
    t.filter p = t :=
  ext_rows (List.filter_eq_self.2 h)

theorem erase_of_notMem {t : KeyedTable key} {k : κ} (h : k ∉ t.keys) : t.erase k = t :=
  filter_of_forall fun r hr => by
    have hne : key r ≠ k := fun heq => h (mem_keys.2 ⟨r, hr, heq⟩)
    simp [hne]

/-- Set the row under its key, dropping the one that is there. -/
def put (t : KeyedTable key) (row : α) : KeyedTable key :=
  (t.erase (key row)).insert row fun h => (mem_keys_erase.1 h).2 rfl

/-- What has been put is there. -/
theorem get?_put (t : KeyedTable key) (row : α) : (t.put row).get? (key row) = some row := by
  have hnone : (t.rows.filter fun r => key r ≠ key row).find? (fun r => key r = key row) = none := by
    simp
  rw [get?, put, rows_insert, erase, filter, List.find?_append, hnone]
  simp

theorem get?_eq_none {t : KeyedTable key} {k : κ} (h : k ∉ t.keys) : t.get? k = none := by
  rw [get?, List.find?_eq_none]
  intro r hr
  have hne : key r ≠ k := fun heq => h (mem_keys.2 ⟨r, hr, heq⟩)
  simp [hne]

/-- The row under a key when one has been added. -/
theorem get?_insert (t : KeyedTable key) (row : α) (h : key row ∉ t.keys) (k : κ) :
    (t.insert row h).get? k = if key row = k then some row else t.get? k := by
  rw [get?, rows_insert, List.find?_append, ← get?]
  by_cases hk : key row = k
  · rw [get?_eq_none (hk ▸ h)]
    simp [hk]
  · simp [hk]

/-- The row under a key when one has been replaced. -/
theorem get?_modify (t : KeyedTable key) (row : α) (k : κ) :
    (t.modify row).get? k = if key row = k ∧ k ∈ t.keys then some row else t.get? k := by
  have hfind : (t.modify row).get? k =
      (t.get? k).map fun r => if key r = key row then row else r := by
    rw [get?, modify, List.find?_map]
    congr 2
    funext r
    by_cases h : key r = key row <;> simp [h]
  cases hget : t.get? k with
  | none =>
      -- no row has this key, before or after
      have hnone : k ∉ t.keys := by
        rintro hk
        obtain ⟨r, hr, rfl⟩ := mem_keys.1 hk
        simpa using List.find?_eq_none.1 hget r hr
      rw [hfind, hget, if_neg fun h => hnone h.2, Option.map_none]
  | some r =>
      have hr : key r = k := by simpa using List.find?_some hget
      have hmem : k ∈ t.keys := mem_keys.2 ⟨r, List.mem_of_find?_eq_some hget, hr⟩
      rw [hfind, hget, Option.map_some, hr]
      by_cases hk : key row = k
      · rw [if_pos hk.symm, if_pos ⟨hk, hmem⟩]
      · rw [if_neg (Ne.symm hk), if_neg fun h => hk h.1]

end KeyedTable

end AiApiBridge
