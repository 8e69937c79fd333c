import AiApiBridge.Lib.Transducer
import Mathlib.Data.List.Sort

/-!
# Tree maps keyed by numbers

Emptying an `ExtTreeMap` key by key, reading its entries off `toList`, states that
keep open entries in such a map (`Closer`), and maps that hold a list under its
positions (`Holds`).
-/

set_option autoImplicit false

namespace AiApiBridge.TreeMaps

universe u

variable {α : Type u}

theorem getElem?_foldl_erase (is : List Nat) (m : Std.ExtTreeMap Nat α) (j : Nat) :
    (is.foldl (fun m i => m.erase i) m)[j]? = if j ∈ is then none else m[j]? := by
  induction is generalizing m with
  | nil => simp
  | cons i is ih =>
      rw [List.foldl_cons, ih]
      by_cases hj : j ∈ is
      · simp [hj]
      · by_cases hij : i = j
        · simp [hij]
        · have hji : j ≠ i := fun h => hij h.symm
          simp [hj, hij, hji, Std.ExtTreeMap.getElem?_erase]

/-- A key that is there after an insertion was there before, or it is the new one. -/
theorem mem_of_getElem?_insert {m : Std.ExtTreeMap Nat α} {i j : Nat} {a : α}
    (h : (m.insert i a)[j]? ≠ none) : m[j]? ≠ none ∨ i = j := by
  by_cases hij : i = j
  · exact Or.inr hij
  · exact Or.inl (by simpa [Std.ExtTreeMap.getElem?_insert, hij] using h)

/-- A key that is there after an erasure was there before. -/
theorem mem_of_getElem?_erase {m : Std.ExtTreeMap Nat α} {i j : Nat}
    (h : (m.erase i)[j]? ≠ none) : m[j]? ≠ none := by
  by_cases hij : i = j
  · exact absurd (by simp [hij]) h
  · simpa [Std.ExtTreeMap.getElem?_erase, hij] using h

theorem getElem?_of_mem_toList {m : Std.ExtTreeMap Nat α} {kv : Nat × α} (h : kv ∈ m.toList) :
    m[kv.1]? = some kv.2 :=
  Std.ExtTreeMap.mem_toList_iff_getElem?_eq_some.1 h

theorem nodup_keys_toList (m : Std.ExtTreeMap Nat α) : (m.toList.map Prod.fst).Nodup := by
  rw [Std.ExtTreeMap.map_fst_toList_eq_keys]
  exact Std.ExtTreeMap.nodup_keys

/-- Maps that agree on what they hold under each key, seen through a reading of either, list it in
the same order. -/
theorem toList_map_congr {β γ : Type u} {m : Std.ExtTreeMap Nat α} {m' : Std.ExtTreeMap Nat β}
    {f : α → γ} {g : β → γ} (h : ∀ i : Nat, m[i]?.map f = m'[i]?.map g) :
    m.toList.map (fun kv => f kv.2) = m'.toList.map (fun kv => g kv.2) := by
  have hmem : ∀ i, i ∈ m.keys ↔ i ∈ m'.keys := by
    intro i
    have hi := congrArg Option.isSome (h i)
    rw [Option.isSome_map, Option.isSome_map] at hi
    rw [Std.ExtTreeMap.mem_keys, Std.ExtTreeMap.mem_keys, Std.ExtTreeMap.mem_iff_isSome_getElem?,
      Std.ExtTreeMap.mem_iff_isSome_getElem?, hi]
  have hkeys : m.keys = m'.keys := by
    have hperm : m.keys.Perm m'.keys :=
      (List.perm_ext_iff_of_nodup Std.ExtTreeMap.nodup_keys Std.ExtTreeMap.nodup_keys).2 hmem
    refine hperm.eq_of_pairwise ?_ Std.ExtTreeMap.ordered_keys Std.ExtTreeMap.ordered_keys
    intro i j _ _ hij hji
    rw [Nat.compare_eq_lt] at hij hji
    omega
  -- each entry by its key
  have hleft : m.toList.map (fun kv => some (f kv.2)) = m.keys.map fun i => m[i]?.map f := by
    rw [← Std.ExtTreeMap.map_fst_toList_eq_keys, List.map_map]
    apply List.map_congr_left
    intro kv hkv
    rw [Function.comp_apply, getElem?_of_mem_toList hkv]
    rfl
  have hright : m'.toList.map (fun kv => some (g kv.2)) = m'.keys.map fun i => m'[i]?.map g := by
    rw [← Std.ExtTreeMap.map_fst_toList_eq_keys, List.map_map]
    apply List.map_congr_left
    intro kv hkv
    rw [Function.comp_apply, getElem?_of_mem_toList hkv]
    rfl
  apply List.map_injective_iff.2 (Option.some_injective γ)
  rw [List.map_map, List.map_map]
  refine hleft.trans (Eq.trans ?_ hright.symm)
  rw [hkeys]
  exact List.map_congr_left fun i _ => h i

/-- What is held under each key, with an entry more. -/
theorem map_getElem?_insert {γ : Type u} (m : Std.ExtTreeMap Nat α) (f : α → γ) (i : Nat) (a : α) :
    (fun j : Nat => (m.insert i a)[j]?.map f) =
      Function.update (fun j : Nat => m[j]?.map f) i (some (f a)) := by
  funext j
  rw [Std.ExtTreeMap.getElem?_insert]
  by_cases hj : j = i
  · rw [hj, Function.update_self, if_pos (by simp)]
    rfl
  · have hne : compare i j ≠ .eq := by simpa using Ne.symm hj
    rw [Function.update_of_ne hj, if_neg hne]

/-- What is held under each key, with an entry less. -/
theorem map_getElem?_erase {γ : Type u} (m : Std.ExtTreeMap Nat α) (f : α → γ) (i : Nat) :
    (fun j : Nat => (m.erase i)[j]?.map f) =
      Function.update (fun j : Nat => m[j]?.map f) i none := by
  funext j
  rw [Std.ExtTreeMap.getElem?_erase]
  by_cases hj : j = i
  · rw [hj, Function.update_self, if_pos (by simp)]
    rfl
  · have hne : compare i j ≠ .eq := by simpa using Ne.symm hj
    rw [Function.update_of_ne hj, if_neg hne]

/-- Erasing every key leaves nothing. -/
theorem foldl_erase_keys (m : Std.ExtTreeMap Nat α) :
    (m.toList.map Prod.fst).foldl (fun m i => m.erase i) m = ∅ := by
  refine Std.ExtTreeMap.ext_getElem? fun {j} => ?_
  rw [getElem?_foldl_erase]
  split
  · simp
  · rename_i hj
    rw [Std.ExtTreeMap.getElem?_empty]
    by_contra hne
    obtain ⟨a, ha⟩ := Option.ne_none_iff_exists'.1 hne
    exact hj (List.mem_map.2 ⟨(j, a), Std.ExtTreeMap.mem_toList_iff_getElem?_eq_some.2 ha, rfl⟩)

/-- Entries listed without one key are entries of the map without it. -/
theorem lookup_erase_of_nodup {m : Std.ExtTreeMap Nat α} {kv : Nat × α} {l : List (Nat × α)}
    (hl : ∀ kv' ∈ l, m[kv'.1]? = some kv'.2) (hnd : ((kv :: l).map Prod.fst).Nodup) :
    ∀ kv' ∈ l, (m.erase kv.1)[kv'.1]? = some kv'.2 := by
  intro kv' hkv'
  have hne : kv.1 ≠ kv'.1 := by
    intro heq
    rw [List.map_cons, List.nodup_cons] at hnd
    exact hnd.1 (heq ▸ List.mem_map_of_mem hkv')
  simpa [Std.ExtTreeMap.getElem?_erase, hne] using hl kv' hkv'

/-! ## Closing open entries -/

/-- A state that keeps open entries in a map, and what closing an entry does. It
neither reads nor changes the map. -/
structure Closer (σ τ ο : Type) where
  entries : σ → Std.ExtTreeMap Nat τ
  withEntries : σ → Std.ExtTreeMap Nat τ → σ
  finish : Transducer.Step σ τ ο
  withEntries_entries : ∀ s, withEntries s (entries s) = s
  entries_withEntries : ∀ s m, entries (withEntries s m) = m
  withEntries_withEntries : ∀ s m m', withEntries (withEntries s m) m' = withEntries s m'
  finish_withEntries : ∀ s m t,
    finish (withEntries s m) t = (withEntries (finish s t).1 m, (finish s t).2)

namespace Closer

variable {σ τ ο ι : Type} (C : Closer σ τ ο)

theorem run_finish_withEntries (ts : List τ) (s : σ) (m : Std.ExtTreeMap Nat τ) :
    Transducer.run C.finish (C.withEntries s m) ts =
      (C.withEntries (Transducer.run C.finish s ts).1 m, (Transducer.run C.finish s ts).2) := by
  induction ts generalizing s with
  | nil => rfl
  | cons t ts ih =>
      rw [Transducer.run_cons, Transducer.run_cons, C.finish_withEntries, ih]

/-- Inputs that close listed entries one by one. -/
theorem run_done {step : Transducer.Step σ ι ο} {done : Nat → ι}
    (hstep : ∀ s i t, (C.entries s)[i]? = some t →
      step s (done i) = C.finish (C.withEntries s ((C.entries s).erase i)) t)
    (l : List (Nat × τ)) (s : σ) (hl : ∀ kt ∈ l, (C.entries s)[kt.1]? = some kt.2)
    (hnd : (l.map Prod.fst).Nodup) :
    Transducer.run step s (l.map fun kt => done kt.1) =
      (C.withEntries (Transducer.run C.finish s (l.map Prod.snd)).1
          ((l.map Prod.fst).foldl (fun m i => m.erase i) (C.entries s)),
        (Transducer.run C.finish s (l.map Prod.snd)).2) := by
  induction l generalizing s with
  | nil => simp [C.withEntries_entries]
  | cons kt l ih =>
      -- taking the entry out and finishing it do not get in each other's way
      have hfirst : step s (done kt.1) =
          (C.withEntries (C.finish s kt.2).1 ((C.entries s).erase kt.1), (C.finish s kt.2).2) := by
        rw [hstep s kt.1 kt.2 (hl kt List.mem_cons_self), C.finish_withEntries]
      have hrest : ∀ kt' ∈ l, (C.entries (C.withEntries (C.finish s kt.2).1
          ((C.entries s).erase kt.1)))[kt'.1]? = some kt'.2 := by
        rw [C.entries_withEntries]
        exact lookup_erase_of_nodup (fun kt' h => hl kt' (List.mem_cons_of_mem _ h)) hnd
      rw [List.map_cons, Transducer.run_cons, hfirst, ih _ hrest (List.nodup_cons.1 hnd).2,
        C.entries_withEntries, C.run_finish_withEntries, C.withEntries_withEntries]
      rfl

/-- **Closing all entries at once is closing them one by one in key order.** -/
theorem finish_all {step : Transducer.Step σ ι ο} {done : Nat → ι}
    (hstep : ∀ s i t, (C.entries s)[i]? = some t →
      step s (done i) = C.finish (C.withEntries s ((C.entries s).erase i)) t) (s : σ) :
    Transducer.run C.finish (C.withEntries s ∅) ((C.entries s).toList.map Prod.snd) =
      Transducer.run step s ((C.entries s).toList.map fun kt => done kt.1) := by
  rw [C.run_done hstep _ s (fun kt => getElem?_of_mem_toList) (nodup_keys_toList _),
    foldl_erase_keys, C.run_finish_withEntries]

/-- With no entry there is nothing to close. -/
theorem finish_of_empty {s : σ} (h : C.entries s = ∅) :
    Transducer.run C.finish (C.withEntries s ∅) ((C.entries s).toList.map Prod.snd) = (s, []) := by
  have hnil : (∅ : Std.ExtTreeMap Nat τ).toList = [] := Std.ExtTreeMap.toList_eq_nil_iff.2 rfl
  have hself := C.withEntries_entries s
  rw [h] at hself ⊢
  rw [hnil, hself]
  rfl

end Closer

/-! ## Maps that hold a list -/

/-- The map holds the items of a list under their positions, and nothing else. -/
def Holds (m : Std.ExtTreeMap Nat α) (l : List α) : Prop :=
  ∀ i : Nat, m[i]? = l[i]?

variable {m : Std.ExtTreeMap Nat α} {l : List α}

theorem holds_empty : Holds (∅ : Std.ExtTreeMap Nat α) [] := by
  intro i
  simp

/-- One more item. -/
theorem Holds.snoc (h : Holds m l) (a : α) : Holds (m.insert l.length a) (l ++ [a]) := by
  intro i
  rw [Std.ExtTreeMap.getElem?_insert]
  by_cases hi : l.length = i
  · simp [← hi]
  · have hne : compare l.length i ≠ .eq := by simpa using hi
    rw [if_neg hne, h i]
    rcases Nat.lt_or_gt_of_ne hi with hlt | hgt
    · rw [List.getElem?_eq_none (by omega), List.getElem?_eq_none (by simp; omega)]
    · rw [List.getElem?_append_left hgt]

/-- Another item in a place. -/
theorem Holds.set (h : Holds m l) {i : Nat} (hi : i < l.length) (a : α) :
    Holds (m.insert i a) (l.set i a) := by
  intro j
  rw [Std.ExtTreeMap.getElem?_insert]
  by_cases hij : i = j
  · subst hij
    simp [hi]
  · have hne : compare i j ≠ .eq := by simpa using hij
    rw [if_neg hne, h j, List.getElem?_set_ne hij]

/-- Looking up every position gives the list back. -/
theorem filterMap_getElem?_range (l : List α) :
    (List.range l.length).filterMap (fun i => l[i]?) = l := by
  induction l using List.reverseRecOn with
  | nil => rfl
  | append_singleton l a ih =>
      have hold : (List.range l.length).filterMap (fun i => (l ++ [a])[i]?) = l := by
        refine (List.filterMap_congr fun i hi => ?_).trans ih
        rw [List.getElem?_append_left (List.mem_range.1 hi)]
      rw [List.length_append, List.length_singleton, List.range_succ, List.filterMap_append, hold]
      simp

/-- A strictly increasing list with the numbers below a bound is their range. -/
theorem eq_range_of_pairwise {is : List Nat} {k : Nat} (hs : is.Pairwise (· < ·))
    (h : ∀ i, i ∈ is ↔ i < k) : is = List.range k := by
  refine List.Perm.eq_of_pairwise' (r := (· ≤ ·)) (hs.imp Nat.le_of_lt)
    (List.pairwise_lt_range.imp Nat.le_of_lt) ?_
  apply (List.perm_ext_iff_of_nodup (hs.imp Nat.ne_of_lt) List.nodup_range).2
  intro i
  rw [h i, List.mem_range]

/-- **The items of the map, in key order, are the list.** -/
theorem Holds.toList (h : Holds m l) : m.toList.map Prod.snd = l := by
  have hkeys : m.toList.map Prod.fst = List.range l.length := by
    refine eq_range_of_pairwise ?_ fun i => ?_
    · rw [Std.ExtTreeMap.map_fst_toList_eq_keys]
      exact Std.ExtTreeMap.ordered_keys.imp fun hlt => Nat.compare_eq_lt.1 hlt
    · rw [Std.ExtTreeMap.map_fst_toList_eq_keys, Std.ExtTreeMap.mem_keys,
        Std.ExtTreeMap.mem_iff_isSome_getElem?, h i]
      simp
  have hitems : (m.toList.map Prod.snd) =
      (m.toList.map Prod.fst).filterMap fun i => l[i]? := by
    rw [List.filterMap_map, ← List.filterMap_eq_map]
    apply List.filterMap_congr
    intro kv hkv
    rw [Function.comp_apply, Function.comp_apply, ← h, getElem?_of_mem_toList hkv]
  rw [hitems, hkeys, filterMap_getElem?_range]

end AiApiBridge.TreeMaps
