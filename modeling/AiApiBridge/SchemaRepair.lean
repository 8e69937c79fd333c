import AiApiBridge.JsonTree
import AiApiBridge.Wire.ChatRequest

/-!
# What the schema repair changes

`sanitizeParameters` makes an object schema of a tool's parameters. Its output has a
type at the root and no `null` type at any depth, a second repair changes nothing, and
against its input only `type` members differ, namely those that were `null` and a
missing one at the root (`sanitizeParameters_repairs`).
-/

set_option autoImplicit false

namespace AiApiBridge.Chat

open Value

/-! ## One node -/

theorem sanitizeItems_eq_map (items : List Value) :
    sanitizeItems items = items.map (sanitizeSchema false) := by
  induction items with
  | nil => rfl
  | cons v vs ih => rw [sanitizeItems, ih, List.map_cons]

theorem sanitizeMembers_eq_map (m : Map) :
    sanitizeMembers m = m.map fun kv => (kv.1, sanitizeSchema false kv.2) := by
  induction m with
  | nil => rfl
  | cons kv m ih =>
      rcases kv with ⟨k, v⟩
      rw [sanitizeMembers, ih, List.map_cons]

theorem mem_insert {m : Map} {key : String} {v : Value} {kv : String × Value}
    (h : kv ∈ Map.insert m key v) : kv = (key, v) ∨ kv ∈ m := by
  induction m with
  | nil => exact Or.inl (List.mem_singleton.mp h)
  | cons kw m ih =>
      rcases kw with ⟨k, w⟩
      rw [Map.insert] at h
      split at h
      · rcases List.mem_cons.mp h with h | h
        · exact Or.inl h
        · exact Or.inr (List.mem_cons_of_mem _ h)
      · rcases List.mem_cons.mp h with h | h
        · exact Or.inr (h ▸ List.mem_cons_self)
        · exact (ih h).imp_right (List.mem_cons_of_mem _)

theorem repairedType_root (m : Map) : repairedType true m = some "object" := by
  simp [repairedType]

/-- What the repair of a node does: write a type over a `null` one, drop it, write one
at a root without any, or nothing. -/
theorem repairType_cases (isRoot : Bool) (m : Map) :
    (m.lookup "type" = some .null ∧ ∃ t, repairedType isRoot m = some t ∧
      repairType isRoot m = m.insert "type" (.string t)) ∨
    (m.lookup "type" = some .null ∧ isRoot = false ∧ repairType isRoot m = m.remove "type") ∨
    (m.lookup "type" = none ∧ isRoot = true ∧
      repairType isRoot m = m.insert "type" (.string "object")) ∨
    (m.lookup "type" ≠ some .null ∧ (isRoot = true → m.lookup "type" ≠ none) ∧
      repairType isRoot m = m) := by
  by_cases hnull : m.lookup "type" = some .null
  · cases ht : repairedType isRoot m with
    | some t =>
        exact Or.inl ⟨hnull, t, rfl, by simp [repairType, hnull, ht, Map.containsKey]⟩
    | none =>
        -- a root is never left without a type
        cases isRoot with
        | true => simp [repairedType_root] at ht
        | false => exact Or.inr (Or.inl ⟨hnull, rfl, by simp [repairType, hnull, ht]⟩)
  · right; right
    by_cases hroot : isRoot = true ∧ m.lookup "type" = none
    · rcases hroot with ⟨rfl, htype⟩
      exact Or.inl ⟨htype, rfl, by simp [repairType, htype, Map.containsKey]⟩
    · right
      have hkeep : isRoot = true → m.lookup "type" ≠ none := fun h htype => hroot ⟨h, htype⟩
      apply And.intro hnull
      apply And.intro hkeep
      cases isRoot with
      | false => simp [repairType, hnull]
      | true => simp [repairType, hnull, Map.containsKey, hkeep rfl]

/-- The repair of a node brings in no member but a type name. -/
theorem mem_repairType {isRoot : Bool} {m : Map} {kv : String × Value}
    (h : kv ∈ repairType isRoot m) : (∃ t, kv.2 = .string t) ∨ kv ∈ m := by
  have hinsert : ∀ t, kv ∈ m.insert "type" (.string t) → (∃ t, kv.2 = .string t) ∨ kv ∈ m := by
    intro t hmem
    rcases mem_insert hmem with rfl | hmem
    · exact Or.inl ⟨t, rfl⟩
    · exact Or.inr hmem
  rcases repairType_cases isRoot m with ⟨_, t, _, heq⟩ | ⟨_, _, heq⟩ | ⟨_, _, heq⟩ | ⟨_, _, heq⟩ <;>
    rw [heq] at h
  · exact hinsert t h
  · exact Or.inr (List.mem_of_mem_filter h)
  · exact hinsert _ h
  · exact Or.inr h

/-- Every other member of a node is left to the visit of the children. -/
theorem lookup_repairType_of_ne (isRoot : Bool) (m : Map) {key : String} (hkey : key ≠ "type") :
    List.lookup key (repairType isRoot m) = m.lookup key := by
  rcases repairType_cases isRoot m with ⟨_, t, _, heq⟩ | ⟨_, _, heq⟩ | ⟨_, _, heq⟩ | ⟨_, _, heq⟩ <;>
    simp [heq, hkey]

theorem lookup_type_repairType_ne_null (isRoot : Bool) (m : Map) :
    List.lookup "type" (repairType isRoot m) ≠ some .null := by
  rcases repairType_cases isRoot m with
    ⟨_, t, _, heq⟩ | ⟨_, _, heq⟩ | ⟨_, _, heq⟩ | ⟨hnull, _, heq⟩
  · simp [heq]
  · simp [heq]
  · simp [heq]
  · rw [heq]
    exact hnull

/-- A node with a type, or below the root without one, is left alone. -/
theorem repairType_eq_self {isRoot : Bool} {m : Map} (hnull : m.lookup "type" ≠ some .null)
    (hroot : isRoot = true → (m.lookup "type").isSome) : repairType isRoot m = m := by
  rcases repairType_cases isRoot m with
    ⟨hn, _⟩ | ⟨hn, _⟩ | ⟨htype, hr, _⟩ | ⟨_, _, heq⟩
  · exact absurd hn hnull
  · exact absurd hn hnull
  · simp [htype] at hroot
    simp [hr] at hroot
  · exact heq

/-! ## Types that are not null -/

/-- No object in `v`, at whatever depth, has a `null` type. -/
def NullTypeFree (v : Value) : Prop :=
  ∀ m : Map, Within (.object m) v → m.lookup "type" ≠ some .null

theorem nullTypeFree_leaf {v : Value} (harray : v.asArray = none) (hobject : v.asObject = none) :
    NullTypeFree v := by
  intro m hm
  rw [within_leaf harray hobject] at hm
  simp [← hm] at hobject

@[simp] theorem nullTypeFree_string (t : String) : NullTypeFree (.string t) :=
  nullTypeFree_leaf rfl rfl

theorem nullTypeFree_array {items : List Value} :
    NullTypeFree (.array items) ↔ ∀ v ∈ items, NullTypeFree v := by
  constructor
  · intro h v hv m hm
    exact h m (.item hv hm)
  · intro h m hm
    rcases within_array.mp hm with hm | ⟨v, hv, hm⟩
    · simp at hm
    · exact h v hv m hm

theorem nullTypeFree_object {m : Map} :
    NullTypeFree (.object m) ↔ m.lookup "type" ≠ some .null ∧ ∀ kv ∈ m, NullTypeFree kv.2 := by
  constructor
  · intro h
    constructor
    · exact h m .refl
    · intro kv hkv m' hm'
      exact h m' (.member hkv hm')
  · rintro ⟨hnull, hmembers⟩ m' hm'
    rcases within_object.mp hm' with hm' | ⟨kv, hkv, hm'⟩
    · rw [Value.object.inj hm']
      exact hnull
    · exact hmembers kv hkv m' hm'

/-- A leaf is no schema node. -/
theorem sanitizeSchema_leaf (isRoot : Bool) {v : Value} (harray : v.asArray = none)
    (hobject : v.asObject = none) : sanitizeSchema isRoot v = v := by
  cases v <;> simp_all [sanitizeSchema, asArray, asObject]

/-- The repair leaves no `null` type behind. -/
theorem nullTypeFree_sanitizeSchema (v : Value) :
    ∀ isRoot, NullTypeFree (sanitizeSchema isRoot v) := by
  induction v using treeInduction with
  | hleaf v harray hobject =>
      intro isRoot
      rw [sanitizeSchema_leaf isRoot harray hobject]
      exact nullTypeFree_leaf harray hobject
  | harray items ih =>
      intro isRoot
      rw [sanitizeSchema, sanitizeItems_eq_map, nullTypeFree_array, List.forall_mem_map]
      intro v hv
      exact ih v hv false
  | hobject m ih =>
      intro isRoot
      rw [sanitizeSchema, nullTypeFree_object]
      constructor
      · exact lookup_type_repairType_ne_null isRoot _
      · intro kv hkv
        rcases mem_repairType hkv with ⟨t, ht⟩ | hkv
        · rw [ht]
          exact nullTypeFree_string t
        · rw [sanitizeMembers_eq_map, List.mem_map] at hkv
          rcases hkv with ⟨kw, hkw, rfl⟩
          exact ih kw hkw false

/-- The repair has nothing to do where no type is `null` and the root has one. -/
theorem sanitizeSchema_eq_self {v : Value} : ∀ {isRoot : Bool}, NullTypeFree v →
    (isRoot = true → (v.get "type").isSome) → sanitizeSchema isRoot v = v := by
  induction v using treeInduction with
  | hleaf v harray hobject =>
      intro isRoot _ _
      exact sanitizeSchema_leaf isRoot harray hobject
  | harray items ih =>
      intro isRoot h _
      rw [nullTypeFree_array] at h
      rw [sanitizeSchema, sanitizeItems_eq_map]
      congr 1
      have hself : ∀ v ∈ items, sanitizeSchema false v = id v := fun v hv =>
        ih v hv (h v hv) (by simp)
      rw [List.map_congr_left hself, List.map_id]
  | hobject m ih =>
      intro isRoot h hroot
      rw [nullTypeFree_object] at h
      rcases h with ⟨hnull, hmembers⟩
      have hself : sanitizeMembers m = m := by
        have hmember : ∀ kv ∈ m, (kv.1, sanitizeSchema false kv.2) = id kv := by
          intro kv hkv
          rw [ih kv hkv (hmembers kv hkv) (by simp)]
          rfl
        rw [sanitizeMembers_eq_map, List.map_congr_left hmember, List.map_id]
      rw [sanitizeSchema, hself, repairType_eq_self hnull hroot]

/-! ## What stays -/

/-- `w` is `v` with repaired types: along every path the two agree, except that a `null`
type may have become `object`, `array` or nothing, and that a root without a type may
have become an `object`. -/
def TypesRepaired (isRoot : Bool) (v w : Value) : Prop :=
  ∀ path : List Step,
    (w.locate path).map outline = (v.locate path).map outline ∨
    (∃ parent, path = parent ++ [.key "type"]) ∧ v.locate path = some .null ∧
      w.locate path ∈ [none, some (.string "object"), some (.string "array")] ∨
    isRoot = true ∧ path = [.key "type"] ∧ v.locate path = none ∧
      w.locate path = some (.string "object")

theorem repairedType_eq_some {isRoot : Bool} {m : Map} {t : String}
    (h : repairedType isRoot m = some t) : t = "object" ∨ t = "array" := by
  rw [repairedType] at h
  split at h
  · exact Or.inl (Option.some.inj h).symm
  · split at h
    · exact Or.inr (Option.some.inj h).symm
    · simp at h

theorem outline_sanitizeSchema (isRoot : Bool) (v : Value) :
    (sanitizeSchema isRoot v).outline = v.outline := by
  cases v <;> simp [sanitizeSchema, outline]

/-- One step below a repaired node. -/
theorem child_sanitizeSchema (isRoot : Bool) (v : Value) (s : Step) :
    (sanitizeSchema isRoot v).child s = (v.child s).map (sanitizeSchema false) ∨
    s = .key "type" ∧ v.child s = some .null ∧ (sanitizeSchema isRoot v).child s ∈
      [none, some (.string "object"), some (.string "array")] ∨
    isRoot = true ∧ s = .key "type" ∧ v.child s = none ∧
      (sanitizeSchema isRoot v).child s = some (.string "object") := by
  cases v with
  | object m =>
      cases s with
      | index i => exact Or.inl rfl
      | key k =>
          rw [sanitizeSchema_object]
          simp only [child, lookup_sanitizeMembers]
          by_cases hkey : k = "type"
          · subst hkey
            rcases repairType_cases isRoot m with
              ⟨hnull, t, ht, heq⟩ | ⟨hnull, _, heq⟩ | ⟨htype, hroot, heq⟩ | ⟨_, _, heq⟩
            · rcases repairedType_eq_some ht with rfl | rfl <;> simp [heq, hnull, sanitizeSchema]
            · simp [heq, hnull]
            · exact Or.inr (Or.inr ⟨hroot, rfl, htype, by simp [heq, sanitizeSchema]⟩)
            · rw [heq]
              exact Or.inl rfl
          · rw [lookup_repairType_of_ne isRoot m hkey]
            exact Or.inl rfl
  | array items =>
      cases s with
      | key k => exact Or.inl rfl
      | index i =>
          left
          rw [sanitizeSchema, sanitizeItems_eq_map]
          simp [child]
  | _ => exact Or.inl (by simp [sanitizeSchema, child])

/-- The repair of a value changes nothing but types. -/
theorem typesRepaired_sanitizeSchema (v : Value) :
    ∀ isRoot, TypesRepaired isRoot v (sanitizeSchema isRoot v) := by
  intro isRoot path
  induction path generalizing v isRoot with
  | nil => exact Or.inl (congrArg some (outline_sanitizeSchema isRoot v))
  | cons s path ih =>
      rw [locate_cons, locate_cons]
      rcases child_sanitizeSchema isRoot v s with
        heq | ⟨rfl, hnull, hmem⟩ | ⟨hroot, rfl, htype, heq⟩
      · rw [heq]
        cases hchild : v.child s with
        | none => exact Or.inl rfl
        | some w =>
            rcases ih w false with hsame | ⟨⟨parent, rfl⟩, hrest⟩ | ⟨hroot, _⟩
            · exact Or.inl hsame
            · exact Or.inr (Or.inl ⟨⟨s :: parent, rfl⟩, hrest⟩)
            · simp at hroot
      · cases path with
        | nil => exact Or.inr (Or.inl ⟨⟨[], rfl⟩, by simp [hnull], by simpa using hmem⟩)
        | cons t path =>
            -- nothing lies below a type, neither below the `null` nor below its repair
            left
            rw [hnull, Option.bind_some, locate_null_cons]
            simp only [List.mem_cons, List.not_mem_nil, or_false] at hmem
            rcases hmem with h | h | h <;> simp [h]
      · cases path with
        | nil => exact Or.inr (Or.inr ⟨hroot, rfl, by simp [htype], by simp [heq]⟩)
        | cons t path =>
            left
            simp [htype, heq]

/-! ## Tool parameters -/

/-- A repaired root has a type. -/
theorem lookup_type_root (m : Map) :
    ∃ t, List.lookup "type" (repairType true m) = some t ∧ t ≠ .null := by
  rcases repairType_cases true m with
    ⟨_, t, _, heq⟩ | ⟨_, hroot, _⟩ | ⟨_, _, heq⟩ | ⟨hnull, hsome, heq⟩
  · exact ⟨.string t, by simp [heq], by simp⟩
  · simp at hroot
  · exact ⟨.string "object", by simp [heq], by simp⟩
  · rcases Option.ne_none_iff_exists'.mp (hsome rfl) with ⟨t, ht⟩
    rw [heq]
    exact ⟨t, ht, fun h => hnull (h ▸ ht)⟩

/-- Whatever a tool's parameters are, an object with a type goes upstream. -/
theorem sanitizeParameters_typed (params : Value) :
    ∃ m t, sanitizeParameters params = .object m ∧ m.lookup "type" = some t ∧ t ≠ .null := by
  have hempty : ∃ m t, Value.object [("type", .string "object"), ("properties", .object [])] =
      .object m ∧ m.lookup "type" = some t ∧ t ≠ .null :=
    ⟨_, .string "object", rfl, rfl, by simp⟩
  cases params with
  | object m =>
      rcases lookup_type_root (sanitizeMembers m) with ⟨t, ht⟩
      exact ⟨repairType true (sanitizeMembers m), t, rfl, ht⟩
  | _ => exact hempty

theorem nullTypeFree_sanitizeParameters (params : Value) :
    NullTypeFree (sanitizeParameters params) := by
  have hempty : NullTypeFree
      (.object [("type", .string "object"), ("properties", .object [])]) := by
    simp [nullTypeFree_object]
  cases params with
  | object m => exact nullTypeFree_sanitizeSchema (.object m) true
  | _ => exact hempty

/-- A schema with a type and no `null` types goes upstream as it is. -/
theorem sanitizeParameters_eq_self {m : Map} {t : Value} (htype : m.lookup "type" = some t)
    (hfree : NullTypeFree (.object m)) : sanitizeParameters (.object m) = .object m :=
  sanitizeSchema_eq_self hfree fun _ => by simp [htype]

/-- The repair makes an object with a type and no `null` types, has nothing left to do on
its own output, and changes nothing else in an object schema. -/
theorem sanitizeParameters_repairs (params : Value) :
    (∃ m t, sanitizeParameters params = .object m ∧ m.lookup "type" = some t ∧ t ≠ .null) ∧
    NullTypeFree (sanitizeParameters params) ∧
    sanitizeParameters (sanitizeParameters params) = sanitizeParameters params ∧
    ∀ m, params = .object m →
      TypesRepaired true params (sanitizeParameters params) ∧
      ((∃ t, m.lookup "type" = some t ∧ t ≠ .null) → NullTypeFree params →
        sanitizeParameters params = params) := by
  apply And.intro (sanitizeParameters_typed params)
  apply And.intro (nullTypeFree_sanitizeParameters params)
  constructor
  · rcases sanitizeParameters_typed params with ⟨m, t, hobject, htype, _⟩
    have hfree := nullTypeFree_sanitizeParameters params
    rw [hobject] at hfree ⊢
    exact sanitizeParameters_eq_self htype hfree
  · rintro m rfl
    constructor
    · exact typesRepaired_sanitizeSchema (.object m) true
    · rintro ⟨t, htype, _⟩ hfree
      exact sanitizeParameters_eq_self htype hfree

end AiApiBridge.Chat
