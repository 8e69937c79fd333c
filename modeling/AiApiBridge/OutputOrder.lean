import AiApiBridge.ItemNumbers
import AiApiBridge.OrderlyCues
import AiApiBridge.Wire.FrameEvents

/-!
# The order of the output array

Whether the output array of `response.completed` lists the items by their output
indices. An index is given when an item opens and the array grows when an item closes,
so the two orders agree exactly when the items are closed in the order in which they
were opened and no more are opened than there are indices (`outputInOrder_iff`).
-/

set_option autoImplicit false

namespace AiApiBridge

open Brackets ChatStreamParser Chat Cue

/-! ## Items and cues -/

namespace ResponsesEmitter

section InTurn

variable {e : ResponsesEmitter} {started : List Nat} {w : List Cue} {v : List (Bracket String)}

theorem mem_openIndices (e : ResponsesEmitter) (i : Nat) :
    i ∈ e.openIndices ↔ e.slots (.tool i) ≠ none := by
  rw [openIndices, Std.ExtTreeMap.map_fst_toList_eq_keys, Std.ExtTreeMap.mem_keys,
    Std.ExtTreeMap.mem_iff_isSome_getElem?]
  simp [slots]

theorem sorted_openIndices (e : ResponsesEmitter) : e.openIndices.Pairwise (· < ·) := by
  rw [openIndices, Std.ExtTreeMap.map_fst_toList_eq_keys]
  apply Std.ExtTreeMap.ordered_keys.imp
  intro i j hij
  exact Nat.compare_eq_lt.1 hij

/-- Which items can be closed in turn, by what is pending. -/
theorem Ranked.precedes_iff (h : Ranked e started) (hshows : Shows slots e w) :
    (Precedes e.slots .thinking .text ↔ ¬ (Pending .thinking w ∧ Pending .text w)) ∧
      (∀ i, Precedes e.slots .thinking (.tool i) ↔
        ¬ (Pending .thinking w ∧ Pending (.tool i) w)) ∧
      ∀ i, Precedes e.slots .text (.tool i) ↔ ¬ (Pending .text w ∧ Pending (.tool i) w) := by
  simp only [← hshows _]
  exact ⟨h.textFirst.reverse_iff, fun i => (h.callFirst i .thinking (Or.inr rfl)).reverse_iff,
    fun i => (h.callFirst i .text (Or.inl rfl)).reverse_iff⟩

theorem nodup_map_tool {is : List Nat} (h : is.Nodup) : (is.map ItemSlot.tool).Nodup :=
  h.map fun _ _ => ItemSlot.tool.inj

/-- The calls among the pending items. -/
theorem Ranked.callsInOrder_iff (h : Ranked e started) (hshows : Shows slots e w) {is : List Nat}
    (his : is.Pairwise (· < ·)) (hin : ∀ i, e.slots (.tool i) ≠ none → i ∈ is ∧ i ∈ started) :
    (is.map ItemSlot.tool).Pairwise (Precedes e.slots) ↔ CallsInOrder started w := by
  rw [List.pairwise_map, h.calls_iff his hin]
  simp only [CallsInOrder, ← hshows _]

variable (hfollows : Follows e v) (hle : e.nextOutputIndex ≤ 2 ^ 32)

include hfollows hle

/-- As long as the numbers last, the frames close items in turn exactly when the slots,
and all others after them, are in the order of the numbers of their items. -/
theorem inTurn_slots_iff {new : List (Bracket String)} {ks : List ItemSlot}
    (hnew : closes new = (itemsIn e ks).map framed) (hks : ks.Nodup) :
    InTurn (v ++ new) ↔ InTurn v ∧ ks.Pairwise (Precedes e.slots) ∧
      ∀ k ∈ ks, ∀ k', k' ∉ ks → Precedes e.slots k k' := by
  have hframed : (itemsIn e ks).map framed = itemsIn e ks := by
    apply (List.map_congr_left fun x hx => ?_).trans (List.map_id _)
    obtain ⟨k, -, hk⟩ := List.mem_flatMap.1 hx
    have hlt := InSlotsAs.lt_next hfollows (Option.mem_toList.1 hk)
    exact Prod.ext (asU32_of_lt (Nat.lt_of_lt_of_le hlt hle)) rfl
  rw [hframed] at hnew
  exact (hfollows.inSlots fun n hn => (asU32_below_iff _).2 hle n hn).inTurn_append_slots_iff
    hnew hks

variable (hshows : Shows slots e w) (hranked : Ranked e started)

include hshows hranked

/-- The items a cue ends. -/
theorem inTurn_cue {new : List (Bracket String)} {ev : CanonicalEvent} {c : Cue}
    (hcue : cueOf ev = some c) (hnew : closes new = (itemsIn e (closedSlots e ev)).map framed) :
    InTurn (v ++ new) ↔ InTurn v ∧ EndsInTurn started w c := by
  obtain ⟨htexts, hreasoning, hcontent⟩ := hranked.precedes_iff hshows
  -- what one event closes are different slots
  have hnodup : (closedSlots e ev).Nodup := by
    cases ev <;> cases hcue <;> simp [closedSlots]
  rw [inTurn_slots_iff hfollows hle hnew hnodup]
  apply and_congr_right
  intro _
  cases ev with
  | reasoningDelta t =>
      cases hcue
      simp [closedSlots, EndsInTurn]
  | textDelta t =>
      cases hcue
      simp only [closedSlots, EndsInTurn, List.pairwise_singleton, true_and, List.mem_singleton,
        forall_eq, ← htexts, ← hreasoning]
      constructor
      · intro h
        exact ⟨h .text (by simp), fun i => h (.tool i) (by simp)⟩
      · rintro ⟨htext, hcalls⟩ k hk
        cases k with
        | thinking => exact absurd rfl hk
        | text => exact htext
        | tool i => exact hcalls i
  | toolCallStart i callId name =>
      cases hcue
      simp only [EndsInTurn, ← htexts, ← hreasoning, ← hcontent]
      constructor
      · rintro ⟨hpairwise, hrest⟩
        refine ⟨List.rel_of_pairwise_cons hpairwise (by simp), fun i => ?_, fun i => ?_⟩
        · exact hrest .thinking (by simp [closedSlots]) (.tool i) (by simp [closedSlots])
        · exact hrest .text (by simp [closedSlots]) (.tool i) (by simp [closedSlots])
      · rintro ⟨htexts, hreasoning, hcontent⟩
        -- the two texts are closed in order, and before every call
        refine ⟨by simpa [closedSlots] using htexts, ?_⟩
        intro k hk k' hk'
        cases k' with
        | thinking => exact absurd (by simp [closedSlots]) hk'
        | text => exact absurd (by simp [closedSlots]) hk'
        | tool i =>
            rcases List.mem_pair.1 hk with rfl | rfl
            · exact hreasoning i
            · exact hcontent i
  | _ => cases hcue

/-- The items a finish reason ends. -/
theorem inTurn_finish {new : List (Bracket String)} (hnodup : started.Nodup)
    (hstarted : ∀ i, e.slots (.tool i) ≠ none → i ∈ started)
    (hnew : closes new = (itemsIn e ((started.insertionSort (· ≤ ·)).map .tool)).map framed) :
    InTurn (v ++ new) ↔ InTurn v ∧ EndsInTurn started w .finish := by
  have hsorted : (started.insertionSort (· ≤ ·)).Pairwise (· < ·) := by
    have hdistinct := (List.perm_insertionSort (· ≤ ·) started).nodup_iff.2 hnodup
    exact ((List.pairwise_insertionSort (· ≤ ·) started).and hdistinct).imp
      fun h => Nat.lt_of_le_of_ne h.1 h.2
  have hmem : ∀ i, e.slots (.tool i) ≠ none → i ∈ started.insertionSort (· ≤ ·) ∧ i ∈ started :=
    fun i hi => ⟨(List.mem_insertionSort _).2 (hstarted i hi), hstarted i hi⟩
  have hks : ((started.insertionSort (· ≤ ·)).map ItemSlot.tool).Nodup :=
    nodup_map_tool (hsorted.imp Nat.ne_of_lt)
  rw [inTurn_slots_iff hfollows hle hnew hks, EndsInTurn,
    ← hranked.callsInOrder_iff hshows hsorted hmem]
  apply and_congr_right
  intro _
  apply and_iff_left_of_imp
  -- the texts come after all calls, and no other call is open
  intro _ k hk k' hk'
  obtain ⟨i, hi, rfl⟩ := List.mem_map.1 hk
  cases k' with
  | thinking => exact hranked.callFirst i .thinking (Or.inr rfl)
  | text => exact hranked.callFirst i .text (Or.inl rfl)
  | tool j =>
      apply precedes_of_none_right
      by_contra hj
      exact hk' (List.mem_map_of_mem (hmem j hj).1)

/-- The items the end of the stream closes. -/
theorem inTurn_completed {new : List (Bracket String)}
    (hstarted : ∀ i, e.slots (.tool i) ≠ none → i ∈ started)
    (hnew : closes new = (itemsIn e (closedSlots e .completed)).map framed) :
    InTurn (v ++ new) ↔ InTurn v ∧ Orderly started w ∧ ¬ TextLeftInCall w := by
  obtain ⟨htexts, hreasoning, hcontent⟩ := hranked.precedes_iff hshows
  have hopen : ∀ i, e.slots (.tool i) ≠ none → i ∈ e.openIndices ∧ i ∈ started :=
    fun i hi => ⟨(mem_openIndices e i).2 hi, hstarted i hi⟩
  have hcalls := hranked.callsInOrder_iff hshows (sorted_openIndices e) hopen
  have hnodup : (closedSlots e .completed).Nodup := by
    simp [closedSlots, nodup_map_tool (nodup_openIndices e)]
  have hleft : ¬ TextLeftInCall w ↔ (∀ i, Precedes e.slots .thinking (.tool i)) ∧
      ∀ i, Precedes e.slots .text (.tool i) := by
    simp only [hreasoning, hcontent, TextLeftInCall]
    constructor
    · intro h
      exact ⟨fun i hi => h ⟨i, hi.2, Or.inl hi.1⟩, fun i hi => h ⟨i, hi.2, Or.inr hi.1⟩⟩
    · rintro ⟨hthinking, htext⟩ ⟨i, hi, hpending | hpending⟩
      · exact hthinking i ⟨hpending, hi⟩
      · exact htext i ⟨hpending, hi⟩
  rw [inTurn_slots_iff hfollows hle hnew hnodup, Orderly, hleft, ← htexts, ← hcalls]
  apply and_congr_right
  intro _
  -- a slot that stays is empty
  have hrest : ∀ k ∈ closedSlots e .completed, ∀ k', k' ∉ closedSlots e .completed →
      Precedes e.slots k k' := by
    intro k _ k' hk'
    apply precedes_of_none_right
    by_contra hne
    cases k' with
    | thinking => exact hk' (by simp [closedSlots])
    | text => exact hk' (by simp [closedSlots])
    | tool j => exact hk' (by simp [closedSlots, (hopen j hne).1])
  rw [and_iff_left hrest, closedSlots, List.pairwise_cons, List.pairwise_cons, List.forall_mem_cons]
  have hall : ∀ k, (∀ k' ∈ e.openIndices.map ItemSlot.tool, Precedes e.slots k k') ↔
      ∀ i, Precedes e.slots k (.tool i) := by
    intro k
    rw [List.forall_mem_map]
    constructor
    · intro h i
      by_cases hi : e.slots (.tool i) = none
      · exact precedes_of_none_right hi
      · exact h i (hopen i hi).1
    · exact fun h i _ => h i
  rw [hall, hall]
  tauto

end InTurn

/-! ## Final items and ids -/

/-- The final items are the closed ones, and the ids of the opened ones are drawn in the
order in which they were opened. -/
structure Booked (uuid : Nat → String) (e : ResponsesEmitter) (v : List (Bracket String)) :
    Prop where
  count : (opens v).length = e.nextOutputIndex
  drawn : e.drawn = e.nextOutputIndex
  items : e.finalItems.map itemId = (closes v).map fun x => some x.2
  ids : ∀ n x, (opens v)[n]? = some x → ∃ k, x = framed (n, newId uuid (slotPrefix k) n)

section Booked

variable {uuid : Nat → String} {e : ResponsesEmitter} {v : List (Bracket String)}

theorem booked_new : Booked uuid .new [] := by
  constructor <;> simp [ResponsesEmitter.new]

theorem Booked.append (h : Booked uuid e v) {r : Emission} {closed opened : List (Nat × String)}
    (hbooks : Books e r closed opened) (hnext : NextItem uuid e opened) :
    Booked uuid r.1 (v ++ r.2.filterMap itemBracket) where
  count := by
    rw [opens_append, List.length_append, hbooks.opens, List.length_map, h.count, hbooks.next]
  drawn := by rw [hbooks.drawn, hbooks.next, h.drawn]
  items := by
    rw [hbooks.items, h.items, closes_append, hbooks.closes, List.map_append, List.map_map]
    rfl
  ids := by
    intro n x hx
    rw [opens_append, hbooks.opens] at hx
    rcases Nat.lt_or_ge n (opens v).length with hn | hn
    · rw [List.getElem?_append_left hn] at hx
      exact h.ids n x hx
    · rw [List.getElem?_append_right hn] at hx
      rcases hnext with rfl | ⟨k, rfl⟩
      · cases hx
      · -- the one new item comes behind all others
        obtain ⟨hlt, heq⟩ := List.getElem?_eq_some_iff.1 hx
        have hn' : n = e.nextOutputIndex := by
          have hcount := h.count
          simp only [List.length_map, List.length_singleton] at hlt
          omega
        refine ⟨k, ?_⟩
        simp only [h.drawn, List.map_cons, List.map_nil, List.getElem_singleton] at heq
        rw [hn', heq]

theorem slotPrefix_mem (k : ItemSlot) : slotPrefix k ∈ ["rs", "msg", "fc"] := by
  cases k <;> simp [slotPrefix]

/-- Prefixes start with different letters. -/
theorem slotPrefix_apart : ∀ pre ∈ ["rs", "msg", "fc"], ∀ pre' ∈ ["rs", "msg", "fc"], pre ≠ pre' →
    pre.toList.head? ≠ pre'.toList.head? ∧ pre.toList ≠ [] ∧ pre'.toList ≠ [] := by
  decide

/-- Ids tell the openings apart. -/
theorem Booked.ids_position (hu : Function.Injective uuid) (h : Booked uuid e v) {n m : Nat}
    {x y : Nat × String} (hx : (opens v)[n]? = some x) (hy : (opens v)[m]? = some y)
    (heq : x.2 = y.2) : n = m := by
  obtain ⟨k, rfl⟩ := h.ids n x hx
  obtain ⟨k', rfl⟩ := h.ids m y hy
  have hsame : slotPrefix k = slotPrefix k' := by
    by_contra hdiff
    obtain ⟨hhead, hne, hne'⟩ := slotPrefix_apart _ (slotPrefix_mem k) _ (slotPrefix_mem k') hdiff
    exact newId_ne n m hhead hne hne' heq
  apply newId_injective hu (slotPrefix k)
  rwa [framed_mk, framed_mk, ← hsame] at heq

/-- Ids tell items apart. -/
theorem Booked.ids_injective (hu : Function.Injective uuid) (h : Booked uuid e v)
    {x y : Nat × String} (hx : x ∈ opens v) (hy : y ∈ opens v) (heq : x.2 = y.2) : x = y := by
  obtain ⟨n, hn⟩ := List.getElem?_of_mem hx
  obtain ⟨m, hm⟩ := List.getElem?_of_mem hy
  obtain rfl := h.ids_position hu hn hm heq
  exact Option.some.inj (hn.symm.trans hm)

end Booked

end ResponsesEmitter

/-! ## Streams -/

section Stream

open ResponsesEmitter

variable (uuid : Nat → String)

/-- The items of an emitter follow the cues: those are open that are pending, and so far
they have been closed in turn, and can be, exactly when the cues are tidy. That holds as
long as the numbers last. -/
structure ItemsFollow (e : ResponsesEmitter) (frames : List SseFrame) (started : List Nat)
    (w : List Cue) : Prop where
  follows : Follows e (frames.filterMap itemBracket)
  shows : Shows slots e w
  calls : ∀ i, .call i ∈ w → i ∈ started
  nodup : started.Nodup
  ranked : Ranked e started
  booked : Booked uuid e (frames.filterMap itemBracket)
  inTurn : e.nextOutputIndex ≤ 2 ^ 32 →
    (InTurn (frames.filterMap itemBracket) ∧ Orderly started w ↔ Tidy w)

theorem itemsFollow_new : ItemsFollow uuid .new [] [] [] where
  follows := InSlotsAs.nil.congr slots_new
  shows := shows_nil slots_new
  calls := by simp
  nodup := List.nodup_nil
  ranked := by
    exact ⟨fun i k _ => precedes_of_none_left (slots_new _), precedes_of_none_left rfl,
      List.Pairwise.nil⟩
  booked := booked_new
  inTurn := by
    intro _
    refine iff_of_true ⟨List.prefix_refl _, ?_, List.Pairwise.nil⟩ tidy_nil
    exact fun h => not_pending_nil _ h.1

namespace ItemsFollow

variable {uuid} {e : ResponsesEmitter} {frames : List SseFrame} {started : List Nat} {w : List Cue}

/-- An open call has been started. -/
theorem started_of_open (h : ItemsFollow uuid e frames started w) {i : Nat}
    (hi : e.slots (.tool i) ≠ none) : i ∈ started :=
  h.calls i ((h.shows (.tool i)).1 hi).call_mem

/-- The frames of one event. -/
theorem follows_onEvent (h : ItemsFollow uuid e frames started w) (ev : CanonicalEvent)
    (hfree : ∀ i, startedIndex ev = some i → e.slots (.tool i) = none) :
    Follows (onEvent uuid e ev).1
      ((frames ++ (onEvent uuid e ev).2).filterMap itemBracket) := by
  rw [List.filterMap_append]
  exact (followsBrackets uuid).event e ev _ h.follows hfree

theorem booked_onEvent (h : ItemsFollow uuid e frames started w) (ev : CanonicalEvent) :
    Booked uuid (onEvent uuid e ev).1
      ((frames ++ (onEvent uuid e ev).2).filterMap itemBracket) := by
  obtain ⟨opened, hbooks, hnext⟩ := books_onEvent uuid e ev
  rw [List.filterMap_append]
  exact h.booked.append hbooks hnext

/-- Numbers are given out in order. -/
theorem le_of_next {r : Emission} {closed opened : List (Nat × String)}
    (hbooks : Books e r closed opened) {m : Nat} (hle : r.1.nextOutputIndex ≤ m) :
    e.nextOutputIndex ≤ m := by
  rw [hbooks.next] at hle
  exact Nat.le_of_add_right_le hle

theorem free_of_fresh (h : ItemsFollow uuid e frames started w) {ev : CanonicalEvent}
    (hfresh : ∀ i, startedIndex ev = some i → i ∉ started) :
    ∀ i, startedIndex ev = some i → e.slots (.tool i) = none := by
  intro i hi
  by_contra hne
  exact hfresh i hi (h.started_of_open hne)

/-- The started indices stay distinct. -/
theorem nodup_onEvent (h : ItemsFollow uuid e frames started w) {ev : CanonicalEvent}
    (hfresh : ∀ i, startedIndex ev = some i → i ∉ started) :
    (started ++ (startedIndex ev).toList).Nodup := by
  cases hi : startedIndex ev with
  | none => simpa using h.nodup
  | some i =>
      rw [Option.toList_some, List.nodup_append]
      refine ⟨h.nodup, List.nodup_singleton i, ?_⟩
      rintro j hj k hk rfl
      rw [List.mem_singleton.1 hk] at hj
      exact hfresh i hi hj

/-- An event that opens and closes nothing. -/
theorem idle (h : ItemsFollow uuid e frames started w) {ev : CanonicalEvent} (hev : IsIdle ev) :
    ItemsFollow uuid (onEvent uuid e ev).1 (frames ++ (onEvent uuid e ev).2) started w := by
  have hstart : startedIndex ev = none := by cases ev <;> first | rfl | cases hev
  have hnone : closedSlots e ev = [] := by cases ev <;> first | rfl | cases hev
  obtain ⟨opened, hbooks, -⟩ := books_onEvent uuid e ev
  have hclosed := hbooks.closes
  rw [hnone] at hclosed
  have hranked := h.ranked.event uuid h.follows ev (by simp [hstart])
  rw [hstart, Option.toList_none, List.append_nil] at hranked
  refine ⟨h.follows_onEvent ev (by simp [hstart]), (keepsSlots uuid).shows_idle hev h.shows,
    h.calls, h.nodup, hranked, h.booked_onEvent ev, fun hle => ?_⟩
  have hold := le_of_next hbooks hle
  rw [List.filterMap_append, inTurn_slots_iff h.follows hold hclosed List.nodup_nil,
    ← h.inTurn hold]
  simp

/-- An event that is a cue. -/
theorem cue (h : ItemsFollow uuid e frames started w) {ev : CanonicalEvent} {c : Cue}
    (hcue : cueOf ev = some c) (hfresh : ∀ i, startedIndex ev = some i → i ∉ started) :
    ItemsFollow uuid (onEvent uuid e ev).1 (frames ++ (onEvent uuid e ev).2)
      (started ++ (startedIndex ev).toList) (w ++ [c]) := by
  have hindex : startedIndex ev = c.newIndex := by cases ev <;> cases hcue <;> rfl
  have hfree := h.free_of_fresh hfresh
  obtain ⟨opened, hbooks, -⟩ := books_onEvent uuid e ev
  have horderly : EndsInTurn started w c ∧ Orderly (started ++ c.newIndex.toList) (w ++ [c]) ↔
      Orderly started w ∧ KeepsTidy w c := by
    apply orderly_snoc _ fun i hi => h.calls i hi.call_mem
    rintro i rfl
    exact hfresh i hindex
  refine ⟨h.follows_onEvent ev hfree, (keepsSlots uuid).shows_cue hcue hfree h.shows,
    calls_snoc h.calls hcue, h.nodup_onEvent hfresh,
    h.ranked.event uuid h.follows ev fun i hi => ⟨hfresh i hi, hfree i hi⟩, h.booked_onEvent ev,
    fun hle => ?_⟩
  have hold := le_of_next hbooks hle
  rw [List.filterMap_append, inTurn_cue h.follows hold h.shows h.ranked hcue hbooks.closes,
    hindex, and_assoc, horderly, tidy_snoc, ← h.inTurn hold, and_assoc]

/-- The done events of a finish reason. -/
theorem finish (h : ItemsFollow uuid e frames started w) :
    ItemsFollow uuid
      (Transducer.run (onEvent uuid) e ((started.insertionSort (· ≤ ·)).map .toolCallDone)).1
      (frames ++
        (Transducer.run (onEvent uuid) e ((started.insertionSort (· ≤ ·)).map .toolCallDone)).2)
      started (w ++ [.finish]) := by
  have hnodup := (List.perm_insertionSort (· ≤ ·) started).nodup_iff.2 h.nodup
  have hbooks := books_finish uuid e hnodup
  -- done events start nothing
  have hstarts : ((started.insertionSort (· ≤ ·)).map CanonicalEvent.toolCallDone).filterMap
      startedIndex = [] := by
    simp [List.filterMap_map, Function.comp_def, startedIndex]
  have hfollows := (followsBrackets uuid).run
    ((started.insertionSort (· ≤ ·)).map .toolCallDone) h.follows
    (fun i => h.started_of_open) (by simpa [hstarts] using h.nodup)
  rw [← List.filterMap_append] at hfollows
  have hbooked := h.booked.append hbooks (Or.inl rfl)
  rw [← List.filterMap_append] at hbooked
  have hranked : Ranked (Transducer.run (onEvent uuid) e
      ((started.insertionSort (· ≤ ·)).map .toolCallDone)).1 started := by
    apply h.ranked.of_subset
    intro k x hx
    rw [(keepsSlots uuid).slots_dones] at hx
    split at hx
    · cases hx
    · exact hx
  have horderly : EndsInTurn started w .finish ∧ Orderly started (w ++ [.finish]) ↔
      Orderly started w ∧ KeepsTidy w .finish := by
    have := @orderly_snoc started w .finish (fun i hi => by cases hi)
      fun i hi => h.calls i hi.call_mem
    rwa [newIndex, Option.toList_none, List.append_nil] at this
  refine ⟨hfollows, (keepsSlots uuid).shows_finish (fun i => h.started_of_open) h.shows,
    calls_finish h.calls, h.nodup, hranked, hbooked, fun hle => ?_⟩
  have hold := le_of_next hbooks hle
  rw [List.filterMap_append, inTurn_finish h.follows hold h.shows h.ranked h.nodup
    (fun i => h.started_of_open) hbooks.closes, and_assoc, horderly, tidy_snoc,
    ← h.inTurn hold, and_assoc]

end ItemsFollow

/-- **The Responses emitter follows the cues.** -/
theorem followsCues_items : FollowsCues (onEvent uuid) (ItemsFollow uuid) where
  idle := fun _ _ _ _ _ h hev => h.idle hev
  cue := fun _ _ _ _ _ _ h hcue hfresh => h.cue hcue hfresh
  finish := fun _ _ _ _ h => h.finish

/-- The output array of the response that ends the frames. -/
def finalOutput (frames : List SseFrame) : Option (List Value) :=
  frames.getLast?.bind fun fr =>
    if fr.event = "response.completed" then (fr.get "response").map outputItems else none

/-- An output array with one entry for each item the frames announce, at the place of
its output index. -/
structure OutputInOrder (frames : List SseFrame) (output : List Value) : Prop where
  length : output.length = (opens (frames.filterMap itemBracket)).length
  entry : ∀ k id, (k, id) ∈ opens (frames.filterMap itemBracket) →
    (output[k]?).bind itemId = some id

/-- Items numbered in order stand at their numbers. -/
theorem fst_of_getElem? {w : List (Bracket String)} (h : Bracketed w) {k : Nat}
    {x : Nat × String} (hx : (opens w)[k]? = some x) : x.1 = k := by
  have hnumber : ((opens w).map Prod.fst)[k]? = some x.1 := by simp [hx]
  rw [h.numbered] at hnumber
  obtain ⟨hk, heq⟩ := List.getElem?_eq_some_iff.1 hnumber
  simpa using heq.symm

theorem getElem?_of_mem_opens {w : List (Bracket String)} (h : Bracketed w) {k : Nat} {id : String}
    (hmem : (k, id) ∈ opens w) : (opens w)[k]? = some (k, id) := by
  obtain ⟨j, hj⟩ := List.mem_iff_getElem?.1 hmem
  obtain rfl : k = j := fst_of_getElem? h hj
  exact hj

/-- **Output by index.** The final items are listed by output index exactly when they
are closed in turn. -/
theorem outputInOrder_iff_inTurn {uuid : Nat → String} (hu : Function.Injective uuid)
    {e : ResponsesEmitter} {frames : List SseFrame}
    (hbracketed : Bracketed (frames.filterMap itemBracket))
    (hbooked : Booked uuid e (frames.filterMap itemBracket)) :
    OutputInOrder frames e.finalItems ↔ InTurn (frames.filterMap itemBracket) := by
  rw [hbracketed.inTurn_iff]
  have hentry : ∀ k : Nat, (e.finalItems[k]?).map itemId =
      ((closes (frames.filterMap itemBracket))[k]?).map fun x => some x.2 := by
    intro k
    rw [← List.getElem?_map, hbooked.items, List.getElem?_map]
  constructor
  · intro h
    apply List.ext_getElem hbracketed.closedOnce.length_eq
    intro k hk hk'
    -- the entry at `k` has the id of the item numbered `k`, and of the one closed there
    have hopened := List.getElem?_eq_getElem hk'
    generalize (opens (frames.filterMap itemBracket))[k] = x at hopened ⊢
    have hclosed := hentry k
    rw [List.getElem?_eq_getElem hk] at hclosed
    have hmem := List.getElem_mem hk
    generalize (closes (frames.filterMap itemBracket))[k] = y at hclosed hmem ⊢
    have hx : x ∈ opens (frames.filterMap itemBracket) := List.mem_of_getElem? hopened
    have hid := h.entry x.1 x.2 hx
    rw [fst_of_getElem? hbracketed hopened] at hid
    apply hbooked.ids_injective hu (hbracketed.closedOnce.mem_iff.1 hmem) hx
    cases hget : e.finalItems[k]? with
    | none => simp [hget] at hid
    | some item =>
        simp only [hget, Option.bind_some, Option.map_some, Option.some.injEq] at hid hclosed
        rw [hid] at hclosed
        exact (Option.some.inj hclosed).symm
  · intro heq
    refine ⟨?_, ?_⟩
    · have := congrArg List.length hbooked.items
      simpa [heq] using this
    · intro k id hid
      have := hentry k
      rw [heq, getElem?_of_mem_opens hbracketed hid] at this
      cases hget : e.finalItems[k]? with
      | none => simp [hget] at this
      | some item => simpa [hget] using this

/-- The last frame lists the final items. -/
theorem finalOutput_completed (e : ResponsesEmitter) (frames : List SseFrame) :
    finalOutput (frames ++ (onEvent uuid e .completed).2) =
      some (onEvent uuid e .completed).1.finalItems := by
  obtain ⟨e', items, heq, -⟩ := onEventCore_completed uuid e
  have hframes : (onEvent uuid e .completed).2 =
      number e.seq items ++ number (e.seq + items.length) [e'.completedFrame] := by
    rw [onEvent, heq, number_append]
  have hitems : (onEvent uuid e .completed).1.finalItems = e'.finalItems := by
    rw [onEvent, heq]
  rw [hframes, hitems, number, number, ← List.append_assoc, finalOutput, List.getLast?_concat]
  simp [completedFrame, completedResponse, outputItems, SseFrame.get, Value.get]

/-- The frames end with a response that lists their items by output index. -/
def ListsByIndex (frames : List SseFrame) : Prop :=
  ∃ output, finalOutput frames = some output ∧ OutputInOrder frames output

/-- Behind `2 ^ 32` items the numbers start again, and two items share one. -/
theorem not_listsByIndex_of_wrapped {uuid : Nat → String} (hu : Function.Injective uuid)
    {e : ResponsesEmitter} {frames : List SseFrame}
    (hbooked : Booked uuid e (frames.filterMap itemBracket)) (hlt : 2 ^ 32 < e.nextOutputIndex) :
    ¬ ListsByIndex frames := by
  rintro ⟨output, -, h⟩
  rw [← hbooked.count] at hlt
  obtain ⟨x, hfirst⟩ : ∃ x, (opens (frames.filterMap itemBracket))[0]? = some x :=
    ⟨_, List.getElem?_eq_getElem (Nat.zero_lt_of_lt hlt)⟩
  obtain ⟨y, hlast⟩ : ∃ y, (opens (frames.filterMap itemBracket))[2 ^ 32]? = some y :=
    ⟨_, List.getElem?_eq_getElem hlt⟩
  obtain ⟨k, hk⟩ := hbooked.ids _ _ hfirst
  obtain ⟨k', hk'⟩ := hbooked.ids _ _ hlast
  -- both would be at place 0 of the output
  have hx : x.1 = 0 := by rw [hk]; rfl
  have hy : y.1 = 0 := by rw [hk']; exact Nat.mod_self _
  have hentry := h.entry x.1 x.2 (List.mem_of_getElem? hfirst)
  have hentry' := h.entry y.1 y.2 (List.mem_of_getElem? hlast)
  rw [hx] at hentry
  rw [hy, hentry] at hentry'
  exact absurd (hbooked.ids_position hu hfirst hlast (Option.some.inj hentry')) (by decide)

/-- **When the output array follows the output indices.** For every stream of chunks the
response that ends it has one entry for each announced item, the one with output index `k`
at place `k`, exactly when at most `2 ^ 32` items are opened, no reasoning comes after
content before the next call, no call starts while one of a larger index is pending, and no
reasoning or content is ended, or left at the end, while a call is pending. -/
theorem outputInOrder_iff (uuid : Nat → String) (hu : Function.Injective uuid)
    (responseId : String) (chunks : List Value) :
    ListsByIndex (streamFrames uuid responseId chunks) ↔
      itemsOpened [] (streamCues [] chunks) ≤ 2 ^ 32 ∧
        ¬ ReasoningAfterContent (streamCues [] chunks) ∧
        ¬ CallsOutOfOrder (streamCues [] chunks) ∧
        ¬ TextEndsInCall (streamCues [] chunks) ∧ ¬ TextLeftInCall (streamCues [] chunks) := by
  have hcount := nextOutputIndex_stream uuid responseId chunks
  have hbracketed := streamFrames_bracketed_iff uuid responseId chunks
  have h := (followsCues_items uuid).chunks chunks (p := new responseId) (itemsFollow_new uuid)
  rw [List.nil_append, List.nil_append] at h
  have hbooked := h.booked_onEvent .completed
  obtain ⟨opened, hbooks, -⟩ := books_onEvent uuid
    (Transducer.run (onEvent uuid) .new (Transducer.run onChunk (new responseId) chunks).2).1
    .completed
  rw [streamFrames, streamEvents, Transducer.run_append_snd, Transducer.run_singleton]
    at hbracketed ⊢
  rw [streamEvents, Transducer.run_append_fst, Transducer.run_singleton] at hcount
  by_cases hle : itemsOpened [] (streamCues [] chunks) ≤ 2 ^ 32
  · have hlast := ItemsFollow.le_of_next hbooks (hcount ▸ hle)
    have hturn := inTurn_completed h.follows hlast h.shows h.ranked (fun i => h.started_of_open)
      hbooks.closes
    rw [and_iff_right hle, ListsByIndex, finalOutput_completed]
    simp only [Option.some.injEq, exists_eq_left']
    rw [outputInOrder_iff_inTurn hu (hbracketed.2 hle) hbooked, List.filterMap_append, hturn,
      ← and_assoc, h.inTurn hlast, Tidy, and_assoc, and_assoc]
    rfl
  · refine iff_of_false ?_ fun hall => hle hall.1
    apply not_listsByIndex_of_wrapped hu hbooked
    rw [hcount]
    exact Nat.lt_of_not_le hle

/-- Reasoning, content and two calls, started in the order of their indices. -/
theorem outputInOrder_iff_inOrder :
    ListsByIndex (streamFrames unaryId "r"
        [deltaChunk [("reasoning", .string "a")], deltaChunk [("content", .string "b")],
          deltaChunk [("tool_calls", .array [.object [("index", .ofNat 0)],
            .object [("index", .ofNat 1)]])]]) ↔
      itemsOpened [] (streamCues []
          [deltaChunk [("reasoning", .string "a")], deltaChunk [("content", .string "b")],
            deltaChunk [("tool_calls", .array [.object [("index", .ofNat 0)],
              .object [("index", .ofNat 1)]])]]) ≤ 2 ^ 32 ∧
        ¬ ReasoningAfterContent (streamCues []
          [deltaChunk [("reasoning", .string "a")], deltaChunk [("content", .string "b")],
            deltaChunk [("tool_calls", .array [.object [("index", .ofNat 0)],
              .object [("index", .ofNat 1)]])]]) ∧
        ¬ CallsOutOfOrder (streamCues []
          [deltaChunk [("reasoning", .string "a")], deltaChunk [("content", .string "b")],
            deltaChunk [("tool_calls", .array [.object [("index", .ofNat 0)],
              .object [("index", .ofNat 1)]])]]) ∧
        ¬ TextEndsInCall (streamCues []
          [deltaChunk [("reasoning", .string "a")], deltaChunk [("content", .string "b")],
            deltaChunk [("tool_calls", .array [.object [("index", .ofNat 0)],
              .object [("index", .ofNat 1)]])]]) ∧
        ¬ TextLeftInCall (streamCues []
          [deltaChunk [("reasoning", .string "a")], deltaChunk [("content", .string "b")],
            deltaChunk [("tool_calls", .array [.object [("index", .ofNat 0)],
              .object [("index", .ofNat 1)]])]]) :=
  outputInOrder_iff unaryId unaryId_injective "r"
    [deltaChunk [("reasoning", .string "a")], deltaChunk [("content", .string "b")],
      deltaChunk [("tool_calls", .array [.object [("index", .ofNat 0)],
        .object [("index", .ofNat 1)]])]]

/-- An output array whose first entry is not the item with output index 0. -/
theorem not_listsByIndex_of_first {frames : List SseFrame} (id id' : String)
    (hopened : (0, id) ∈ opens (frames.filterMap itemBracket))
    (hfirst : (finalOutput frames).map (fun output => (output[0]?).bind itemId) = some (some id'))
    (hne : id' ≠ id) : ¬ ListsByIndex frames := by
  rintro ⟨output, houtput, h⟩
  rw [houtput, Option.map_some, h.entry 0 id hopened] at hfirst
  exact hne (Option.some.inj (Option.some.inj hfirst)).symm

/-- Two calls started against their indices, and reasoning after content: the item that
opens second is listed first. -/
theorem not_outputInOrder :
    ¬ ListsByIndex (streamFrames unaryId "r" [deltaChunk [("tool_calls",
        .array [.object [("index", .ofNat 1)], .object [("index", .ofNat 0)]])]]) ∧
      ¬ ListsByIndex (streamFrames unaryId "r" [deltaChunk [("content", .string "a")],
        deltaChunk [("reasoning_content", .string "b")]]) :=
  ⟨not_listsByIndex_of_first (newId unaryId "fc" 0) (newId unaryId "fc" 1)
      (by decide) (by decide) (by decide),
    not_listsByIndex_of_first (newId unaryId "msg" 0) (newId unaryId "rs" 1)
      (by decide) (by decide) (by decide)⟩

end Stream

end AiApiBridge
