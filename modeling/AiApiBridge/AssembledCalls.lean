import AiApiBridge.Completions
import AiApiBridge.Lib.TreeMaps

/-!
# Drafts of call fragments

The calls that the fragments of a stream make up, in the draft that the events of these
fragments add up to: open while fragments arrive (`Draft.Assembles`), and closed by a
finish reason (`Draft.Closes`).
-/

set_option autoImplicit false

namespace AiApiBridge

open Chat ChatStreamParser

namespace Draft

/-- The draft knows the calls that some fragments make up, all of them open. -/
structure Assembles (fs : List Value) (started : List Nat) (d : Draft) : Prop where
  started_eq : d.calls.map DraftCall.index = started
  nodup : started.Nodup
  live : ∀ c ∈ d.calls, c.live = true
  call : ∀ i, callAt i fs = d.openCall i

theorem openCall_isSome_iff {d : Draft} (h : ∀ c ∈ d.calls, c.live = true) (i : Nat) :
    (d.openCall i).isSome ↔ i ∈ d.calls.map DraftCall.index := by
  simp only [openCall, Option.isSome_map, List.find?_isSome, Bool.and_eq_true, decide_eq_true_eq,
    List.mem_map]
  constructor
  · rintro ⟨c, hc, hi, -⟩
    exact ⟨c, hc, hi⟩
  · rintro ⟨c, hc, hi⟩
    exact ⟨c, hc, hi, h c hc⟩

/-- The parts of a draft that tool events leave alone. -/
def SameTexts (d d' : Draft) : Prop :=
  d'.opened = d.opened ∧ d'.responseId = d.responseId ∧ d'.model = d.model ∧
    d'.reasoning = d.reasoning ∧ d'.content = d.content ∧ d'.usage = d.usage

theorem SameTexts.refl (d : Draft) : SameTexts d d := ⟨rfl, rfl, rfl, rfl, rfl, rfl⟩

theorem SameTexts.trans {d d' d'' : Draft} (h : SameTexts d d') (h' : SameTexts d' d'') :
    SameTexts d d'' := by
  rcases h with ⟨h1, h2, h3, h4, h5, h6⟩
  rcases h' with ⟨h1', h2', h3', h4', h5', h6'⟩
  exact ⟨h1'.trans h1, h2'.trans h2, h3'.trans h3, h4'.trans h4, h5'.trans h5, h6'.trans h6⟩

theorem nodup_startIndex {started : List Nat} (h : started.Nodup) (n : Nat) :
    (startIndex started n).Nodup := by
  rw [startIndex]
  split
  · exact h
  · rename_i hmem
    refine List.nodup_append.2 ⟨h, by simp, fun a ha b hb => ?_⟩
    rw [List.mem_singleton.1 hb]
    rintro rfl
    exact hmem ha

/-- The start of a call, unless its index is known. -/
theorem Assembles.start {fs : List Value} {started : List Nat} {d : Draft}
    (h : Assembles fs started d) (ho : d.opened = true) (n : Nat) (callId name : String) :
    ∃ d', d' = d.after (if n ∈ started then [] else [.toolCallStart n callId name]) ∧
      d.Orderly (if n ∈ started then [] else [.toolCallStart n callId name]) ∧
      d'.calls.map DraftCall.index = startIndex started n ∧ (∀ c ∈ d'.calls, c.live = true) ∧
      (∀ i, d'.openCall i =
        (callAt i fs).or (if n = i then some ⟨callId, name, ""⟩ else none)) ∧
      SameTexts d d' ∧ d'.closed = d.closed := by
  have hiff : (d.openCall n).isSome ↔ n ∈ started := by
    rw [openCall_isSome_iff h.live, h.started_eq]
  refine ⟨_, rfl, ?_⟩
  by_cases hmem : n ∈ started
  · simp only [hmem, if_true, after_nil, orderly_nil, true_and, startIndex]
    refine ⟨h.started_eq, h.live, fun i => ?_, SameTexts.refl d, trivial⟩
    rw [h.call i]
    by_cases hi : n = i
    · -- the call is there already
      subst hi
      obtain ⟨c, hc⟩ := Option.isSome_iff_exists.1 (hiff.2 hmem)
      simp [hc]
    · simp [hi]
  · have hnone : d.openCall n = none := by
      rw [← Option.not_isSome_iff_eq_none, hiff]
      exact hmem
    simp only [hmem, if_false, after_cons, after_nil, orderly_cons, orderly_nil, and_true,
      startIndex]
    refine ⟨⟨ho, hnone⟩, ?_, ?_, fun i => ?_, SameTexts.refl d, rfl⟩
    · simp [step, h.started_eq]
    · intro c hc
      rcases List.mem_append.1 hc with hc | hc
      · exact h.live c hc
      · rw [List.mem_singleton.1 hc]
    · rw [openCall_start, h.call i]

theorem map_index_append (calls : List DraftCall) (n : Nat) (args : String) :
    (calls.map (DraftCall.append n args)).map DraftCall.index = calls.map DraftCall.index := by
  rw [List.map_map]
  apply List.map_congr_left
  intro c _
  simp only [Function.comp_apply, DraftCall.append]
  split <;> rfl

theorem live_append {calls : List DraftCall} (h : ∀ c ∈ calls, c.live = true) (n : Nat)
    (args : String) : ∀ c ∈ calls.map (DraftCall.append n args), c.live = true := by
  intro _ hmem
  obtain ⟨c, hc, rfl⟩ := List.mem_map.1 hmem
  have := h c hc
  rw [DraftCall.append]
  split <;> exact this

/-- One fragment. -/
theorem Assembles.fragment {fs : List Value} {started : List Nat} {d : Draft}
    (h : Assembles fs started d) (ho : d.opened = true) {f : Value} {n : Nat}
    (hn : carriedIndex f = some n) (hlt : n < 2 ^ 32) :
    d.Orderly (onFragment started f).2 ∧
      Assembles (fs ++ [f]) (onFragment started f).1 (d.after (onFragment started f).2) ∧
      SameTexts d (d.after (onFragment started f).2) ∧
      (d.after (onFragment started f).2).closed = d.closed := by
  have hidx : fragmentIndex f = n := fragmentIndex_of_carriedIndex hn hlt
  -- the draft behind the start event, if the index is new
  obtain ⟨d', hd', horder, hidxs, hlive, hopen, hsame, hclosed⟩ :=
    h.start ho n (strOr f "id" "") ((functionStr f "name").getD "")
  have hnodup := nodup_startIndex h.nodup n
  have hopened : d'.opened = true := hsame.1.trans ho
  rw [onFragment_eq, hidx, orderly_append, after_append, ← hd']
  -- a fragment without arguments has no delta event
  cases ha : fragmentArgs f with
  | none =>
      refine ⟨⟨horder, trivial⟩, ⟨hidxs, hnodup, hlive, fun i => ?_⟩, hsame, hclosed⟩
      rw [Option.map_none, Option.toList_none, after_nil, hopen i, callAt_snoc, hn, ha]
      by_cases hi : n = i
      · cases callAt i fs <;> simp [hi]
      · simp [hi]
  | some args =>
      refine ⟨⟨horder, hopened, trivial⟩, ⟨(map_index_append _ n args).trans hidxs, hnodup,
        live_append hlive n args, fun i => ?_⟩, hsame, hclosed⟩
      rw [Option.map_some, Option.toList_some, after_cons, after_nil, openCall_args, hopen i,
        callAt_snoc, hn, ha]
      by_cases hi : n = i
      · cases callAt i fs <;> simp [hi]
      · simp [hi]

/-- The fragments of a chunk. -/
theorem Assembles.fragments {fs gs : List Value} {started : List Nat} {d : Draft}
    (h : Assembles fs started d) (ho : d.opened = true)
    (hgs : ∀ f ∈ gs, ∃ n, carriedIndex f = some n ∧ n < 2 ^ 32) :
    d.Orderly (Transducer.run onFragment started gs).2 ∧
      Assembles (fs ++ gs) (Transducer.run onFragment started gs).1
        (d.after (Transducer.run onFragment started gs).2) ∧
      SameTexts d (d.after (Transducer.run onFragment started gs).2) ∧
      (d.after (Transducer.run onFragment started gs).2).closed = d.closed := by
  induction gs generalizing fs started d with
  | nil => exact ⟨trivial, by simpa using h, SameTexts.refl d, rfl⟩
  | cons g gs ih =>
      obtain ⟨n, hn, hlt⟩ := hgs g (by simp)
      obtain ⟨h1, h2, h3, h4⟩ := h.fragment ho hn hlt
      obtain ⟨h1', h2', h3', h4'⟩ := ih h2 (h3.1.trans ho) fun f hf => hgs f (by simp [hf])
      rw [Transducer.run_cons, orderly_append, after_append]
      exact ⟨⟨h1, h1'⟩, by simpa using h2', h3.trans h3', h4'.trans h4⟩

/-- Done events for distinct indices. -/
theorem after_dones {is : List Nat} (his : is.Nodup) {d : Draft} (ho : d.opened = true) :
    d.Orderly (is.map CanonicalEvent.toolCallDone) ∧
      d.after (is.map CanonicalEvent.toolCallDone) =
        { d with
          calls := d.calls.map fun c => { c with live := c.live && decide (c.index ∉ is) }
          closed := d.closed ++ is.filterMap d.openCall } := by
  induction is generalizing d with
  | nil => simp
  | cons i is ih =>
      rw [List.nodup_cons] at his
      obtain ⟨h1, h2⟩ := ih his.2 (d := d.step (.toolCallDone i)) ho
      rw [List.map_cons, orderly_cons, after_cons, h2]
      refine ⟨⟨ho, h1⟩, ?_⟩
      -- ending one call hides no other
      have hrest : is.filterMap (d.step (.toolCallDone i)).openCall = is.filterMap d.openCall := by
        apply List.filterMap_congr
        intro j hj
        have hne : i ≠ j := fun heq => his.1 (heq ▸ hj)
        simp [openCall_done, hne]
      have hcalls : ((d.step (.toolCallDone i)).calls.map fun c =>
          { c with live := c.live && decide (c.index ∉ is) }) =
          d.calls.map fun c => { c with live := c.live && decide (c.index ∉ i :: is) } := by
        rw [step, List.map_map]
        apply List.map_congr_left
        intro c _
        rcases c with ⟨index, call, live⟩
        by_cases hi : index = i <;> simp [DraftCall.finish, hi]
      rw [hrest, hcalls]
      cases hc : d.openCall i <;> simp [step, hc]

/-- With distinct indices every open call is found. -/
theorem Assembles.openCall_of_mem {fs : List Value} {started : List Nat} {d : Draft}
    (h : Assembles fs started d) {c : DraftCall} (hc : c ∈ d.calls) :
    d.openCall c.index = some c.call := by
  cases hfind : d.calls.find? fun c' => decide (c'.index = c.index) && c'.live with
  | none =>
      have := List.find?_eq_none.1 hfind c hc
      simp [h.live c hc] at this
  | some c' =>
      have hi : c'.index = c.index ∧ c'.live = true := by simpa using List.find?_some hfind
      have hnd : (d.calls.map DraftCall.index).Nodup := by
        rw [h.started_eq]
        exact h.nodup
      have heq : c' = c :=
        List.inj_on_of_nodup_map hnd (List.mem_of_find?_eq_some hfind) hc hi.1
      rw [openCall, hfind, heq]
      rfl

/-- Without fragments there are no calls. -/
theorem Assembles.calls_eq_nil {started : List Nat} {d : Draft} (h : Assembles [] started d) :
    d.calls = [] := by
  apply List.eq_nil_iff_forall_not_mem.2
  intro c hc
  have := h.openCall_of_mem hc
  rw [← h.call] at this
  cases this

/-- The draft in which the calls that the fragments make up have been closed, in
index order. -/
structure Closes (fs : List Value) (started : List Nat) (d : Draft) : Prop where
  started_eq : d.calls.map DraftCall.index = started
  nodup : started.Nodup
  dead : ∀ c ∈ d.calls, c.live = false
  call : ∀ c ∈ d.calls, callAt c.index fs = some c.call
  iff_started : ∀ i, (callAt i fs).isSome ↔ i ∈ started
  closed_eq : d.closed = (started.insertionSort (· ≤ ·)).filterMap fun i => callAt i fs

/-- The finish reason. -/
theorem Assembles.finish {fs : List Value} {started : List Nat} {d : Draft}
    (h : Assembles fs started d) (ho : d.opened = true) (hclosed : d.closed = []) :
    d.Orderly ((started.insertionSort (· ≤ ·)).map CanonicalEvent.toolCallDone) ∧
      Closes fs started (d.after ((started.insertionSort (· ≤ ·)).map CanonicalEvent.toolCallDone)) ∧
      SameTexts d (d.after ((started.insertionSort (· ≤ ·)).map CanonicalEvent.toolCallDone)) := by
  -- the calls are finished by index, each once
  have hnd : (started.insertionSort (· ≤ ·)).Nodup :=
    ((List.perm_insertionSort (· ≤ ·) started).nodup_iff).2 h.nodup
  obtain ⟨h1, h2⟩ := after_dones hnd ho
  refine ⟨h1, ?_, by rw [h2]; exact SameTexts.refl d⟩
  rw [h2]
  constructor
  · simpa [Function.comp_def] using h.started_eq
  · exact h.nodup
  · intro _ hmem
    obtain ⟨c, hc, rfl⟩ := List.mem_map.1 hmem
    have : c.index ∈ started := by
      rw [← h.started_eq]
      exact List.mem_map_of_mem hc
    simp [this]
  · intro _ hmem
    obtain ⟨c, hc, rfl⟩ := List.mem_map.1 hmem
    rw [h.call, ← h.openCall_of_mem hc]
  · intro i
    rw [h.call, openCall_isSome_iff h.live, h.started_eq]
  · rw [hclosed, List.nil_append]
    exact List.filterMap_congr fun i _ => (h.call i).symm

end Draft

end AiApiBridge
