import AiApiBridge.AssembledCalls

/-!
# The chunks of a fragmentation

The stream translator of `wire/chat.rs` on the chunks of a fragmented message: its
events are orderly and add up to the draft of the message (`orderly_streamEvents`). The
calls are in the order of the message when they start in the order of their indices.
-/

set_option autoImplicit false

namespace AiApiBridge

open Chat ChatStreamParser
open TreeMaps (filterMap_getElem?_range)

/-! ## The chunks of a fragmentation -/

/-- Whether a chunk carries something of a phase. -/
def Carried (c : Value) : Phase → Prop
  | .reasoning => (chunkReasoning c).isSome
  | .content => (chunkContent c).isSome
  | .call => chunkFragments c ≠ []
  | .finish => finishes c = true

theorem mem_chunkPhases (c : Value) (a : Phase) : a ∈ chunkPhases c ↔ Carried c a := by
  cases hr : chunkReasoning c <;> cases hc : chunkContent c <;> cases hf : chunkFragments c <;>
    by_cases hfin : finishes c <;> cases a <;>
    simp [chunkPhases, Carried, hr, hc, hf, hfin]

/-- What cannot have come in chunks whose phases are bounded. -/
theorem absent_of_rank_le {cs : List Value} {n : Nat}
    (h : ∀ a ∈ cs.flatMap chunkPhases, a.rank ≤ n) :
    (n < 1 → cs.filterMap chunkContent = []) ∧ (n < 2 → streamFragments cs = []) ∧
      (n < 3 → cs.filter (fun c => finishes c) = []) := by
  -- a chunk that carried one of them would have its phase
  have hphase : ∀ c ∈ cs, ∀ a ∈ chunkPhases c, a.rank ≤ n := fun c hc a ha =>
    h a (List.mem_flatMap.2 ⟨c, hc, ha⟩)
  refine ⟨fun hn => ?_, fun hn => ?_, fun hn => ?_⟩
  · rw [List.filterMap_eq_nil_iff]
    intro c hc
    by_contra hne
    have := hphase c hc .content
      ((mem_chunkPhases c _).2 (Option.isSome_iff_ne_none.2 hne))
    simp only [Phase.rank] at this
    omega
  · rw [streamFragments, List.flatMap_eq_nil_iff]
    intro c hc
    by_contra hne
    have := hphase c hc .call ((mem_chunkPhases c _).2 hne)
    simp only [Phase.rank] at this
    omega
  · rw [List.filter_eq_nil_iff]
    intro c hc hfin
    have := hphase c hc .finish ((mem_chunkPhases c _).2 hfin)
    simp only [Phase.rank] at this
    omega

/-- What the parser and the draft know after the chunks `cs` of a fragmentation. -/
structure Streamed (responseId : String) (cs : List Value) (p : ChatStreamParser) (d : Draft) :
    Prop where
  parserId : p.responseId = responseId
  created : p.created = d.opened
  opened : d.opened = !cs.isEmpty
  responseId_eq : d.opened = true → d.responseId = responseId
  model_eq : d.opened = true → cs.head?.map (fun c => strOr c "model" "") = some d.model
  reasoning_eq : d.reasoning = String.join (cs.filterMap chunkReasoning)
  content_eq : d.content = String.join (cs.filterMap chunkContent)
  usage_eq : d.usage = (cs.filterMap chunkUsage).getLast?.map usageCounts
  unfinished : cs.filter (fun c => finishes c) = [] →
    Draft.Assembles (streamFragments cs) p.startedTools d ∧ d.closed = []
  finished : cs.filter (fun c => finishes c) ≠ [] →
    Draft.Closes (streamFragments cs) p.startedTools d

theorem streamed_nil (responseId : String) :
    Streamed responseId [] (new responseId) Draft.new where
  parserId := rfl
  created := rfl
  opened := rfl
  responseId_eq := by simp [Draft.new]
  model_eq := by simp [Draft.new]
  reasoning_eq := by simp [Draft.new]
  content_eq := by simp [Draft.new]
  usage_eq := by simp [Draft.new]
  unfinished := fun _ =>
    ⟨⟨rfl, List.nodup_nil, by simp [Draft.new], fun i => by simp [streamFragments, Draft.openCall,
      Draft.new]⟩, rfl⟩
  finished := by simp

/-- The draft of an opened response. -/
def openedDraft (responseId : String) (c : Value) (d : Draft) : Draft :=
  { d with
    opened := true
    responseId := responseId
    model := if d.opened then d.model else strOr c "model" "" }

/-- What opens the response. -/
theorem orderly_openingEvents {responseId : String} {cs : List Value} {p : ChatStreamParser}
    {d : Draft} (h : Streamed responseId cs p d) (c : Value) :
    d.Orderly (openingEvents p c) ∧ d.after (openingEvents p c) = openedDraft responseId c d := by
  by_cases ho : d.opened = true
  · have hid := h.responseId_eq ho
    rcases d with ⟨opened, rid, model, reasoning, content, calls, closed, usage⟩
    simp only at ho hid
    subst ho hid
    simp [openingEvents, openedDraft, h.created]
  · have ho : d.opened = false := by simpa using ho
    simp [openingEvents, openedDraft, h.created, ho, Draft.Allows, Draft.step, h.parserId]

/-- The model is that of the first chunk. -/
theorem Streamed.head_model {responseId : String} {cs : List Value} {p : ChatStreamParser}
    {d : Draft} (h : Streamed responseId cs p d) (c : Value) :
    (cs ++ [c]).head?.map (fun c => strOr c "model" "") =
      some (openedDraft responseId c d).model := by
  cases cs with
  | nil =>
      have ho : d.opened = false := h.opened
      simp [openedDraft, ho]
  | cons c' cs' =>
      have ho : d.opened = true := h.opened
      simpa [openedDraft, ho] using h.model_eq ho

/-- A piece of reasoning. -/
theorem orderly_reasoning {d : Draft} (ho : d.opened = true) {o : Option String}
    (hne : ∀ t, o = some t → t ≠ "" ∧ d.content = "" ∧ d.calls = []) :
    d.Orderly (o.map CanonicalEvent.reasoningDelta).toList ∧
      d.after (o.map CanonicalEvent.reasoningDelta).toList =
        { d with reasoning := d.reasoning ++ o.getD "" } := by
  cases o with
  | none => simp
  | some t => exact ⟨⟨⟨ho, hne t rfl⟩, trivial⟩, rfl⟩

/-- A piece of content. -/
theorem orderly_content {d : Draft} (ho : d.opened = true) {o : Option String}
    (hne : ∀ t, o = some t → t ≠ "" ∧ d.calls = []) :
    d.Orderly (o.map CanonicalEvent.textDelta).toList ∧
      d.after (o.map CanonicalEvent.textDelta).toList =
        { d with content := d.content ++ o.getD "" } := by
  cases o with
  | none => simp
  | some t => exact ⟨⟨⟨ho, hne t rfl⟩, trivial⟩, rfl⟩

/-- A usage object. -/
theorem orderly_usage {d : Draft} (ho : d.opened = true) (o : Option Value) :
    d.Orderly (o.map usageEvent).toList ∧
      d.after (o.map usageEvent).toList = { d with usage := (o.map usageCounts).or d.usage } := by
  cases o with
  | none => simp
  | some u => exact ⟨⟨ho, trivial⟩, rfl⟩

theorem getLast?_filterMap_snoc (f : Value → Option Value) (cs : List Value) (c : Value) :
    ((cs ++ [c]).filterMap f).getLast? = (f c).or (cs.filterMap f).getLast? := by
  cases hf : f c <;> simp [hf]

/-- What the order of phases says about the next chunk. -/
theorem absent_before {cs : List Value} {c : Value}
    (hord : ((cs ++ [c]).flatMap chunkPhases).Pairwise fun a b => a.rank ≤ b.rank) {b : Phase}
    (hb : Carried c b) :
    (b.rank < 1 → cs.filterMap chunkContent = []) ∧ (b.rank < 2 → streamFragments cs = []) ∧
      (b.rank < 3 → cs.filter (fun c => finishes c) = []) := by
  rw [List.flatMap_append, List.pairwise_append] at hord
  refine absent_of_rank_le fun a ha => hord.2.2 a ha b ?_
  simpa using (mem_chunkPhases c b).2 hb

/-- The texts of a chunk whose choice is still open. -/
theorem Streamed.texts {responseId : String} {cs : List Value} {p : ChatStreamParser} {d : Draft}
    (h : Streamed responseId cs p d) {c : Value}
    (hord : ((cs ++ [c]).flatMap chunkPhases).Pairwise fun a b => a.rank ≤ b.rank)
    (hasm : Draft.Assembles (streamFragments cs) p.startedTools d) :
    (openedDraft responseId c d).Orderly
        (((chunkReasoning c).map CanonicalEvent.reasoningDelta).toList ++
          ((chunkContent c).map CanonicalEvent.textDelta).toList) ∧
      (openedDraft responseId c d).after
        (((chunkReasoning c).map CanonicalEvent.reasoningDelta).toList ++
          ((chunkContent c).map CanonicalEvent.textDelta).toList) =
        { openedDraft responseId c d with
          reasoning := d.reasoning ++ (chunkReasoning c).getD ""
          content := d.content ++ (chunkContent c).getD "" } := by
  -- texts are allowed as long as no call has begun
  have hnocalls : streamFragments cs = [] → (openedDraft responseId c d).calls = [] := by
    intro hfs
    rw [hfs] at hasm
    exact hasm.calls_eq_nil
  obtain ⟨ho1, ha1⟩ := orderly_reasoning (d := openedDraft responseId c d) rfl
    (o := chunkReasoning c) (by
      intro t ht
      obtain ⟨h1, h2, -⟩ := absent_before hord (b := .reasoning) (by simp [Carried, ht])
      refine ⟨chunkReasoning_ne_empty ht, ?_, hnocalls (h2 (by decide))⟩
      rw [openedDraft, h.content_eq, h1 (by decide)]
      rfl)
  rw [Draft.orderly_append, Draft.after_append, ha1]
  obtain ⟨ho2, ha2⟩ := orderly_content (d := { openedDraft responseId c d with
      reasoning := (openedDraft responseId c d).reasoning ++ (chunkReasoning c).getD "" }) rfl
    (o := chunkContent c) (by
      intro t ht
      obtain ⟨-, h2, -⟩ := absent_before hord (b := .content) (by simp [Carried, ht])
      exact ⟨chunkContent_ne_empty ht, hnocalls (h2 (by decide))⟩)
  exact ⟨⟨ho1, ho2⟩, ha2⟩

/-- The finish reason of a chunk, or none. -/
theorem Draft.Assembles.finishEvents {fs : List Value} {started : List Nat} {d : Draft}
    (h : Draft.Assembles fs started d) (ho : d.opened = true) (hclosed : d.closed = [])
    (c : Value) :
    d.Orderly (finishEvents started c) ∧ Draft.SameTexts d (d.after (finishEvents started c)) ∧
      (finishes c = false → d.after (finishEvents started c) = d) ∧
      (finishes c = true → Draft.Closes fs started (d.after (finishEvents started c))) := by
  rw [ChatStreamParser.finishEvents]
  by_cases hf : finishes c = true
  · obtain ⟨h1, h2, h3⟩ := h.finish ho hclosed
    simp only [hf, if_true]
    exact ⟨h1, h3, by simp, fun _ => h2⟩
  · simp only [hf]
    exact ⟨trivial, Draft.SameTexts.refl d, fun _ => rfl, fun h => absurd h (by simp)⟩

/-- A chunk before the choice has ended. -/
theorem Streamed.chunk_unfinished {responseId : String} {cs : List Value} {p : ChatStreamParser}
    {d : Draft} (h : Streamed responseId cs p d) {c : Value} (hc : NoError c)
    (hidx : ∀ f ∈ chunkFragments c, ∃ n, carriedIndex f = some n ∧ n < 2 ^ 32)
    (hord : ((cs ++ [c]).flatMap chunkPhases).Pairwise fun a b => a.rank ≤ b.rank)
    (hfin : cs.filter (fun c => finishes c) = []) :
    d.Orderly (p.onChunk c).2 ∧
      Streamed responseId (cs ++ [c]) (p.onChunk c).1 (d.after (p.onChunk c).2) := by
  obtain ⟨hasm, hclosed⟩ := h.unfinished hfin
  obtain ⟨ho0, ha0⟩ := orderly_openingEvents h c
  obtain ⟨ho1, ha1⟩ := h.texts hord hasm
  rw [onChunk_eq p hc]
  simp only [Draft.orderly_append, Draft.after_append, ha0] at ho1 ha1 ⊢
  rw [ha1]
  generalize hd2 : ({ openedDraft responseId c d with
    reasoning := d.reasoning ++ (chunkReasoning c).getD ""
    content := d.content ++ (chunkContent c).getD "" } : Draft) = d2
  have hopened2 : d2.opened = true := by rw [← hd2]; rfl
  have hclosed2 : d2.closed = [] := by rw [← hd2]; exact hclosed
  have hasm2 : Draft.Assembles (streamFragments cs) p.startedTools d2 := by
    rw [← hd2]
    exact ⟨hasm.1, hasm.2, hasm.3, hasm.4⟩
  -- the fragments
  obtain ⟨ho3, hasm3, hsame3, hclosed3⟩ := hasm2.fragments hopened2 hidx
  have hfrags : streamFragments cs ++ chunkFragments c = streamFragments (cs ++ [c]) := by
    simp [streamFragments]
  rw [hfrags] at hasm3
  simp only [fragmentRun]
  generalize d2.after (Transducer.run onFragment p.startedTools (chunkFragments c)).2 = d3
    at hasm3 hsame3 hclosed3
  -- the finish reason, or none
  obtain ⟨ho4, hsame4, hopen4, hclose4⟩ :=
    hasm3.finishEvents (hsame3.1.trans hopened2) (hclosed3.trans hclosed2) c
  generalize d3.after
    (finishEvents (Transducer.run onFragment p.startedTools (chunkFragments c)).1 c) = d4
    at hsame4 hopen4 hclose4
  obtain ⟨s1, s2, s3, s4, s5, s6⟩ := hsame3.trans hsame4
  have hopened4 : d4.opened = true := s1.trans hopened2
  obtain ⟨ho5, ha5⟩ := orderly_usage hopened4 (chunkUsage c)
  rw [ha5]
  refine ⟨⟨⟨⟨⟨⟨ho0, ho1.1⟩, ho1.2⟩, ho3⟩, ho4⟩, ho5⟩, ?_⟩
  have hnext : (cs ++ [c]).filter (fun c => finishes c) = [] ↔ finishes c = false := by
    simp [List.filter_append, hfin]
  refine ⟨h.parserId, hopened4.symm, by simp [hopened4], fun _ => ?_, fun _ => ?_, ?_, ?_, ?_,
    fun hn => ?_, fun hn => ?_⟩
  · rw [s2, ← hd2]
    rfl
  · rw [h.head_model c, s3, ← hd2]
  · rw [join_filterMap_snoc, ← h.reasoning_eq, s4, ← hd2]
  · rw [join_filterMap_snoc, ← h.content_eq, s5, ← hd2]
  · have husage : d2.usage = d.usage := by rw [← hd2]; rfl
    rw [getLast?_filterMap_snoc, s6, husage, h.usage_eq]
    cases chunkUsage c <;> simp
  · have hd4 := hopen4 (hnext.1 hn)
    subst hd4
    exact ⟨⟨hasm3.1, hasm3.2, hasm3.3, hasm3.4⟩, hclosed3.trans hclosed2⟩
  · have hf : finishes c = true := by
      by_contra hf
      exact hn (hnext.2 (by simpa using hf))
    obtain ⟨h1, h2, h3, h4, h5, h6⟩ := hclose4 hf
    exact ⟨h1, h2, h3, h4, h5, h6⟩

/-- What a chunk carries once the choice has ended: nothing but a usage object. -/
theorem empty_of_finished {cs : List Value} {c : Value}
    (hord : ((cs ++ [c]).flatMap chunkPhases).Pairwise fun a b => a.rank ≤ b.rank)
    (hsingle : ((cs ++ [c]).filter fun c => finishes c).length ≤ 1)
    (hfin : cs.filter (fun c => finishes c) ≠ []) :
    chunkReasoning c = none ∧ chunkContent c = none ∧ chunkFragments c = [] ∧
      finishes c = false := by
  have hnone : ∀ b, b.rank < 3 → ¬ Carried c b := fun b hb hcar =>
    hfin ((absent_before hord hcar).2.2 hb)
  refine ⟨?_, ?_, ?_, ?_⟩
  · simpa [Carried] using hnone .reasoning (by decide)
  · simpa [Carried] using hnone .content (by decide)
  · simpa [Carried] using hnone .call (by decide)
  · -- a second finish reason would be one too many
    by_contra hf
    have hpos : 0 < (cs.filter fun c => finishes c).length := List.length_pos_of_ne_nil hfin
    have hf : finishes c = true := by simpa using hf
    simp only [List.filter_append, List.length_append, List.filter_cons, hf, if_true,
      List.filter_nil, List.length_cons, List.length_nil] at hsingle
    omega

/-- A chunk after the choice has ended. -/
theorem Streamed.chunk_finished {responseId : String} {cs : List Value} {p : ChatStreamParser}
    {d : Draft} (h : Streamed responseId cs p d) {c : Value} (hc : NoError c)
    (hord : ((cs ++ [c]).flatMap chunkPhases).Pairwise fun a b => a.rank ≤ b.rank)
    (hsingle : ((cs ++ [c]).filter fun c => finishes c).length ≤ 1)
    (hfin : cs.filter (fun c => finishes c) ≠ []) :
    d.Orderly (p.onChunk c).2 ∧
      Streamed responseId (cs ++ [c]) (p.onChunk c).1 (d.after (p.onChunk c).2) := by
  -- behind the finish reason only usage is left to come
  obtain ⟨hr, hco, hfr, hnf⟩ := empty_of_finished hord hsingle hfin
  obtain ⟨ho0, ha0⟩ := orderly_openingEvents h c
  have hmodel := h.head_model c
  have hrun : fragmentRun p.startedTools c = (p.startedTools, []) := by
    simp [fragmentRun, hfr]
  have hfe : finishEvents p.startedTools c = [] := by simp [finishEvents, hnf]
  rw [onChunk_eq p hc]
  simp only [Draft.orderly_append, Draft.after_append, ha0, hr, hco, hrun, hfe, Option.map_none,
    Option.toList_none, Draft.after_nil, Draft.orderly_nil, and_true]
  have hopened : (openedDraft responseId c d).opened = true := rfl
  obtain ⟨ho5, ha5⟩ := orderly_usage hopened (chunkUsage c)
  rw [ha5]
  have hfrags : streamFragments (cs ++ [c]) = streamFragments cs := by
    simp [streamFragments, hfr]
  refine ⟨⟨ho0, ho5⟩, ⟨h.parserId, rfl, by simp [openedDraft], fun _ => rfl, fun _ => hmodel,
    ?_, ?_, ?_, fun hn => ?_, fun _ => ?_⟩⟩
  · simp [hr, openedDraft, h.reasoning_eq]
  · simp [hco, openedDraft, h.content_eq]
  · have husage : (openedDraft responseId c d).usage = d.usage := rfl
    rw [getLast?_filterMap_snoc, husage, h.usage_eq]
    cases chunkUsage c <;> simp
  · exact absurd (by simpa [List.filter_append, hnf] using hn) hfin
  · rw [hfrags]
    obtain ⟨h1, h2, h3, h4, h5, h6⟩ := h.finished hfin
    exact ⟨h1, h2, h3, h4, h5, h6⟩

/-- **One chunk of a fragmentation.** -/
theorem Streamed.chunk {responseId : String} {cs : List Value} {p : ChatStreamParser} {d : Draft}
    (h : Streamed responseId cs p d) {c : Value} (hc : NoError c)
    (hidx : ∀ f ∈ chunkFragments c, ∃ n, carriedIndex f = some n ∧ n < 2 ^ 32)
    (hord : ((cs ++ [c]).flatMap chunkPhases).Pairwise fun a b => a.rank ≤ b.rank)
    (hsingle : ((cs ++ [c]).filter fun c => finishes c).length ≤ 1) :
    d.Orderly (p.onChunk c).2 ∧
      Streamed responseId (cs ++ [c]) (p.onChunk c).1 (d.after (p.onChunk c).2) := by
  by_cases hfin : cs.filter (fun c => finishes c) = []
  · exact h.chunk_unfinished hc hidx hord hfin
  · exact h.chunk_finished hc hord hsingle hfin

/-- The chunks of a fragmentation, and of every beginning of one. -/
theorem streamed_run (responseId : String) {cs : List Value} (hc : ∀ c ∈ cs, NoError c)
    (hidx : ∀ f ∈ streamFragments cs, ∃ n, carriedIndex f = some n ∧ n < 2 ^ 32)
    (hord : (cs.flatMap chunkPhases).Pairwise fun a b => a.rank ≤ b.rank)
    (hsingle : (cs.filter fun c => finishes c).length ≤ 1) :
    Draft.new.Orderly (Transducer.run onChunk (new responseId) cs).2 ∧
      Streamed responseId cs (Transducer.run onChunk (new responseId) cs).1
        (Draft.new.after (Transducer.run onChunk (new responseId) cs).2) := by
  induction cs using List.reverseRecOn with
  | nil => exact ⟨trivial, streamed_nil responseId⟩
  | append_singleton cs c ih =>
      have hidx' : ∀ f ∈ streamFragments cs, ∃ n, carriedIndex f = some n ∧ n < 2 ^ 32 := by
        intro f hf
        exact hidx f (by simp only [streamFragments, List.flatMap_append, List.mem_append] at hf ⊢
                         exact Or.inl hf)
      have hlast : ∀ f ∈ chunkFragments c, ∃ n, carriedIndex f = some n ∧ n < 2 ^ 32 := by
        intro f hf
        exact hidx f (by simp [streamFragments, hf])
      -- what holds of the whole stream holds of the chunks before the last
      have hord' := hord
      rw [List.flatMap_append, List.pairwise_append] at hord'
      have hsingle' : (cs.filter fun c => finishes c).length ≤ 1 := by
        rw [List.filter_append, List.length_append] at hsingle
        omega
      obtain ⟨h1, h2⟩ := ih (fun c' h => hc c' (by simp [h])) hidx' hord'.1 hsingle'
      obtain ⟨h3, h4⟩ := h2.chunk (hc c (by simp)) hlast hord hsingle
      rw [Transducer.run_append, Transducer.run_singleton, Draft.orderly_append, Draft.after_append]
      exact ⟨⟨h1, h3⟩, h4⟩

/-- A list of distinct indices below a bound, all of them, is sorted into a range. -/
theorem insertionSort_eq_range {l : List Nat} {k : Nat} (hnd : l.Nodup) (h : ∀ i, i ∈ l ↔ i < k) :
    l.insertionSort (· ≤ ·) = List.range k := by
  refine List.Perm.eq_of_pairwise' (r := (· ≤ ·)) (List.pairwise_insertionSort (· ≤ ·) l) ?_ ?_
  · exact List.pairwise_lt_range.imp Nat.le_of_lt
  · apply (List.perm_insertionSort (· ≤ ·) l).trans
    apply (List.perm_ext_iff_of_nodup hnd List.nodup_range).2
    intro i
    rw [h i, List.mem_range]

/-- The indices of a stream in the order of their first fragments. -/
def startOrder (chunks : List Value) : List Nat := CallAtom.occurring (callWord chunks)

theorem startedTools_run (responseId : String) {cs : List Value} (hc : ∀ c ∈ cs, NoError c)
    (hidx : ∀ f ∈ streamFragments cs, ∃ n, carriedIndex f = some n ∧ n < 2 ^ 32) :
    (Transducer.run onChunk (new responseId) cs).1.startedTools = startOrder cs := by
  -- within one chunk the parser notes the indices as the log of its fragments does
  have hfrags : ∀ (fs : List Value) (seen : List Nat),
      (∀ f ∈ fs, ∃ n, carriedIndex f = some n ∧ n < 2 ^ 32) →
      (fs.map fragmentIndex).foldl startIndex seen =
        (fs.map fragmentAtom).foldl CallAtom.noteIndex seen := by
    intro fs
    induction fs with
    | nil => intro _ _; rfl
    | cons f fs ih =>
        intro seen h
        obtain ⟨n, hn, hlt⟩ := h f (by simp)
        rw [List.map_cons, List.map_cons, List.foldl_cons, List.foldl_cons,
          ih _ fun g hg => h g (by simp [hg]), fragmentIndex_of_carriedIndex hn hlt]
        simp [fragmentAtom, hn, CallAtom.noteIndex, startIndex]
  induction cs using List.reverseRecOn with
  | nil => rfl
  | append_singleton cs c ih =>
      have hprev : ∀ f ∈ streamFragments cs, ∃ n, carriedIndex f = some n ∧ n < 2 ^ 32 := by
        intro f hf
        apply hidx f
        simp only [streamFragments, List.flatMap_append, List.mem_append] at hf ⊢
        exact Or.inl hf
      have hlast : ∀ f ∈ chunkFragments c, ∃ n, carriedIndex f = some n ∧ n < 2 ^ 32 := fun f hf =>
        hidx f (by simp [streamFragments, hf])
      rw [Transducer.run_append, Transducer.run_singleton, onChunk_eq _ (hc c (by simp)),
        fragmentRun_fst, ih (fun c' h => hc c' (by simp [h])) hprev, hfrags _ _ hlast, startOrder,
        startOrder, callWord, callWord, List.flatMap_append, CallAtom.occurring, CallAtom.occurring,
        List.foldl_append]
      -- the end of all calls starts none
      by_cases hf : finishes c <;> simp [callAtoms, hf, CallAtom.noteIndex]

/-- An index that occurs in the fragments of a completion is the index of a call, so
it fits. -/
theorem Fragments.index_lt {chunks : List Value} {m : Completion} (h : Fragments chunks m)
    (hlen : m.calls.length ≤ 2 ^ 32) :
    ∀ f ∈ streamFragments chunks, ∃ n, carriedIndex f = some n ∧ n < 2 ^ 32 := by
  intro f hf
  obtain ⟨n, hn⟩ := Option.isSome_iff_exists.1 (h.indexed f hf)
  refine ⟨n, hn, ?_⟩
  have hsome : (callAt n (streamFragments chunks)).isSome := by
    rw [callAt]
    cases hfil : (streamFragments chunks).filter fun f => carriedIndex f = some n with
    | nil =>
        have := List.filter_eq_nil_iff.1 hfil f hf
        simp [hn] at this
    | cons => rfl
  rw [h.calls n, Option.isSome_iff_ne_none, ne_eq, List.getElem?_eq_none_iff, Nat.not_le] at hsome
  omega

/-- **The events of a fragmentation are orderly and add up to the message.** When
the calls start in index order the draft holds them in that order. -/
theorem orderly_streamEvents (responseId : String) {chunks : List Value} {m : Completion}
    (h : Fragments chunks m) (hlen : m.calls.length ≤ 2 ^ 32) :
    Draft.new.Orderly (Transducer.run onChunk (new responseId) chunks).2 ∧
      Drafted responseId m
        (Draft.new.after (Transducer.run onChunk (new responseId) chunks).2) ∧
      ((startOrder chunks).Pairwise (· < ·) →
        (Draft.new.after (Transducer.run onChunk (new responseId) chunks).2).calls.map
          DraftCall.call = m.calls) := by
  have hidx := h.index_lt hlen
  obtain ⟨horder, hst⟩ := streamed_run responseId h.noError hidx h.ordered (Nat.le_of_eq h.single)
  have hstarted := startedTools_run responseId h.noError hidx
  refine ⟨horder, ?_⟩
  generalize Draft.new.after (Transducer.run onChunk (new responseId) chunks).2 = d at hst
  have hne : chunks ≠ [] := by
    rintro rfl
    simpa using h.first
  have hopened : d.opened = true := by
    rw [hst.opened]
    simpa using hne
  have hfin : chunks.filter (fun c => finishes c) ≠ [] := by
    intro heq
    have := h.single
    rw [heq] at this
    cases this
  obtain ⟨hidxs, hnodup, hdead, hcall, hiff, hclosed⟩ := hst.finished hfin
  -- the indices that have been started are those of the calls
  have hmem : ∀ i, i ∈ (Transducer.run onChunk (new responseId) chunks).1.startedTools ↔
      i < m.calls.length := by
    intro i
    rw [← hiff, h.calls i, Option.isSome_iff_ne_none, ne_eq, List.getElem?_eq_none_iff, Nat.not_le]
  refine ⟨⟨hopened, hst.responseId_eq hopened, ?_, ?_, ?_, hdead, ?_, ?_⟩, ?_⟩
  · have := hst.model_eq hopened
    rw [h.first] at this
    exact (Option.some.inj this).symm
  · rw [hst.reasoning_eq, h.reasoning]
  · rw [hst.content_eq, h.content]
  · rw [hclosed, insertionSort_eq_range hnodup hmem]
    refine (List.filterMap_congr fun i _ => h.calls i).trans (filterMap_getElem?_range m.calls)
  · rw [hst.usage_eq, h.usage]
  · intro hinc
    rw [← hstarted] at hinc
    -- started in order, they are the numbers below the count
    have hrange : (Transducer.run onChunk (new responseId) chunks).1.startedTools =
        List.range m.calls.length :=
      TreeMaps.eq_range_of_pairwise hinc hmem
    have hcalls : (d.calls.map DraftCall.call).map some =
        (List.range m.calls.length).map fun i => m.calls[i]? := by
      rw [← hrange, ← hidxs, List.map_map, List.map_map]
      apply List.map_congr_left
      intro c hc
      rw [Function.comp_apply, Function.comp_apply, ← h.calls, hcall c hc]
    have := congrArg (List.filterMap id) hcalls
    rw [List.filterMap_map, List.filterMap_map] at this
    simpa [Function.comp_def, filterMap_getElem?_range] using this

/-! ## Many calls

Both translators narrow the index of a call to 32 bits. With one call more than
there are such indices, the last fragment counts as one of the first call. -/

/-- The fragment that starts the `i`-th of many calls. -/
def manyFragment (i : Nat) : Value :=
  .object [("index", .ofNat i), ("id", .string "c"), ("function", .object [("name", .string "f")])]

/-- A response with `n` calls. -/
def manyCalls (n : Nat) : Value :=
  .object [("choices", .array [.object [("message", .object [("tool_calls",
    .array ((List.range n).map manyFragment))])]])]

/-- The same in chunks: all the calls, then the finish reason. -/
def manyChunks (n : Nat) : List Value :=
  [deltaChunk [("tool_calls", .array ((List.range n).map manyFragment))],
    .object [("choices", .array [.object [("finish_reason", .string "tool_calls")]])]]

theorem completionOf_manyCalls (n : Nat) :
    completionOf (manyCalls n) = ⟨"", "", "", List.replicate n ⟨"c", "f", ""⟩, none⟩ := by
  have hcall : wholeCall ∘ manyFragment = fun _ => ⟨"c", "f", ""⟩ := by
    funext i
    simp [wholeCall, manyFragment, strOr, functionStr]
  simp [completionOf, manyCalls, messageOf, firstChoice, strOr, chunkUsage, nonNull,
    reasoningText, nonEmptyStr, toolCallsOf, hcall]

/-- What the two chunks say. -/
theorem reading_manyFragments (n : Nat) :
    let c := deltaChunk [("tool_calls", .array ((List.range n).map manyFragment))]
    chunkReasoning c = none ∧ chunkContent c = none ∧
      chunkFragments c = (List.range n).map manyFragment ∧ finishes c = false ∧
      chunkUsage c = none := by
  simp [chunkReasoning, chunkContent, chunkFragments, finishes, chunkUsage, chunkDelta, firstChoice,
    deltaChunk, reasoningText, nonEmptyStr, nonNull]

theorem callAt_manyFragments (n i : Nat) (hi : i < n) :
    callAt i ((List.range n).map manyFragment) = some ⟨"c", "f", ""⟩ := by
  have hsel : (fun f => decide (carriedIndex f = some i)) ∘ manyFragment = fun j => decide (j = i) := by
    funext j
    simp [carriedIndex, manyFragment]
  have hone : (List.range n).filter (fun j => decide (j = i)) = [i] := by
    rw [List.filter_eq, List.count_eq_one_of_mem List.nodup_range (List.mem_range.2 hi)]
    rfl
  rw [callAt, List.filter_map, hsel, hone]
  simp [manyFragment, strOr, functionStr, fragmentArgs, nonEmptyStr]

theorem streamFragments_manyChunks (n : Nat) :
    streamFragments (manyChunks n) = (List.range n).map manyFragment := by
  simp [streamFragments, manyChunks, chunkFragments, chunkDelta, firstChoice, deltaChunk]

theorem fragments_manyChunks (n : Nat) : Fragments (manyChunks n) (completionOf (manyCalls n)) := by
  obtain ⟨hr, hc, hf, hfin, hu⟩ := reading_manyFragments n
  rw [completionOf_manyCalls]
  constructor
  · intro c hc
    simp only [manyChunks, List.mem_cons, List.not_mem_nil, or_false] at hc
    rcases hc with rfl | rfl <;> simp [NoError, nonNull, deltaChunk]
  · simp [manyChunks, deltaChunk, strOr]
  · -- the calls come in one chunk, and the end in the other
    have hphases : (manyChunks n).flatMap chunkPhases =
        (List.range n).map (fun _ => Phase.call) ++ [.finish] := by
      simp [manyChunks, chunkPhases, hr, hc, hf, hfin, List.map_map, Function.comp_def]
      decide
    rw [hphases, List.pairwise_append]
    refine ⟨List.pairwise_map.2 (List.pairwise_of_forall fun _ _ => Nat.le_refl _), by simp, ?_⟩
    intro a ha b hb
    obtain ⟨_, _, rfl⟩ := List.mem_map.1 ha
    rw [List.mem_singleton.1 hb]
    decide
  · simp [manyChunks, hfin]
    decide
  · simp [manyChunks, hr]
    decide
  · simp [manyChunks, hc]
    decide
  · intro f hf
    rw [streamFragments_manyChunks] at hf
    obtain ⟨i, -, rfl⟩ := List.mem_map.1 hf
    rfl
  · rw [streamFragments_manyChunks]
    -- each index has one fragment, and no fragment has an index beyond
    refine callAt_eq_getElem? (fun i hi => ?_) fun f hf => ?_
    · rw [List.length_replicate] at hi
      rw [callAt_manyFragments n i hi, List.getElem?_replicate, if_pos hi]
    · obtain ⟨i, hi, rfl⟩ := List.mem_map.1 hf
      simpa [carriedIndex, manyFragment] using hi
  · simp [manyChunks, hu]
    decide

theorem mem_foldl_startIndex {is : List Nat} {started : List Nat} {i : Nat}
    (h : i ∈ started ∨ i ∈ is) : i ∈ is.foldl startIndex started := by
  induction is generalizing started with
  | nil => simpa using h
  | cons j is ih =>
      apply ih
      rcases h with h | h
      · left
        rw [startIndex]
        split
        · exact h
        · exact List.mem_append_left _ h
      · rcases List.mem_cons.1 h with rfl | h
        · left
          rw [startIndex]
          split
          · assumption
          · simp
        · exact Or.inr h

/-- A fragment whose index has wrapped to 0 says nothing new. -/
theorem streamEvents_manyChunks_succ (responseId : String) {n : Nat} (hn : 0 < n)
    (hwrap : asU32 n = 0) :
    streamEvents responseId (manyChunks (n + 1)) = streamEvents responseId (manyChunks n) := by
  -- the last index wraps around to that of the first call, which has been started
  have hrun : (Transducer.run onFragment [] ((List.range (n + 1)).map manyFragment)) =
      Transducer.run onFragment [] ((List.range n).map manyFragment) := by
    rw [List.range_succ, List.map_append, Transducer.run_append, List.map_singleton,
      Transducer.run_singleton]
    have hidx : fragmentIndex (manyFragment n) = 0 := by
      simpa [fragmentIndex, manyFragment] using hwrap
    have hargs : fragmentArgs (manyFragment n) = none := by
      simp [fragmentArgs, manyFragment, nonEmptyStr]
    have hmem : 0 ∈ (Transducer.run onFragment [] ((List.range n).map manyFragment)).1 := by
      have hfst := fragmentRun_fst []
        (deltaChunk [("tool_calls", .array ((List.range n).map manyFragment))])
      rw [fragmentRun, (reading_manyFragments n).2.2.1] at hfst
      rw [hfst]
      refine mem_foldl_startIndex (Or.inr (List.mem_map.2 ⟨manyFragment 0, ?_, by decide⟩))
      exact List.mem_map_of_mem (List.mem_range.2 hn)
    rw [onFragment_eq, hidx, hargs]
    simp [hmem, startIndex]
  have hchunk : ∀ k, onChunk (new responseId)
      (deltaChunk [("tool_calls", .array ((List.range k).map manyFragment))]) =
        (let r := Transducer.run onFragment [] ((List.range k).map manyFragment)
        (⟨responseId, "", true, r.1⟩, .created responseId "" :: r.2)) := by
    intro k
    obtain ⟨hr, hc, hf, hfin, hu⟩ := reading_manyFragments k
    have hmodel : strOr (deltaChunk [("tool_calls", .array ((List.range k).map manyFragment))])
        "model" "" = "" := by
      simp [strOr, deltaChunk]
    rw [onChunk_eq _ (by simp [NoError, nonNull, deltaChunk])]
    simp [new, openingEvents, hr, hc, fragmentRun, hf, finishEvents, hfin, hu, hmodel]
  simp only [streamEvents, manyChunks, Transducer.run_cons, hchunk, hrun]

/-- The many calls start in index order. -/
theorem startOrder_manyChunks (n : Nat) : startOrder (manyChunks n) = List.range n := by
  obtain ⟨-, -, hf, hfin, -⟩ := reading_manyFragments n
  have hword : callWord (manyChunks n) =
      (List.range n).map (fun i => CallAtom.fragment i "") ++ [.finish] := by
    have hatom : fragmentAtom ∘ manyFragment = fun i => CallAtom.fragment i "" := by
      funext i
      simp [fragmentAtom, manyFragment, carriedIndex, fragmentArgs, nonEmptyStr]
    simp [callWord, manyChunks, callAtoms, hf, hfin, hatom]
    decide
  have hnotes : ∀ k, ((List.range k).map fun i => CallAtom.fragment i "").foldl
      CallAtom.noteIndex [] = List.range k := by
    intro k
    induction k with
    | zero => rfl
    | succ k ih =>
        rw [List.range_succ, List.map_append, List.foldl_append, ih]
        simp [CallAtom.noteIndex]
  rw [startOrder, CallAtom.occurring, hword, List.foldl_append, hnotes]
  rfl

end AiApiBridge
