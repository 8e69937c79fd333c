import AiApiBridge.Wire.ChunkReading
import AiApiBridge.Lib.CallLog

/-!
# Streams of chunks as streams of calls

The tool fragments and finish reasons of a stream of chunks form a word of call
atoms (`callWord`). Whatever follows the parser's tool events the way a call log
does (`FollowsCalls`) has, after the whole stream, the log that has read this
word (`FollowsCalls.chunks`). Both emitters do.
-/

set_option autoImplicit false

namespace AiApiBridge

open ChatStreamParser Chat

/-- The index a fragment carries. -/
def carriedIndex (f : Value) : Option Nat := (f.get "index").bind Value.asU64

/-- Every fragment of a chunk carries an index below 2^32. -/
def IndicesInRange (c : Value) : Prop :=
  ∀ f ∈ chunkFragments c, (carriedIndex f).any (fun n => n < 2 ^ 32) = true

instance (c : Value) : Decidable (IndicesInRange c) :=
  inferInstanceAs (Decidable (∀ f ∈ chunkFragments c, _))

theorem IndicesInRange.carried {c : Value} (h : IndicesInRange c) :
    ∀ f ∈ chunkFragments c, ∃ n, carriedIndex f = some n ∧ n < 2 ^ 32 := by
  intro f hf
  simpa [Option.any_eq_true] using h f hf

/-- A fragment as an atom. -/
def fragmentAtom (f : Value) : CallAtom :=
  .fragment ((carriedIndex f).getD 0) ((fragmentArgs f).getD "")

/-- The atoms of a chunk: its fragments, then its finish reason. -/
def callAtoms (c : Value) : List CallAtom :=
  (chunkFragments c).map fragmentAtom ++ if finishes c then [.finish] else []

/-- The atoms of a stream. -/
def callWord (chunks : List Value) : List CallAtom := chunks.flatMap callAtoms

theorem fragmentIndex_of_carriedIndex {f : Value} {n : Nat} (h : carriedIndex f = some n)
    (hn : n < 2 ^ 32) : fragmentIndex f = n := by
  rw [fragmentIndex, show (f.get "index").bind Value.asU64 = some n from h, Option.getD_some,
    asU32_of_lt hn]

/-- An event that concerns tool calls or ends the stream. -/
def ConcernsCalls : CanonicalEvent → Prop
  | .toolCallStart _ _ _ => True
  | .toolCallArgsDelta _ _ => True
  | .toolCallDone _ => True
  | .completed => True
  | _ => False

section Follows

variable {σ : Type} (step : Transducer.Step σ CanonicalEvent SseFrame)
  (R : σ → List SseFrame → List LoggedCall → Prop)

/-- An emitter that does to its log what the tool events say: other events leave
it alone, a start opens a call under some tag, an argument delta goes to the live
call, and a done event closes it. -/
structure FollowsCalls : Prop where
  other : ∀ s frames log ev, R s frames log → ¬ ConcernsCalls ev →
    R (step s ev).1 (frames ++ (step s ev).2) log
  start : ∀ s frames log i callId name, R s frames log → i ∉ log.map LoggedCall.index →
    ∃ tag, R (step s (.toolCallStart i callId name)).1
      (frames ++ (step s (.toolCallStart i callId name)).2) (log ++ [.fresh i tag])
  args : ∀ s frames log i delta, R s frames log →
    R (step s (.toolCallArgsDelta i delta)).1
      (frames ++ (step s (.toolCallArgsDelta i delta)).2) (log.map (LoggedCall.appendArgs i delta))
  done : ∀ s frames log i, R s frames log →
    R (step s (.toolCallDone i)).1 (frames ++ (step s (.toolCallDone i)).2)
      (log.map (LoggedCall.finish i))

variable {step R}

namespace FollowsCalls

variable (hf : FollowsCalls step R)

include hf

theorem others {evs : List CanonicalEvent} (h : ∀ ev ∈ evs, ¬ ConcernsCalls ev) {s : σ}
    {frames : List SseFrame} {log : List LoggedCall} (hR : R s frames log) :
    R (Transducer.run step s evs).1 (frames ++ (Transducer.run step s evs).2) log := by
  induction evs generalizing s frames with
  | nil => simpa using hR
  | cons ev evs ih =>
      rw [Transducer.run_cons, ← List.append_assoc]
      exact ih (fun ev' hev' => h ev' (by simp [hev'])) (hf.other s frames log ev hR (h ev (by simp)))

theorem dones (is : List Nat) {s : σ} {frames : List SseFrame} {log : List LoggedCall}
    (hR : R s frames log) :
    R (Transducer.run step s (is.map CanonicalEvent.toolCallDone)).1
      (frames ++ (Transducer.run step s (is.map CanonicalEvent.toolCallDone)).2)
      (log.map fun c => is.foldl (fun c i => c.finish i) c) := by
  induction is generalizing s frames log with
  | nil => simpa using hR
  | cons i is ih =>
      rw [List.map_cons, Transducer.run_cons, ← List.append_assoc]
      have := ih (hf.done s frames log i hR)
      rwa [List.map_map] at this

/-- One fragment. -/
theorem oneFragment {started : List Nat} {f : Value} {n : Nat} (hn : carriedIndex f = some n)
    (hlt : n < 2 ^ 32) {s : σ} {frames : List SseFrame} {w : List CallAtom}
    {log : List LoggedCall} (hR : R s frames log) (ht : Tracks w log)
    (hs : started = CallAtom.occurring w) :
    ∃ log', R (Transducer.run step s (onFragment started f).2).1
        (frames ++ (Transducer.run step s (onFragment started f).2).2) log' ∧
      Tracks (w ++ [fragmentAtom f]) log' ∧
      (onFragment started f).1 = CallAtom.occurring (w ++ [fragmentAtom f]) := by
  have hatom : fragmentAtom f = .fragment n ((fragmentArgs f).getD "") := by
    simp [fragmentAtom, hn]
  have hidx : fragmentIndex f = n := fragmentIndex_of_carriedIndex hn hlt
  have hstarted : n ∈ started ↔ n ∈ log.map LoggedCall.index := by rw [hs, ht.indices]
  -- the arguments reach the log, whether or not the call is new
  have happend : ∀ {s : σ} {frames : List SseFrame} {log : List LoggedCall}, R s frames log →
      R (Transducer.run step s
          ((fragmentArgs f).map (CanonicalEvent.toolCallArgsDelta n)).toList).1
        (frames ++ (Transducer.run step s
          ((fragmentArgs f).map (CanonicalEvent.toolCallArgsDelta n)).toList).2)
        (log.map (LoggedCall.appendArgs n ((fragmentArgs f).getD ""))) := by
    intro s frames log hR
    cases ha : fragmentArgs f with
    | some args => simpa using hf.args s frames log n args hR
    | none =>
        have hid : log.map (LoggedCall.appendArgs n "") = log := by
          refine (List.map_congr_left fun c _ => ?_).trans (List.map_id log)
          simp [LoggedCall.appendArgs]
        simpa [hid] using hR
  rw [hatom, onFragment_eq, hidx]
  by_cases hmem : n ∈ started
  · refine ⟨logFragment log 0 n ((fragmentArgs f).getD ""), ?_, ht.fragment 0 n _, ?_⟩
    · simpa [hmem, logFragment, hstarted.1 hmem] using happend hR
    · simp [startIndex, CallAtom.noteIndex, ← hs]
  · have hfresh : n ∉ log.map LoggedCall.index := fun h => hmem (hstarted.2 h)
    obtain ⟨tag, htag⟩ := hf.start s frames log n (strOr f "id" "")
      ((functionStr f "name").getD "") hR hfresh
    refine ⟨logFragment log tag n ((fragmentArgs f).getD ""), ?_, ht.fragment tag n _, ?_⟩
    · have := happend htag
      simpa [hmem, logFragment, hfresh, Transducer.run_cons] using this
    · simp [startIndex, CallAtom.noteIndex, ← hs]

/-- The fragments of a chunk. -/
theorem fragments {fs : List Value} (h : ∀ f ∈ fs, ∃ n, carriedIndex f = some n ∧ n < 2 ^ 32)
    {started : List Nat} {s : σ} {frames : List SseFrame} {w : List CallAtom}
    {log : List LoggedCall} (hR : R s frames log) (ht : Tracks w log)
    (hs : started = CallAtom.occurring w) :
    ∃ log', R (Transducer.run step s (Transducer.run onFragment started fs).2).1
        (frames ++ (Transducer.run step s (Transducer.run onFragment started fs).2).2) log' ∧
      Tracks (w ++ fs.map fragmentAtom) log' ∧
      (Transducer.run onFragment started fs).1 = CallAtom.occurring (w ++ fs.map fragmentAtom) := by
  induction fs generalizing started s frames w log with
  | nil => exact ⟨log, by simpa using hR, by simpa using ht, by simpa using hs⟩
  | cons f fs ih =>
      obtain ⟨n, hn, hlt⟩ := h f (by simp)
      obtain ⟨log', hR', ht', hs'⟩ := hf.oneFragment hn hlt hR ht hs
      obtain ⟨log'', hR'', ht'', hs''⟩ := ih (fun g hg => h g (by simp [hg])) hR' ht' hs'
      refine ⟨log'', ?_, by simpa using ht'', by simpa [Transducer.run_cons] using hs''⟩
      simpa [Transducer.run_cons, Transducer.run_append] using hR''

/-- The finish reason of a chunk. -/
theorem finish {c : Value} {started : List Nat} {s : σ} {frames : List SseFrame}
    {w : List CallAtom} {log : List LoggedCall} (hR : R s frames log) (ht : Tracks w log)
    (hs : started = CallAtom.occurring w) :
    ∃ log', R (Transducer.run step s (finishEvents started c)).1
        (frames ++ (Transducer.run step s (finishEvents started c)).2) log' ∧
      Tracks (w ++ if finishes c then [.finish] else []) log' := by
  by_cases hfin : finishes c
  · refine ⟨logFinish log, ?_, by simpa [hfin] using ht.finish⟩
    have hall : (log.map fun c => (started.insertionSort (· ≤ ·)).foldl
        (fun c i => c.finish i) c) = logFinish log := by
      apply List.map_congr_left
      intro c hc
      have hmem : c.index ∈ started := by
        rw [hs, ← ht.indices]
        exact List.mem_map_of_mem hc
      simp [LoggedCall.foldl_finish, hmem]
    have := hf.dones (started.insertionSort (· ≤ ·)) hR
    rw [hall] at this
    simpa [finishEvents, hfin] using this
  · exact ⟨log, by simpa [finishEvents, hfin] using hR, by simpa [hfin] using ht⟩

/-- **One chunk.** -/
theorem chunk {p : ChatStreamParser} {c : Value} (hc : NoError c) (hidx : IndicesInRange c)
    {s : σ} {frames : List SseFrame} {w : List CallAtom} {log : List LoggedCall}
    (hR : R s frames log) (ht : Tracks w log) (hs : p.startedTools = CallAtom.occurring w) :
    ∃ log', R (Transducer.run step s (p.onChunk c).2).1
        (frames ++ (Transducer.run step s (p.onChunk c).2).2) log' ∧
      Tracks (w ++ callAtoms c) log' ∧
      (p.onChunk c).1.startedTools = CallAtom.occurring (w ++ callAtoms c) := by
  -- the text in front of the fragments, and the usage behind them, concern no call
  have hhead : ∀ ev ∈ openingEvents p c ++
      ((chunkReasoning c).map CanonicalEvent.reasoningDelta).toList ++
      ((chunkContent c).map CanonicalEvent.textDelta).toList, ¬ ConcernsCalls ev := by
    simp only [openingEvents, List.mem_append, Option.mem_toList, Option.map_eq_some_iff]
    rintro ev ((hev | ⟨t, -, rfl⟩) | ⟨t, -, rfl⟩)
    · split at hev
      · simp at hev
      · rw [List.mem_singleton.1 hev]
        exact id
    · exact id
    · exact id
  have htail : ∀ ev ∈ ((chunkUsage c).map usageEvent).toList, ¬ ConcernsCalls ev := by
    simp only [Option.mem_toList, Option.map_eq_some_iff]
    rintro ev ⟨u, -, rfl⟩
    exact id
  obtain ⟨log₁, hR₁, ht₁, hs₁⟩ := hf.fragments hidx.carried (hf.others hhead hR) ht hs
  obtain ⟨log₂, hR₂, ht₂⟩ := hf.finish (c := c) hR₁ ht₁ hs₁
  refine ⟨log₂, ?_, by simpa [callAtoms] using ht₂, ?_⟩
  · have := hf.others htail hR₂
    simpa [onChunk_eq p hc, Transducer.run_append, fragmentRun, List.append_assoc] using this
  · -- a finish mark adds no index
    have hocc : ∀ w : List CallAtom, CallAtom.occurring (w ++ if finishes c then [.finish] else []) =
        CallAtom.occurring w := by
      intro w
      by_cases hfin : finishes c <;> simp [hfin, CallAtom.noteIndex]
    rw [callAtoms, ← List.append_assoc, hocc, ← hs₁, onChunk_eq p hc]
    rfl

/-- **A stream of chunks.** The log after the stream has read its call word. -/
theorem chunks {cs : List Value} (hc : ∀ c ∈ cs, NoError c) (hidx : ∀ c ∈ cs, IndicesInRange c)
    {p : ChatStreamParser} {s : σ} {frames : List SseFrame} {w : List CallAtom}
    {log : List LoggedCall} (hR : R s frames log) (ht : Tracks w log)
    (hs : p.startedTools = CallAtom.occurring w) :
    ∃ log', R (Transducer.run step s (Transducer.run onChunk p cs).2).1
        (frames ++ (Transducer.run step s (Transducer.run onChunk p cs).2).2) log' ∧
      Tracks (w ++ callWord cs) log' := by
  induction cs generalizing p s frames w log with
  | nil => exact ⟨log, by simpa using hR, by simpa [callWord] using ht⟩
  | cons c cs ih =>
      obtain ⟨log', hR', ht', hs'⟩ := hf.chunk (hc c (by simp)) (hidx c (by simp)) hR ht hs
      obtain ⟨log'', hR'', ht''⟩ := ih (fun c' h => hc c' (by simp [h]))
        (fun c' h => hidx c' (by simp [h])) hR' ht' hs'
      refine ⟨log'', ?_, by simpa [callWord] using ht''⟩
      simpa [Transducer.run_cons, Transducer.run_append] using hR''

end FollowsCalls

end Follows

end AiApiBridge
