import AiApiBridge.StreamEnds

/-!
# How streams open

The first chunk without an error makes the parser announce the response, and only
then does an emitter know its id. A stream opens with the response, once, and ends
under its id exactly when such a chunk is the first thing the loop hears
(`streamOpens_iff`): an error, `[DONE]` or the end of the upstream that comes sooner
is passed on without an opening.
-/

set_option autoImplicit false

namespace AiApiBridge

open Transducer (Step runUntil)
open Chat ChatStreamParser

/-! ## Opening frames -/

/-- An opening frame: it has this event and announces the id under this member. -/
def Opening (event member id : String) (fr : SseFrame) : Prop :=
  fr.event = event ∧ fr.get₂ member "id" = some (.string id)

/-- One opening frame, and it comes first. -/
def OpensWith (event member id : String) (frames : List SseFrame) : Prop :=
  ∃ fr rest, frames = fr :: rest ∧ Opening event member id fr ∧ ∀ fr' ∈ rest, fr'.event ≠ event

/-- The terminal frames of the Responses dialect carry the id. -/
def EndsUnder (id : String) (frames : List SseFrame) : Prop :=
  ∀ fr ∈ frames, Endings.responses.Terminal fr → fr.get₂ "response" "id" = some (.string id)

/-! ## The first signal -/

/-- Data that does not parse is skipped. -/
def Signal.skipped (fromStr : String → Option Value) : Signal → Bool
  | .item (.data d) => (fromStr d).isNone
  | _ => false

/-- The first signal that is not skipped is a chunk without an error. -/
def ChunkFirst (fromStr : String → Option Value) (sigs : List Signal) : Prop :=
  ∃ d json, sigs.find? (fun sig => !sig.skipped fromStr) = some (.item (.data d)) ∧
    fromStr d = some json ∧ NoError json

section First

variable {fromStr : String → Option Value} {sigs : List Signal}

theorem chunkFirst_skip {sig : Signal} (h : sig.skipped fromStr = true) :
    ChunkFirst fromStr (sig :: sigs) ↔ ChunkFirst fromStr sigs := by
  simp [ChunkFirst, h]

theorem chunkFirst_data {d : String} {json : Value} (h : fromStr d = some json) :
    ChunkFirst fromStr (.item (.data d) :: sigs) ↔ NoError json := by
  simp [ChunkFirst, Signal.skipped, h]

theorem not_chunkFirst_nil : ¬ ChunkFirst fromStr [] := by
  simp [ChunkFirst]

theorem not_chunkFirst_done : ¬ ChunkFirst fromStr (.item .done :: sigs) := by
  simp [ChunkFirst, Signal.skipped]

theorem not_chunkFirst_failure (message : String) :
    ¬ ChunkFirst fromStr (.failure message :: sigs) := by
  simp [ChunkFirst, Signal.skipped]

end First

/-! ## The loop -/

/-- An emitter that announces a response: told of it first, it writes one opening
frame, and from then on frames of the kind `Rest`; told of an end first, it does not
open. -/
structure Announces {σ : Type} (event member id : String) (Rest : SseFrame → Prop)
    (Announced : σ → Prop) (new : σ) (emit : Step σ CanonicalEvent SseFrame) : Prop where
  created : ∀ model, ∃ fr, (emit new (.created id model)).2 = [fr] ∧ Opening event member id fr ∧
    Announced (emit new (.created id model)).1
  announced : ∀ s ev, (∀ id' model, ev ≠ .created id' model) → Announced s →
    Announced (emit s ev).1 ∧ ∀ fr ∈ (emit s ev).2, Rest fr
  unopened : ∀ ev, ev = .completed ∨ ev.isError = true →
    ∃ fr rest, (emit new ev).2 = fr :: rest ∧ fr.event ≠ event

/-- The state of a stream before its first signal. -/
abbrev StreamState.new {σ : Type} (id : String) (emitter : σ) : StreamState σ :=
  ⟨.new id, emitter, false, false, ⟨none, none, none⟩⟩

namespace Announces

variable {σ : Type} {event member id : String} {Rest : SseFrame → Prop} {Announced : σ → Prop}
  {new : σ} {emit : Step σ CanonicalEvent SseFrame} {fromStr : String → Option Value}
  {track : Bool}

/-- The events behind the opening. -/
theorem events (h : Announces event member id Rest Announced new emit) {evs : List CanonicalEvent}
    (hevs : ∀ ev ∈ evs, ∀ id' model, ev ≠ .created id' model) {e : σ} (he : Announced e) :
    Announced (runUntil (emitEvent emit) e evs).1.1 ∧
      ∀ fr ∈ (runUntil (emitEvent emit) e evs).1.2, Rest fr :=
  Transducer.runUntil_invariant (fun s ev hev hs => h.announced s ev hev hs) evs e hevs he

/-- What holds once the response has been opened. -/
def Open (Announced : σ → Prop) (s : StreamState σ) : Prop :=
  s.parser.created = true ∧ Announced s.emitter

/-- **One signal behind the opening.** -/
theorem signal (h : Announces event member id Rest Announced new emit) {s : StreamState σ}
    (hs : Open Announced s) (sig : Signal) :
    Open Announced (onSignal emit fromStr track s sig).1.1 ∧
      ∀ fr ∈ (onSignal emit fromStr track s sig).1.2, Rest fr := by
  rcases hs with ⟨hparser, hemitter⟩
  rcases sig with (d | _) | message
  · cases hj : fromStr d with
    | none => exact ⟨by simpa [onSignal, onItem, hj] using ⟨hparser, hemitter⟩,
        by simp [onSignal, onItem, hj]⟩
    | some json =>
        -- once created, the parser does not announce the message again
        have hevs : ∀ ev ∈ (s.parser.onChunk json).2, ∀ id' model, ev ≠ .created id' model := by
          cases herr : nonNull (json.get "error") with
          | none => exact fun ev hev => not_created_onChunk hparser herr hev
          | some err =>
              rw [onChunk_error _ herr]
              intro ev hev id' model
              rw [List.mem_singleton.1 hev]
              simp [errorEvent]
        have hcreated : (s.parser.onChunk json).1.created = true := by
          cases herr : nonNull (json.get "error") with
          | none => rw [onChunk_eq _ herr]
          | some err => rw [onChunk_error _ herr, hparser]
        have hrun := h.events hevs hemitter
        cases hdone : s.done <;> cases track <;>
          simp [onSignal, onItem, hj, hdone, Open, hparser, hemitter, hcreated] <;>
            exact hrun
  · -- the mark and a failed read are one event each
    have hemit := h.announced s.emitter .completed (by simp) hemitter
    exact ⟨⟨hparser, hemit.1⟩, hemit.2⟩
  · have hemit := h.announced s.emitter (.error message 502) (by simp) hemitter
    exact ⟨⟨hparser, hemit.1⟩, hemit.2⟩

/-- **The stream behind the opening.** -/
theorem rest (h : Announces event member id Rest Announced new emit) {s : StreamState σ}
    (hs : Open Announced s) (sigs : List Signal) :
    ∀ fr ∈ signalFrames emit fromStr track s sigs, Rest fr := by
  have hstep : ∀ s sig, True → Open Announced s →
      Open Announced (onSignal emit fromStr track s sig).1.1 ∧
        ∀ fr ∈ (onSignal emit fromStr track s sig).1.2, Rest fr :=
    fun s sig _ hs => h.signal hs sig
  have hrun := Transducer.runUntil_invariant hstep sigs s (fun _ _ => trivial) hs
  intro fr hfr
  rcases List.mem_append.1 hfr with hfr | hfr
  · exact hrun.2 fr hfr
  · rw [closing] at hfr
    split at hfr
    · cases hfr
    · exact (h.announced _ .completed (by simp) hrun.1.2).2 fr hfr

variable (track) in
/-- **A first chunk without an error opens the response.** -/
theorem chunk (h : Announces event member id Rest Announced new emit) {d : String} {json : Value}
    (hd : fromStr d = some json) (hjson : NoError json) :
    ∃ fr rest, (onSignal emit fromStr track (.new id new) (.item (.data d))).1.2 =
        fr :: rest ∧ Opening event member id fr ∧ (∀ fr' ∈ rest, Rest fr') ∧
      Open Announced (onSignal emit fromStr track (.new id new) (.item (.data d))).1.1 ∧
      (onSignal emit fromStr track (.new id new) (.item (.data d))).2 = false := by
  obtain ⟨fr, hfr, hopening, hannounced⟩ := h.created (strOr json "model" "")
  -- behind the opening the chunk is read as by a parser that has announced the message
  have hevs : ∀ ev ∈ ({ ChatStreamParser.new id with created := true }.onChunk json).2,
      ∀ id' model, ev ≠ .created id' model := fun ev hev => not_created_onChunk rfl hjson hev
  have hrun := h.events hevs hannounced
  have hcreated : ((ChatStreamParser.new id).onChunk json).1.created = true := by
    rw [onChunk_eq _ hjson]
  have hstop : (runUntil (emitEvent emit) new ((ChatStreamParser.new id).onChunk json).2).2 =
      false := by
    rw [Transducer.runUntil_stops (emitEvent emit) CanonicalEvent.isError fun _ _ => rfl,
      any_isError_onChunk, show nonNull (json.get "error") = none from hjson]
    rfl
  have hevents : runUntil (emitEvent emit) new ((ChatStreamParser.new id).onChunk json).2 =
      (((runUntil (emitEvent emit) (emit new (.created id (strOr json "model" ""))).1
          ({ ChatStreamParser.new id with created := true }.onChunk json).2).1.1,
        fr :: (runUntil (emitEvent emit) (emit new (.created id (strOr json "model" ""))).1
          ({ ChatStreamParser.new id with created := true }.onChunk json).2).1.2), false) := by
    refine Prod.ext ?_ hstop
    rw [onChunk_opening rfl hjson, Transducer.runUntil_cons_go rfl]
    exact Prod.ext rfl (congrArg (· ++ _) hfr)
  refine ⟨fr, _, ?_, hopening, hrun.2, ?_⟩
  · cases track <;> simp [onSignal, onItem, hd, hevents]
  · cases track <;>
      simp [onSignal, onItem, hd, hevents, Open, hcreated, hrun.1]

variable (emit fromStr track) in
/-- The frames of the first signal come first. -/
theorem signalFrames_cons (s : StreamState σ) (sig : Signal) (sigs : List Signal) :
    ∃ rest, signalFrames emit fromStr track s (sig :: sigs) =
      (onSignal emit fromStr track s sig).1.2 ++ rest := by
  cases hstop : (onSignal emit fromStr track s sig).2 with
  | true => exact ⟨_, signalFrames_stop emit fromStr track hstop sigs⟩
  | false => exact ⟨_, signalFrames_go emit fromStr track hstop sigs⟩

theorem signalFrames_skip {s : StreamState σ} {sig : Signal} (h : sig.skipped fromStr = true)
    (sigs : List Signal) :
    signalFrames emit fromStr track s (sig :: sigs) = signalFrames emit fromStr track s sigs := by
  rcases sig with (d | _) | message
  · have hd : fromStr d = none := Option.isNone_iff_eq_none.1 h
    have hstep : onSignal emit fromStr track s (.item (.data d)) = ((s, []), false) := by
      simp [onSignal, onItem, hd]
    rw [signalFrames_go emit fromStr track (by rw [hstep]), hstep, List.nil_append]
  · cases h
  · cases h

variable (track) in
/-- A stream in which a chunk comes first opens with the response. -/
theorem opens (h : Announces event member id Rest Announced new emit) {sigs : List Signal}
    (hfirst : ChunkFirst fromStr sigs) :
    ∃ fr rest, signalFrames emit fromStr track (.new id new) sigs = fr :: rest ∧
      Opening event member id fr ∧ ∀ fr' ∈ rest, Rest fr' := by
  induction sigs with
  | nil => exact absurd hfirst not_chunkFirst_nil
  | cons sig sigs ih =>
      rcases sig with (d | _) | message
      · cases hd : fromStr d with
        | none =>
            -- data that is no JSON is passed over, and the first chunk is still to
            -- come
            have hskip : (Signal.item (.data d)).skipped fromStr = true := by
              simp [Signal.skipped, hd]
            rw [signalFrames_skip hskip]
            exact ih ((chunkFirst_skip hskip).1 hfirst)
        | some json =>
            obtain ⟨fr, rest, hframes, hopening, hrest, hopen, hgo⟩ :=
              h.chunk track hd ((chunkFirst_data hd).1 hfirst)
            -- the first chunk opens the stream; what follows opens it no more
            refine ⟨fr, rest ++ signalFrames emit fromStr track
              (onSignal emit fromStr track (.new id new) (.item (.data d))).1.1 sigs, ?_,
              hopening, ?_⟩
            · rw [signalFrames_go emit fromStr track hgo, hframes, List.cons_append]
            · intro fr' hfr'
              rcases List.mem_append.1 hfr' with hfr' | hfr'
              · exact hrest fr' hfr'
              · exact h.rest hopen sigs fr' hfr'
      · exact absurd hfirst not_chunkFirst_done
      · exact absurd hfirst (not_chunkFirst_failure message)

variable (track) in
/-- A stream in which something else comes first does not. -/
theorem not_opens (h : Announces event member id Rest Announced new emit) {sigs : List Signal}
    (hfirst : ¬ ChunkFirst fromStr sigs) :
    ∃ fr rest, signalFrames emit fromStr track (.new id new) sigs = fr :: rest ∧
      fr.event ≠ event := by
  induction sigs with
  | nil => exact h.unopened .completed (.inl rfl)
  | cons sig sigs ih =>
      obtain ⟨rest, hrest⟩ := signalFrames_cons emit fromStr track (.new id new) sig sigs
      rcases sig with (d | _) | message
      · cases hd : fromStr d with
        | none =>
            have hskip : (Signal.item (.data d)).skipped fromStr = true := by
              simp [Signal.skipped, hd]
            rw [signalFrames_skip hskip]
            exact ih (mt (chunkFirst_skip hskip).2 hfirst)
        | some json =>
            -- an error event comes first
            obtain ⟨err, herr⟩ : ∃ err, nonNull (json.get "error") = some err :=
              Option.ne_none_iff_exists'.1 (mt (chunkFirst_data hd).2 hfirst)
            obtain ⟨fr, frs, hframes, hevent⟩ := h.unopened (errorEvent err) (.inr rfl)
            refine ⟨fr, frs ++ rest, ?_, hevent⟩
            rw [hrest, ← List.cons_append, ← hframes]
            congr 1
            cases track <;>
              simp [onSignal, onItem, hd, onChunk_error _ herr, runUntil, emitEvent,
                errorEvent, CanonicalEvent.isError]
      · obtain ⟨fr, frs, hframes, hevent⟩ := h.unopened .completed (.inl rfl)
        exact ⟨fr, frs ++ rest, hrest.trans (congrArg (· ++ rest) hframes), hevent⟩
      · obtain ⟨fr, frs, hframes, hevent⟩ := h.unopened (.error message 502) (.inr rfl)
        exact ⟨fr, frs ++ rest, hrest.trans (congrArg (· ++ rest) hframes), hevent⟩

end Announces

/-! ## Both dialects -/

namespace ResponsesEmitter

/-- The frames behind the opening one: they do not open, and a terminal one carries
the id. -/
def Following (id : String) (fr : SseFrame) : Prop :=
  fr.event ≠ "response.created" ∧
    (Endings.responses.Terminal fr → fr.get₂ "response" "id" = some (.string id))

theorem following_number {id : String} {frames : List SseFrame} (h : ∀ fr ∈ frames, Following id fr)
    (seq : Nat) : ∀ fr ∈ number seq frames, Following id fr := by
  intro fr hfr
  obtain ⟨fr', hfr', hevent, hget⟩ := mem_number hfr
  have hmember : fr.get₂ "response" "id" = fr'.get₂ "response" "id" :=
    congrArg (Option.bind · _) (hget "response" (by decide))
  rw [Following, Endings.Terminal, hevent, hmember]
  exact h fr' hfr'

theorem following_of_mem_itemEvents {id : String} {fr : SseFrame} (h : fr.event ∈ itemEvents) :
    Following id fr := by
  refine ⟨?_, ?_⟩
  · intro hevent
    exact absurd (hevent ▸ h) (by decide)
  · rintro (hevent | hevent) <;> exact absurd (hevent ▸ h) (by decide)

theorem following_completedFrame (e : ResponsesEmitter) :
    Following e.responseId e.completedFrame :=
  ⟨by simp [completedFrame], fun _ => rfl⟩

theorem following_failedFrame (e : ResponsesEmitter) (message : String) (status : Nat) :
    Following e.responseId (e.failedFrame message status) :=
  ⟨by simp [failedFrame], fun _ => rfl⟩

/-- **Behind the opening.** -/
theorem following_onEvent (uuid : Nat → String) (e : ResponsesEmitter) {ev : CanonicalEvent}
    (hcreated : ∀ id model, ev ≠ .created id model) :
    (onEvent uuid e ev).1.responseId = e.responseId ∧
      ∀ fr ∈ (onEvent uuid e ev).2, Following e.responseId fr := by
  by_cases hcompleted : ev = .completed
  · -- the end: item events, and the completed response under the same id
    obtain ⟨e', items, heq, hitems⟩ := onEventCore_completed uuid e
    have hid : e'.responseId = e.responseId := hitems.1
    rw [hcompleted, onEvent, heq]
    refine ⟨hid, following_number ?_ e.seq⟩
    intro fr hfr
    rcases List.mem_append.1 hfr with hfr | hfr
    · exact following_of_mem_itemEvents (hitems.2 fr hfr)
    · rw [List.mem_singleton.1 hfr, ← hid]
      exact following_completedFrame e'
  · cases herror : ev.isError with
    | false =>
        obtain ⟨hid, hevents⟩ := onItems_onEventCore uuid e hcreated hcompleted herror
        exact ⟨hid, following_number (fun fr hfr => following_of_mem_itemEvents (hevents fr hfr)) _⟩
    | true =>
        cases ev with
        | error message status =>
            refine ⟨rfl, following_number ?_ e.seq⟩
            intro fr hfr
            rw [List.mem_singleton.1 hfr]
            exact following_failedFrame e message status
        | _ => cases herror

theorem announces (uuid : Nat → String) (id : String) :
    Announces "response.created" "response" id (Following id) (fun e => e.responseId = id) .new
      (onEvent uuid) where
  created := fun model => ⟨_, rfl, ⟨rfl, rfl⟩, rfl⟩
  announced := by
    rintro e ev hcreated rfl
    exact following_onEvent uuid e hcreated
  unopened := by
    intro ev hev
    have hcreated : ∀ id' model, ev ≠ .created id' model := by
      rintro id' model rfl
      rcases hev with h | h <;> cases h
    have hne : (onEvent uuid new ev).2 ≠ [] := by
      rcases hev with rfl | hev
      · exact onEvent_completed_ne uuid new
      · cases ev with
        | error message status => simp [onEvent, onEventCore, number_eq_nil]
        | _ => cases hev
    obtain ⟨fr, rest, hframes⟩ := List.exists_cons_of_ne_nil hne
    exact ⟨fr, rest, hframes, ((following_onEvent uuid new hcreated).2 fr (by simp [hframes])).1⟩

end ResponsesEmitter

namespace AnthropicEmitter

theorem announces (fromStr : String → Option Value) (id : String) :
    Announces "message_start" "message" id (fun fr => fr.event ≠ "message_start")
      (fun e => e.started = true) .new (onEvent fromStr) where
  created := fun model => ⟨_, rfl, ⟨rfl, rfl⟩, rfl⟩
  announced := by
    intro e ev hcreated hstarted
    -- frames of blocks do not open the message
    have hblocks : ∀ fr : SseFrame, fr.event ∈ blockEvents → fr.event ≠ "message_start" :=
      fun fr h hevent => absurd (hevent ▸ h) (by decide)
    by_cases hcompleted : ev = .completed
    · obtain ⟨e', blocks, heq, hkept⟩ := onEvent_completed fromStr e
      rw [hcompleted, heq]
      refine ⟨hkept.1.trans hstarted, ?_⟩
      intro fr hfr
      rcases List.mem_append.1 hfr with hfr | hfr
      · exact hblocks fr (hkept.2 fr hfr)
      · rcases List.mem_pair.1 hfr with rfl | rfl
        · simp [messageDelta]
        · decide
    · cases herror : ev.isError with
      | false =>
          obtain ⟨f, hf, heq⟩ := onBlocks_onEvent fromStr e hcreated hcompleted herror
          have heq : onEvent fromStr e ev = f e := by
            rcases heq with heq | heq
            · exact heq
            · -- the message has been started, so nothing more is written for it
              rw [heq, start, if_pos hstarted]
              rfl
          rw [heq]
          exact ⟨(hf e).1.trans hstarted, fun fr hfr => hblocks fr ((hf e).2 fr hfr)⟩
      | true =>
          cases ev with
          | error message status =>
              refine ⟨hstarted, ?_⟩
              intro fr hfr
              rw [List.mem_singleton.1 hfr]
              simp [errorFrame]
          | _ => cases herror
  unopened := by
    intro ev hev
    rcases hev with rfl | hev
    · exact ⟨_, _, rfl, by simp [messageDelta]⟩
    · cases ev with
      | error message status => exact ⟨_, _, rfl, by simp [errorFrame]⟩
      | _ => cases hev

end AnthropicEmitter

/-- A client of either dialect first gets the opening frame with the response's id,
gets it once, and a terminal frame that names a response names this one. -/
structure StreamOpens (uuid : Nat → String) (fromStr : String → Option Value) (track : Bool)
    (responseId : String) (chunks : List UpstreamChunk) : Prop where
  created : OpensWith "response.created" "response" responseId
    (runStream (ResponsesEmitter.onEvent uuid) fromStr track responseId .new chunks).1
  started : OpensWith "message_start" "message" responseId
    (runStream (AnthropicEmitter.onEvent fromStr) fromStr track responseId .new chunks).1
  ended : EndsUnder responseId
    (runStream (ResponsesEmitter.onEvent uuid) fromStr track responseId .new chunks).1

/-- **When a stream opens with its response**: when the first signal that is not data
to be skipped is a chunk without an error. -/
theorem streamOpens_iff (uuid : Nat → String) (fromStr : String → Option Value) (track : Bool)
    (responseId : String) (chunks : List UpstreamChunk) :
    StreamOpens uuid fromStr track responseId chunks ↔ ChunkFirst fromStr (signals chunks) := by
  constructor
  · rintro ⟨⟨fr, rest, hframes, hopening, -⟩, -, -⟩
    by_contra hfirst
    -- otherwise the first frame is another one
    obtain ⟨fr', rest', hframes', hevent⟩ :=
      (ResponsesEmitter.announces uuid responseId).not_opens track hfirst
    rw [runStream_eq_signals, hframes'] at hframes
    rw [(List.cons.inj hframes).1] at hevent
    exact hevent hopening.1
  · intro hfirst
    obtain ⟨fr, rest, hframes, hopening, hrest⟩ :=
      (ResponsesEmitter.announces uuid responseId).opens track hfirst
    obtain ⟨fr', rest', hframes', hopening', hrest'⟩ :=
      (AnthropicEmitter.announces fromStr responseId).opens track hfirst
    refine ⟨?_, ?_, ?_⟩
    · rw [runStream_eq_signals]
      exact ⟨fr, rest, hframes, hopening, fun fr hfr => (hrest fr hfr).1⟩
    · rw [runStream_eq_signals]
      exact ⟨fr', rest', hframes', hopening', hrest'⟩
    · rw [runStream_eq_signals, hframes]
      intro fr₀ hfr₀ hterminal
      rcases List.mem_cons.1 hfr₀ with rfl | hfr₀
      · exact hopening.2
      · exact (hrest fr₀ hfr₀).2 hterminal

/-- An upstream that sends `[DONE]` at once: the client is not told which response
has been completed. -/
theorem not_streamOpens_doneAtOnce :
    ¬ StreamOpens (fun n => Nat.repr n) (fun _ => none) false "resp_1"
      [.ok [100, 97, 116, 97, 58, 32, 91, 68, 79, 78, 69, 93, 10, 10]] := by
  rintro ⟨-, -, hended⟩
  exact absurd (hended _ (List.mem_singleton.2 rfl) (.inl rfl)) (by decide)

end AiApiBridge
