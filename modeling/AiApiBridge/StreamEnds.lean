import AiApiBridge.RunStream
import AiApiBridge.Wire.FrameEvents

/-!
# How streams end

An untracked stream has four exits: an error event, `[DONE]`, a transport error and
the end of the upstream. Whichever is taken, the client gets one terminal frame, as
the last frame, and it reports a failure exactly when an error of either kind comes
before the first `[DONE]` (`runStream_endsOnce`).
-/

set_option autoImplicit false

namespace AiApiBridge

open Transducer (Step runUntil)
open Chat ChatStreamParser

/-! ## Terminal frames -/

/-- The events of the two terminal frames of a dialect. -/
structure Endings where
  completed : String
  failed : String
  deriving DecidableEq, Repr

namespace Endings

def responses : Endings := ⟨"response.completed", "response.failed"⟩

def anthropic : Endings := ⟨"message_stop", "error"⟩

variable (E : Endings)

/-- A frame that ends a stream. -/
def Terminal (fr : SseFrame) : Prop := fr.event = E.completed ∨ fr.event = E.failed

/-- The last frame, and no other, is terminal, and it is one of this event. -/
def EndsWith (event : String) (frames : List SseFrame) : Prop :=
  ∃ init last, frames = init ++ [last] ∧ last.event = event ∧ ∀ fr ∈ init, ¬ E.Terminal fr

/-- One terminal frame, the last one, which is a failure in the case `Failed`. -/
def EndsOnce (Failed : Prop) (frames : List SseFrame) : Prop :=
  ∃ init last, frames = init ++ [last] ∧ E.Terminal last ∧ (∀ fr ∈ init, ¬ E.Terminal fr) ∧
    (last.event = E.failed ↔ Failed)

variable {E}

theorem EndsWith.prepend {event : String} {a b : List SseFrame} (h : E.EndsWith event b)
    (ha : ∀ fr ∈ a, ¬ E.Terminal fr) : E.EndsWith event (a ++ b) := by
  rcases h with ⟨init, last, rfl, hlast, hinit⟩
  refine ⟨a ++ init, last, (List.append_assoc a init [last]).symm, hlast, ?_⟩
  intro fr hfr
  rcases List.mem_append.1 hfr with hfr | hfr
  · exact ha fr hfr
  · exact hinit fr hfr

end Endings

/-! ## The loop -/

/-- An emitter that writes a terminal frame for the end of a stream and for an error,
and for no other event. -/
structure Ends {σ : Type} (E : Endings) (emit : Step σ CanonicalEvent SseFrame) : Prop where
  quiet : ∀ s ev, ev ≠ .completed → ev.isError = false → ∀ fr ∈ (emit s ev).2, ¬ E.Terminal fr
  completed : ∀ s, E.EndsWith E.completed (emit s .completed).2
  error : ∀ s message status, E.EndsWith E.failed (emit s (.error message status)).2

/-- An upstream failure: a transport error, or a data event with an in-band error. -/
def Signal.fails (fromStr : String → Option Value) : Signal → Bool
  | .failure _ => true
  | .item (.data d) => failsInBand fromStr d
  | .item .done => false

/-- The signals before the first `[DONE]`. -/
def beforeDone (sigs : List Signal) : List Signal := sigs.takeWhile (· ≠ .item .done)

/-- A failure comes before the first `[DONE]`. -/
def FailsBeforeDone (fromStr : String → Option Value) (sigs : List Signal) : Prop :=
  ∃ sig ∈ beforeDone sigs, sig.fails fromStr = true

section Loop

variable {σ : Type} {emit : Step σ CanonicalEvent SseFrame} {fromStr : String → Option Value}
  {E : Endings}

/-- A data event without an error ends nothing. -/
theorem Ends.onItem_quiet (h : Ends E emit) {s : StreamState σ} (hdone : s.done = false)
    {d : String} (hd : failsInBand fromStr d = false) :
    (onItem emit fromStr false s (.data d)).2 = false ∧
      (onItem emit fromStr false s (.data d)).1.1.done = false ∧
      (onItem emit fromStr false s (.data d)).1.1.completed = s.completed ∧
      ∀ fr ∈ (onItem emit fromStr false s (.data d)).1.2, ¬ E.Terminal fr := by
  cases hj : fromStr d with
  | none => simp [onItem, hj, hdone]
  | some json =>
      have hjson : NoError json := by simpa [failsInBand, hj, NoError] using hd
      have hstop : (runUntil (emitEvent emit) s.emitter (s.parser.onChunk json).2).2 = false := by
        rw [Transducer.runUntil_stops (emitEvent emit) CanonicalEvent.isError fun _ _ => rfl,
          any_isError_onChunk, show nonNull (json.get "error") = none from hjson]
        rfl
      have hstep : ∀ e (ev : CanonicalEvent), ev ≠ .completed ∧ ev.isError = false → True →
          True ∧ ∀ fr ∈ (emitEvent emit e ev).1.2, ¬ E.Terminal fr :=
        fun e ev hev _ => ⟨trivial, h.quiet e ev hev.1 hev.2⟩
      have hquiet := (Transducer.runUntil_invariant hstep (s.parser.onChunk json).2 s.emitter
        (fun ev hev => quiet_onChunk hjson hev) trivial).2
      simpa [onItem, hj, hdone, hstop] using hquiet

/-- **The four exits.** Every loop that has not ended yet ends with one terminal
frame. -/
theorem Ends.endsWith (h : Ends E emit) (sigs : List Signal) {s : StreamState σ}
    (hdone : s.done = false) (hcompleted : s.completed = false) :
    E.EndsWith (if (beforeDone sigs).any (·.fails fromStr) then E.failed else E.completed)
      (signalFrames emit fromStr false s sigs) := by
  induction sigs generalizing s with
  | nil =>
      -- the upstream ends
      simpa [signalFrames, runUntil, closing, hcompleted, beforeDone] using
        h.completed s.emitter
  | cons sig sigs ih =>
      rcases sig with (d | _) | message
      · cases hd : failsInBand fromStr d with
        | false =>
            obtain ⟨hgo, hdone', hcompleted', hquiet⟩ := h.onItem_quiet hdone hd
            have hgo' : (onSignal emit fromStr false s (.item (.data d))).2 = false := hgo
            rw [signalFrames_go emit fromStr false hgo']
            have hbefore : (beforeDone (.item (.data d) :: sigs)).any (·.fails fromStr) =
                (beforeDone sigs).any (·.fails fromStr) := by
              simp [beforeDone, Signal.fails, hd]
            rw [hbefore]
            exact (ih hdone' (hcompleted'.trans hcompleted)).prepend hquiet
        | true =>
            -- an error event
            obtain ⟨err, herr⟩ := Option.isSome_iff_exists.1 hd
            obtain ⟨json, hj, herr⟩ := Option.bind_eq_some_iff.1 herr
            have hstep : onSignal emit fromStr false s (.item (.data d)) =
                (({ s with
                    emitter := (emit s.emitter (errorEvent err)).1
                    completed := true }, (emit s.emitter (errorEvent err)).2), true) := by
              simp [onSignal, onItem, hj, hdone, onChunk_error s.parser herr, runUntil, emitEvent,
                errorEvent, CanonicalEvent.isError]
            rw [signalFrames_stop emit fromStr false (by rw [hstep]), hstep]
            simpa [beforeDone, Signal.fails, hd, closing, errorEvent] using h.error s.emitter _ _
      · -- `[DONE]`
        rw [signalFrames_stop emit fromStr false rfl]
        simpa [onSignal, onItem, closing, beforeDone] using h.completed s.emitter
      · -- a transport error
        rw [signalFrames_stop emit fromStr false rfl]
        simpa [onSignal, closing, beforeDone, Signal.fails] using h.error s.emitter message 502

/-- **An untracked stream ends once.** -/
theorem Ends.endsOnce (h : Ends E emit) (hE : E.completed ≠ E.failed) (responseId : String)
    (emitter : σ) (chunks : List UpstreamChunk) :
    E.EndsOnce (FailsBeforeDone fromStr (signals chunks))
      (runStream emit fromStr false responseId emitter chunks).1 := by
  rw [runStream_eq_signals]
  obtain ⟨init, last, heq, hlast, hinit⟩ : E.EndsWith
      (if (beforeDone (signals chunks)).any (·.fails fromStr) then E.failed else E.completed)
      (signalFrames emit fromStr false
        ⟨.new responseId, emitter, false, false, ⟨none, none, none⟩⟩ (signals chunks)) :=
    h.endsWith (signals chunks) rfl rfl
  have hfails : (beforeDone (signals chunks)).any (·.fails fromStr) = true ↔
      FailsBeforeDone fromStr (signals chunks) := List.any_eq_true
  by_cases hf : FailsBeforeDone fromStr (signals chunks)
  · rw [if_pos (hfails.2 hf)] at hlast
    exact ⟨init, last, heq, .inr hlast, hinit, fun _ => hf, fun _ => hlast⟩
  · rw [if_neg (mt hfails.1 hf)] at hlast
    refine ⟨init, last, heq, .inl hlast, hinit, ?_, fun hf' => absurd hf' hf⟩
    intro hfailed
    exact absurd (hlast.symm.trans hfailed) hE

end Loop

/-! ## Both dialects -/

theorem ResponsesEmitter.ends (uuid : Nat → String) :
    Ends Endings.responses (ResponsesEmitter.onEvent uuid) where
  quiet := by
    intro e ev hcompleted herror fr hfr
    obtain ⟨fr', hfr', hevent, -⟩ := mem_number hfr
    -- no frame of an event in between is one that ends a response
    have hevents : fr'.event ∈ "response.created" :: itemEvents := by
      by_cases hcreated : ∃ id m, ev = .created id m
      · rcases hcreated with ⟨id, m, rfl⟩
        rw [List.mem_singleton.1 hfr']
        exact List.mem_cons_self
      · exact List.mem_cons_of_mem _ ((onItems_onEventCore uuid e
          (fun id m h => hcreated ⟨id, m, h⟩) hcompleted herror).2 fr' hfr')
    rw [Endings.Terminal, hevent]
    rintro (h | h) <;> exact absurd (h ▸ hevents) (by decide)
  completed := by
    intro e
    obtain ⟨e', items, heq, hitems⟩ := onEventCore_completed uuid e
    refine ⟨number e.seq items, _, by rw [onEvent, heq, number_append]; rfl, rfl, ?_⟩
    intro fr hfr
    obtain ⟨fr', hfr', hevent, -⟩ := mem_number hfr
    rw [Endings.Terminal, hevent]
    rintro (h | h) <;> exact absurd (h ▸ hitems.2 fr' hfr') (by decide)
  error := fun e message status => ⟨[], _, rfl, rfl, fun fr hfr => nomatch hfr⟩

theorem AnthropicEmitter.event_mem_start {e : AnthropicEmitter} {fr : SseFrame}
    (h : fr ∈ (start e).2) : fr.event = "message_start" := by
  rw [start] at h
  split at h
  · cases h
  · rw [List.mem_singleton.1 h]
    rfl

/-- The frames of every event between, the one that starts the message among them. -/
theorem AnthropicEmitter.event_mem_onEvent {fromStr : String → Option Value}
    {e : AnthropicEmitter} {ev : CanonicalEvent} (hcompleted : ev ≠ .completed)
    (herror : ev.isError = false) {fr : SseFrame} (hfr : fr ∈ (onEvent fromStr e ev).2) :
    fr.event ∈ "message_start" :: blockEvents := by
  -- `created` may start the message; any other event does that or works on blocks
  by_cases hcreated : ∃ id m, ev = .created id m
  · rcases hcreated with ⟨id, m, rfl⟩
    rw [event_mem_start hfr]
    exact List.mem_cons_self
  · obtain ⟨f, hf, heq | heq⟩ := onBlocks_onEvent fromStr e
      (fun id m h => hcreated ⟨id, m, h⟩) hcompleted herror
    · rw [heq] at hfr
      exact List.mem_cons_of_mem _ ((hf e).2 fr hfr)
    · rw [heq] at hfr
      rcases List.mem_append.1 hfr with hfr | hfr
      · rw [event_mem_start hfr]
        exact List.mem_cons_self
      · exact List.mem_cons_of_mem _ ((hf _).2 fr hfr)

theorem AnthropicEmitter.ends (fromStr : String → Option Value) :
    Ends Endings.anthropic (AnthropicEmitter.onEvent fromStr) where
  quiet := by
    intro e ev hcompleted herror fr hfr
    have hevents := event_mem_onEvent hcompleted herror hfr
    rintro (h | h) <;> exact absurd (h ▸ hevents) (by decide)
  completed := by
    intro e
    -- the blocks are closed, and `message_stop` is the last frame
    obtain ⟨e', blocks, heq, hblocks⟩ := onEvent_completed fromStr e
    refine ⟨blocks ++ [e'.messageDelta], messageStop, by rw [heq]; simp, rfl, ?_⟩
    intro fr hfr
    rcases List.mem_append.1 hfr with hfr | hfr
    · rintro (h | h) <;> exact absurd (h ▸ hblocks.2 fr hfr) (by decide)
    · rw [List.mem_singleton.1 hfr]
      simp [Endings.Terminal, Endings.anthropic, messageDelta]
  error := fun e message status => ⟨[], _, rfl, rfl, fun fr hfr => nomatch hfr⟩

/-- **Every untracked stream ends once.** Whatever the upstream sends, in whatever
chunks, the client gets exactly one terminal frame and nothing behind it, and the
frame is a failure exactly when an in-band error or a transport error comes before
the first `[DONE]`. -/
theorem runStream_endsOnce (uuid : Nat → String) (fromStr : String → Option Value)
    (responseId : String) (chunks : List UpstreamChunk) :
    Endings.responses.EndsOnce (FailsBeforeDone fromStr (signals chunks))
        (runStream (ResponsesEmitter.onEvent uuid) fromStr false responseId .new chunks).1 ∧
      Endings.anthropic.EndsOnce (FailsBeforeDone fromStr (signals chunks))
        (runStream (AnthropicEmitter.onEvent fromStr) fromStr false responseId .new chunks).1 :=
  ⟨(ResponsesEmitter.ends uuid).endsOnce (by decide) responseId .new chunks,
    (AnthropicEmitter.ends fromStr).endsOnce (by decide) responseId .new chunks⟩

end AiApiBridge
