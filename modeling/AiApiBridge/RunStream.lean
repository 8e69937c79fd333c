import AiApiBridge.Sse
import AiApiBridge.Wire.ChunkReading
import AiApiBridge.Wire.ResponsesEmitter
import AiApiBridge.Wire.AnthropicEmitter

/-!
# The upstream stream loop

`runStream` is `run_stream` of `server.rs`: it drives the upstream bytes through
the decoder, the chunk parser and an emitter, and, when usage tracking is on,
reads on behind `[DONE]` to catch the cost the upstream sends last. What the
client gets depends on the decoded items alone, so the loops over byte chunks,
items and events are one loop over signals (`runStream_eq_signals`), and tracking
goes unnoticed exactly when no `[DONE]` and no transport error follow the first
`[DONE]` (`trackingUnnoticed_iff`).

`fromStr` is `serde_json::from_str` at type `Value`. Two runs draw their item ids
from the same supply: that is what "up to generated ids" means here.
-/

set_option autoImplicit false

namespace AiApiBridge

open Transducer (Step runUntil nested BreakStep)

/-! ## Usage read off the stream -/

namespace Usage

/-- `parse_cost`: a number, or a decimal literal in a string. -/
def parseCost : Value → Option FloatValue
  | .number n => (Value.number n).asF64
  | .string s => FloatValue.parseDecimal (String.ofList (Sse.trim s.toList))
  | _ => none

/-- `tokens_from_usage`. -/
def tokensFromUsage (usage : Option Value) : Option Nat × Option Nat :=
  (usage.bind fun u => (u.get "prompt_tokens").bind Value.asU64,
    usage.bind fun u => (u.get "completion_tokens").bind Value.asU64)

end Usage

/-- What a tracked stream has caught so far. -/
structure Caught where
  cost : Option FloatValue
  promptTokens : Option Nat
  completionTokens : Option Nat
  deriving DecidableEq, Repr

/-- Catch the cost and the token counts of one event; later ones replace earlier
ones. -/
def Caught.read (c : Caught) (json : Value) : Caught :=
  let tokens := Usage.tokensFromUsage (json.get "usage")
  { cost := ((json.get "cost").bind Usage.parseCost).or c.cost
    promptTokens := tokens.1.or c.promptTokens
    completionTokens := tokens.2.or c.completionTokens }

/-! ## The loop -/

/-- The variables of the loop, without the decoder. -/
structure StreamState (σ : Type) where
  parser : ChatStreamParser
  emitter : σ
  completed : Bool
  done : Bool
  caught : Caught

/-- One chunk of the upstream: bytes, or a transport error with its text. -/
abbrev UpstreamChunk := Except String (List UInt8)

section Loop

variable {σ : Type} (emit : Step σ CanonicalEvent SseFrame) (fromStr : String → Option Value)
  (track : Bool)

/-- Emit one event. An error event breaks off every loop. -/
def emitEvent : BreakStep σ CanonicalEvent SseFrame := fun e ev => (emit e ev, ev.isError)

/-- One decoded item. -/
def onItem : BreakStep (StreamState σ) SseItem SseFrame := fun s item =>
  match item with
  | .data d =>
      match fromStr d with
      | none => ((s, []), false)
      | some json =>
          let s := if track then { s with caught := s.caught.read json } else s
          -- past the end of the stream only the usage is read
          if s.done then ((s, []), false)
          else
            let r := s.parser.onChunk json
            let r' := runUntil (emitEvent emit) s.emitter r.2
            (({ s with
                parser := r.1
                emitter := r'.1.1
                completed := s.completed || r'.2 }, r'.1.2), r'.2)
  | .done =>
      let r := emit s.emitter .completed
      -- a tracked stream is read on, an untracked one ends here
      (({ s with emitter := r.1, completed := true, done := s.done || track }, r.2), !track)

/-- One upstream chunk. -/
def onUpstreamChunk : BreakStep (SseDecoder × StreamState σ) UpstreamChunk SseFrame := fun s chunk =>
  match chunk with
  -- the decoded items are handled until one of them stops the stream
  | .ok bytes =>
      let r := s.1.push bytes
      let r' := runUntil (onItem emit fromStr track) s.2 r.2
      (((r.1, r'.1.1), r'.1.2), r'.2)
  -- a failed read is an error event, and the stream counts as completed
  | .error message =>
      let r := emit s.2.emitter (.error message 502)
      (((s.1, { s.2 with emitter := r.1, completed := true }), r.2), true)

/-- What is still emitted when the upstream has ended. -/
def closing (s : StreamState σ) : List SseFrame :=
  if s.completed then [] else (emit s.emitter .completed).2

/-- The frames of a stream, and what the recorder gets when there is one. -/
def runStream (responseId : String) (emitter : σ) (chunks : List UpstreamChunk) :
    List SseFrame × Option Caught :=
  let s : StreamState σ := ⟨.new responseId, emitter, false, false, ⟨none, none, none⟩⟩
  let r := runUntil (onUpstreamChunk emit fromStr track) (SseDecoder.new, s) chunks
  (r.1.2 ++ closing emit r.1.1.2, if track then some r.1.1.2.caught else none)

end Loop

/-! ## Signals -/

/-- What the loop reacts to: a decoded item or a transport error. -/
inductive Signal where
  | item (i : SseItem)
  | failure (message : String)
  deriving DecidableEq, Repr

/-- Whether a signal is a data event. -/
def Signal.isData : Signal → Bool
  | item (.data _) => true
  | _ => false

/-- Decode one upstream chunk. -/
def decodeChunk : Step SseDecoder UpstreamChunk Signal := fun d chunk =>
  match chunk with
  | .ok bytes => ((d.push bytes).1, (d.push bytes).2.map .item)
  | .error message => (d, [.failure message])

/-- The signals of an upstream stream. -/
def signals (chunks : List UpstreamChunk) : List Signal :=
  (Transducer.run decodeChunk .new chunks).2

section Signals

variable {σ : Type} (emit : Step σ CanonicalEvent SseFrame) (fromStr : String → Option Value)
  (track : Bool)

/-- The loop on one signal. -/
def onSignal : BreakStep (StreamState σ) Signal SseFrame := fun s signal =>
  match signal with
  | .item i => onItem emit fromStr track s i
  | .failure message =>
      let r := emit s.emitter (.error message 502)
      (({ s with emitter := r.1, completed := true }, r.2), true)

/-- The frames of a stream of signals. -/
def signalFrames (s : StreamState σ) (sigs : List Signal) : List SseFrame :=
  let r := runUntil (onSignal emit fromStr track) s sigs
  r.1.2 ++ closing emit r.1.1

theorem signalFrames_stop {s : StreamState σ} {sig : Signal}
    (h : (onSignal emit fromStr track s sig).2 = true) (sigs : List Signal) :
    signalFrames emit fromStr track s (sig :: sigs) =
      (onSignal emit fromStr track s sig).1.2 ++
        closing emit (onSignal emit fromStr track s sig).1.1 := by
  rw [signalFrames, Transducer.runUntil_cons_stop h]

theorem signalFrames_go {s : StreamState σ} {sig : Signal}
    (h : (onSignal emit fromStr track s sig).2 = false) (sigs : List Signal) :
    signalFrames emit fromStr track s (sig :: sigs) =
      (onSignal emit fromStr track s sig).1.2 ++
        signalFrames emit fromStr track (onSignal emit fromStr track s sig).1.1 sigs := by
  rw [signalFrames, Transducer.runUntil_cons_go h, List.append_assoc, signalFrames]

theorem onUpstreamChunk_eq :
    onUpstreamChunk emit fromStr track = nested decodeChunk (onSignal emit fromStr track) := by
  funext s chunk
  cases chunk with
  | ok bytes =>
      simp only [onUpstreamChunk, nested, decodeChunk, Transducer.runUntil_map]
      rfl
  | error message => rfl

/-- **The stream loop is a loop over signals.** -/
theorem runStream_eq_signals (responseId : String) (emitter : σ) (chunks : List UpstreamChunk) :
    (runStream emit fromStr track responseId emitter chunks).1 =
      signalFrames emit fromStr track
        ⟨.new responseId, emitter, false, false, ⟨none, none, none⟩⟩ (signals chunks) := by
  have h := Transducer.runUntil_nested decodeChunk (onSignal emit fromStr track) SseDecoder.new
    ⟨.new responseId, emitter, false, false, ⟨none, none, none⟩⟩ chunks
  rw [← onUpstreamChunk_eq] at h
  rw [signalFrames, signals, ← h]
  rfl

end Signals

/-! ## What tracking adds -/

section Tracking

open Chat ChatStreamParser

variable {σ : Type} (emit : Step σ CanonicalEvent SseFrame) (fromStr : String → Option Value)

/-- Whether a data event is an in-band error of the upstream. -/
def failsInBand (d : String) : Bool :=
  ((fromStr d).bind fun json => nonNull (json.get "error")).isSome

/-- The signals behind the `[DONE]` at which an untracked stream ends: none when
an error ends the stream first. -/
def behindDone : List Signal → List Signal
  | [] => []
  | .failure _ :: _ => []
  | .item .done :: rest => rest
  | .item (.data d) :: rest => if failsInBand fromStr d then [] else behindDone rest

/-- An upstream error is the only event of its chunk; other chunks have none. -/
theorem any_isError_onChunk (p : ChatStreamParser) (json : Value) :
    (p.onChunk json).2.any CanonicalEvent.isError = (nonNull (json.get "error")).isSome := by
  cases he : nonNull (json.get "error") with
  | some err =>
      rw [onChunk_error p he]
      rfl
  | none => exact List.any_eq_false.2 fun ev hev => by simp [(quiet_onChunk he hev).2]

/-- The same to the client: only what has been caught may differ. -/
def SameStream (s t : StreamState σ) : Prop :=
  s.parser = t.parser ∧ s.emitter = t.emitter ∧ s.completed = t.completed ∧ s.done = t.done

theorem SameStream.closing_eq {s t : StreamState σ} (h : SameStream s t) :
    closing emit s = closing emit t := by
  rw [closing, closing, h.2.1, h.2.2.1]

variable {emit fromStr}

/-- A data event before the end: tracking makes no difference, and only an in-band
error breaks off the loop. -/
theorem onItem_data {s t : StreamState σ} (h : SameStream s t) (hdone : t.done = false)
    (d : String) :
    SameStream (onItem emit fromStr true s (.data d)).1.1 (onItem emit fromStr false t (.data d)).1.1 ∧
      (onItem emit fromStr true s (.data d)).1.2 = (onItem emit fromStr false t (.data d)).1.2 ∧
      (onItem emit fromStr true s (.data d)).2 = failsInBand fromStr d ∧
      (onItem emit fromStr false t (.data d)).2 = failsInBand fromStr d ∧
      (onItem emit fromStr false t (.data d)).1.1.done = false := by
  rcases h with ⟨hparser, hemitter, hcompleted, hd⟩
  have hdone' : s.done = false := hd.trans hdone
  cases hj : fromStr d with
  | none => simp [onItem, hj, failsInBand, SameStream, hparser, hemitter, hcompleted, hd, hdone]
  | some json =>
      have hstop : ∀ e, (runUntil (emitEvent emit) e (t.parser.onChunk json).2).2 =
          (nonNull (json.get "error")).isSome := fun e => by
        rw [Transducer.runUntil_stops (emitEvent emit) CanonicalEvent.isError fun _ _ => rfl,
          any_isError_onChunk]
      simp [onItem, hj, failsInBand, SameStream, hparser, hemitter, hcompleted, hdone, hdone', hstop]

/-- What has been completed stays so. -/
theorem completed_runUntil {s : StreamState σ} (hs : s.completed = true) (sigs : List Signal) :
    (runUntil (onSignal emit fromStr true) s sigs).1.1.completed = true := by
  induction sigs generalizing s with
  | nil => exact hs
  | cons sig sigs ih =>
      have hstep : (onSignal emit fromStr true s sig).1.1.completed = true := by
        cases sig with
        | failure message => rfl
        | item i =>
            cases i with
            | done => rfl
            | data d =>
                cases hj : fromStr d <;> by_cases hd : s.done <;>
                  simp [onSignal, onItem, hj, hd, hs]
      cases hstop : (onSignal emit fromStr true s sig).2 with
      | true => rw [Transducer.runUntil_cons_stop hstop, hstep]
      | false =>
          rw [Transducer.runUntil_cons_go hstop]
          exact ih hstep

/-- A tracked stream behind its `[DONE]`: data is read in silence, everything else
is heard. -/
theorem runUntil_behindDone (hcompleted : ∀ e, (emit e .completed).2 ≠ [])
    (herror : ∀ e message, (emit e (.error message 502)).2 ≠ []) {s : StreamState σ}
    (hs : s.done = true) (sigs : List Signal) :
    (runUntil (onSignal emit fromStr true) s sigs).1.2 = [] ↔ ∀ sig ∈ sigs, sig.isData = true := by
  induction sigs generalizing s with
  | nil => simp [runUntil]
  | cons sig sigs ih =>
      cases sig with
      | failure message =>
          rw [Transducer.runUntil_cons_stop rfl]
          simp [onSignal, herror, Signal.isData]
      | item i =>
          cases i with
          | done =>
              rw [Transducer.runUntil_cons_go rfl]
              simp [onSignal, onItem, hcompleted, Signal.isData]
          | data d =>
              -- data behind the mark is read for its usage and writes no frame
              have hquiet : ((onSignal emit fromStr true s (.item (.data d))).1.2 = [] ∧
                  (onSignal emit fromStr true s (.item (.data d))).2 = false) ∧
                  (onSignal emit fromStr true s (.item (.data d))).1.1.done = true := by
                cases hj : fromStr d <;> simp [onSignal, onItem, hj, hs]
              rcases hquiet with ⟨⟨hframes, hgo⟩, hdone⟩
              rw [Transducer.runUntil_cons_go hgo, hframes, List.nil_append, ih hdone]
              simp [Signal.isData]

variable (emit fromStr) in
/-- **A tracked stream is the untracked one, and then what follows `[DONE]`.** -/
theorem signalFrames_tracked (sigs : List Signal) {s t : StreamState σ} (h : SameStream s t)
    (hdone : t.done = false) :
    ∃ s', s'.done = true ∧ signalFrames emit fromStr true s sigs =
      signalFrames emit fromStr false t sigs ++
        (runUntil (onSignal emit fromStr true) s' (behindDone fromStr sigs)).1.2 := by
  induction sigs generalizing s t with
  | nil =>
      refine ⟨{ s with done := true }, rfl, ?_⟩
      rw [signalFrames, signalFrames, runUntil, runUntil, h.closing_eq emit]
      exact (List.append_nil _).symm
  | cons sig sigs ih =>
      cases sig with
      | failure message =>
          refine ⟨{ s with done := true }, rfl, ?_⟩
          -- a failed read stops both
          rw [signalFrames_stop emit fromStr true rfl, signalFrames_stop emit fromStr false rfl]
          simp [onSignal, closing, behindDone, runUntil, h.2.1]
      | item i =>
          cases i with
          | done =>
              refine ⟨(onSignal emit fromStr true s (.item .done)).1.1, by simp [onSignal, onItem], ?_⟩
              -- here they part: the one that tracks the mark reads on, completed, and
              -- sends no more closing
              have hstop : (onSignal emit fromStr false t (.item .done)).2 = true := rfl
              have hgo : (onSignal emit fromStr true s (.item .done)).2 = false := rfl
              have hquiet : ∀ s' : StreamState σ, s'.completed = true →
                  signalFrames emit fromStr true s' sigs =
                    (runUntil (onSignal emit fromStr true) s' sigs).1.2 := by
                intro s' hs'
                rw [signalFrames, closing, if_pos (completed_runUntil hs' sigs), List.append_nil]
              rw [signalFrames_go emit fromStr true hgo, signalFrames_stop emit fromStr false hstop,
                hquiet _ rfl]
              simp [onSignal, onItem, closing, behindDone, h.2.1]
          | data d =>
              obtain ⟨hsame, hframes, hstop, hstop', hdone'⟩ := onItem_data h hdone d
              cases hf : failsInBand fromStr d with
              | true =>
                  refine ⟨{ s with done := true }, rfl, ?_⟩
                  -- an error in band stops both, so nothing is read behind a mark
                  have hs : (onSignal emit fromStr true s (.item (.data d))).2 = true :=
                    hstop.trans hf
                  have ht : (onSignal emit fromStr false t (.item (.data d))).2 = true :=
                    hstop'.trans hf
                  have hbehind : behindDone fromStr (.item (.data d) :: sigs) = [] := by
                    simp [behindDone, hf]
                  rw [signalFrames_stop emit fromStr true hs,
                    signalFrames_stop emit fromStr false ht, hbehind]
                  exact (congrArg₂ _ hframes (hsame.closing_eq emit)).trans
                    (List.append_nil _).symm
              | false =>
                  -- both go on, in states that differ in the mark only
                  obtain ⟨s', hs', heq⟩ := ih hsame hdone'
                  refine ⟨s', hs', ?_⟩
                  have hs : (onSignal emit fromStr true s (.item (.data d))).2 = false :=
                    hstop.trans hf
                  have ht : (onSignal emit fromStr false t (.item (.data d))).2 = false :=
                    hstop'.trans hf
                  have hbehind : behindDone fromStr (.item (.data d) :: sigs) =
                      behindDone fromStr sigs := by
                    simp [behindDone, hf]
                  rw [signalFrames_go emit fromStr true hs, signalFrames_go emit fromStr false ht,
                    hbehind, List.append_assoc]
                  exact congrArg₂ _ hframes heq

/-- **When a client cannot tell that usage is tracked.** -/
theorem runStream_tracked_eq_iff (hcompleted : ∀ e, (emit e .completed).2 ≠ [])
    (herror : ∀ e message, (emit e (.error message 502)).2 ≠ []) (responseId : String) (emitter : σ)
    (chunks : List UpstreamChunk) :
    (runStream emit fromStr true responseId emitter chunks).1 =
        (runStream emit fromStr false responseId emitter chunks).1 ↔
      ∀ sig ∈ behindDone fromStr (signals chunks), sig.isData = true := by
  rw [runStream_eq_signals, runStream_eq_signals]
  obtain ⟨s', hs', heq⟩ := signalFrames_tracked emit fromStr (signals chunks)
    (s := ⟨.new responseId, emitter, false, false, ⟨none, none, none⟩⟩)
    (t := ⟨.new responseId, emitter, false, false, ⟨none, none, none⟩⟩) ⟨rfl, rfl, rfl, rfl⟩ rfl
  rw [heq, ← runUntil_behindDone hcompleted herror hs']
  exact List.append_right_eq_self

end Tracking

/-! ## Both dialects -/

theorem ResponsesEmitter.number_eq_nil {seq : Nat} {frames : List SseFrame} :
    number seq frames = [] ↔ frames = [] := by
  cases frames <;> simp [number]

theorem ResponsesEmitter.onEvent_completed_ne (uuid : Nat → String) (e : ResponsesEmitter) :
    (e.onEvent uuid .completed).2 ≠ [] := by
  simp [onEvent, onEventCore, number_eq_nil]

theorem ResponsesEmitter.onEvent_error_ne (uuid : Nat → String) (e : ResponsesEmitter)
    (message : String) : (e.onEvent uuid (.error message 502)).2 ≠ [] := by
  simp [onEvent, onEventCore, number_eq_nil]

theorem AnthropicEmitter.onEvent_completed_ne (fromStr : String → Option Value)
    (e : AnthropicEmitter) : (e.onEvent fromStr .completed).2 ≠ [] := by
  simp [onEvent]

theorem AnthropicEmitter.onEvent_error_ne (fromStr : String → Option Value)
    (e : AnthropicEmitter) (message : String) :
    (e.onEvent fromStr (.error message 502)).2 ≠ [] := by
  simp [onEvent]

/-- A client of either dialect gets the same frames whether the stream is tracked
or not. -/
def TrackingUnnoticed (uuid : Nat → String) (fromStr : String → Option Value) (responseId : String)
    (chunks : List UpstreamChunk) : Prop :=
  (runStream (ResponsesEmitter.onEvent uuid) fromStr true responseId .new chunks).1 =
      (runStream (ResponsesEmitter.onEvent uuid) fromStr false responseId .new chunks).1 ∧
    (runStream (AnthropicEmitter.onEvent fromStr) fromStr true responseId .new chunks).1 =
      (runStream (AnthropicEmitter.onEvent fromStr) fromStr false responseId .new chunks).1

/-- **When tracking goes unnoticed**: nothing but data follows the first `[DONE]`
that the stream reaches. -/
theorem trackingUnnoticed_iff (uuid : Nat → String) (fromStr : String → Option Value)
    (responseId : String) (chunks : List UpstreamChunk) :
    TrackingUnnoticed uuid fromStr responseId chunks ↔
      ∀ sig ∈ behindDone fromStr (signals chunks), sig.isData = true := by
  rw [TrackingUnnoticed,
    runStream_tracked_eq_iff (ResponsesEmitter.onEvent_completed_ne uuid)
      (ResponsesEmitter.onEvent_error_ne uuid),
    runStream_tracked_eq_iff (AnthropicEmitter.onEvent_completed_ne fromStr)
      (AnthropicEmitter.onEvent_error_ne fromStr), and_self]

/-- Two `[DONE]` events in one chunk: a tracked stream is completed twice. -/
theorem not_trackingUnnoticed_doneTwice :
    ¬ TrackingUnnoticed (fun n => Nat.repr n) (fun _ => none) "resp_1"
      [.ok [100, 97, 116, 97, 58, 32, 91, 68, 79, 78, 69, 93, 10, 10,
        100, 97, 116, 97, 58, 32, 91, 68, 79, 78, 69, 93, 10, 10]] := by
  rintro ⟨h, -⟩
  exact absurd (congrArg List.length h) (by decide)

end AiApiBridge
