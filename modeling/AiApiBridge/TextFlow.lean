import AiApiBridge.Wire.DeltaFrames
import AiApiBridge.WrittenEvents

/-!
# The text of a stream, end to end

Both emitters write one text frame for each piece of content and no other
(`Passes`). So the text a client reads off its frames is the content of the upstream's
chunks, whatever the cuts of the byte stream, the line ends, the fragments in between and
the bytes behind `[DONE]`, and whether usage is tracked or not (`streamText_eq`).
-/

set_option autoImplicit false

namespace AiApiBridge

open Transducer (Step runUntil andThen)
open Chat ChatStreamParser

/-! ## The loop -/

section Loop

variable {σ : Type} {textOf : SseFrame → Option String} {emit : Step σ CanonicalEvent SseFrame}
  {fromStr : String → Option Value} {track : Bool}

/-- Events without an error are all emitted. -/
theorem Passes.events (h : Passes textOf contentOf emit) {evs : List CanonicalEvent}
    (hevs : ∀ ev ∈ evs, ev.isError = false) (e : σ) :
    (runUntil (emitEvent emit) e evs).2 = false ∧
      (runUntil (emitEvent emit) e evs).1.2.filterMap textOf = evs.filterMap contentOf := by
  induction evs generalizing e with
  | nil => exact ⟨rfl, rfl⟩
  | cons ev evs ih =>
      have hgo : (emitEvent emit e ev).2 = false := hevs ev List.mem_cons_self
      obtain ⟨hrest, htext⟩ := ih (fun ev' hev' => hevs ev' (List.mem_cons_of_mem ev hev'))
        (emitEvent emit e ev).1.1
      rw [Transducer.runUntil_cons_go hgo]
      refine ⟨hrest, ?_⟩
      have hhead : (emitEvent emit e ev).1.2.filterMap textOf = (contentOf ev).toList := h e ev
      rw [List.filterMap_append, hhead, htext]
      cases hc : contentOf ev <;> simp [hc]

variable (track) in
/-- **A chunk before the end.** -/
theorem Passes.onChunk (h : Passes textOf contentOf emit) {s : StreamState σ}
    (hdone : s.done = false) {d : String} {json : Value} (hparsed : fromStr d = some json)
    (hjson : NoError json) :
    (onItem emit fromStr track s (.data d)).2 = false ∧
      (onItem emit fromStr track s (.data d)).1.1.done = false ∧
      (onItem emit fromStr track s (.data d)).1.2.filterMap textOf = (chunkContent json).toList := by
  have hevs : ∀ ev ∈ (s.parser.onChunk json).2, ev.isError = false :=
    fun ev hev => (quiet_onChunk hjson hev).2
  obtain ⟨hgo, htext⟩ := h.events hevs s.emitter
  rw [filterMap_contentOf_onChunk s.parser hjson] at htext
  cases track <;> simp [onItem, hparsed, hdone, hgo, htext]

/-- The last event has no text. -/
theorem Passes.text_closing (h : Passes textOf contentOf emit) (s : StreamState σ) :
    (closing emit s).filterMap textOf = [] := by
  rw [closing]
  split
  · rfl
  · exact h s.emitter .completed

/-- A `[DONE]` has no text when what follows it has none. -/
theorem Passes.done (h : Passes textOf contentOf emit) (s : StreamState σ) {sigs : List Signal}
    (hrest : ∀ s' : StreamState σ, s'.done = true →
      (signalFrames emit fromStr track s' sigs).filterMap textOf = []) :
    (signalFrames emit fromStr track s (.item .done :: sigs)).filterMap textOf = [] := by
  have hframes : (onSignal emit fromStr track s (.item .done)).1.2.filterMap textOf = [] :=
    h s.emitter .completed
  cases hstop : (onSignal emit fromStr track s (.item .done)).2 with
  | true =>
      -- tracking is off, and the loop ends here
      rw [signalFrames_stop emit fromStr track hstop, List.filterMap_append, hframes,
        h.text_closing]
      rfl
  | false =>
      have htrack : track = true := by simpa [onSignal, onItem] using hstop
      have hdone : (onSignal emit fromStr track s (.item .done)).1.1.done = true := by
        simp [onSignal, onItem, htrack]
      rw [signalFrames_go emit fromStr track hstop, List.filterMap_append, hframes, hrest _ hdone]
      rfl

/-- Behind `[DONE]` nothing is passed on any more. -/
theorem Passes.behindDone (h : Passes textOf contentOf emit) (items : List SseItem)
    {s : StreamState σ} (hdone : s.done = true) :
    (signalFrames emit fromStr track s (items.map .item)).filterMap textOf = [] := by
  induction items generalizing s with
  | nil => exact h.text_closing s
  | cons item items ih =>
      cases item with
      | done => exact h.done s fun s' hs' => ih hs'
      | data d =>
          have hquiet : ((onSignal emit fromStr track s (.item (.data d))).2 = false ∧
              (onSignal emit fromStr track s (.item (.data d))).1.1.done = true) ∧
              (onSignal emit fromStr track s (.item (.data d))).1.2 = [] := by
            cases hj : fromStr d <;> cases track <;> simp [onSignal, onItem, hj, hdone]
          rcases hquiet with ⟨⟨hgo, hdone'⟩, hframes⟩
          rw [List.map_cons, signalFrames_go emit fromStr track hgo, hframes, List.nil_append,
            ih hdone']

/-- What follows the chunks has no text. -/
theorem Passes.ending (h : Passes textOf contentOf emit) (s : StreamState σ)
    (ending : Option (Sse.EventStyle × List UInt8)) :
    (signalFrames emit fromStr track s ((Sse.endingItems ending).map .item)).filterMap textOf =
      [] := by
  cases ending with
  | none => exact h.text_closing s
  | some e => exact h.done s fun s' hs' => h.behindDone _ hs'

/-- **The loop over a written stream.** -/
theorem Passes.stream (h : Passes textOf contentOf emit) {toString : Value → String}
    {chunks : List Value} (hchunks : ∀ c ∈ chunks, fromStr (toString c) = some c ∧ NoError c)
    (ending : Option (Sse.EventStyle × List UInt8)) {s : StreamState σ} (hdone : s.done = false) :
    (signalFrames emit fromStr track s (chunks.map (fun c => .item (.data (toString c))) ++
        (Sse.endingItems ending).map .item)).filterMap textOf = chunks.filterMap chunkContent := by
  induction chunks generalizing s with
  | nil => exact h.ending s ending
  | cons c cs ih =>
      obtain ⟨hparsed, hjson⟩ := hchunks c List.mem_cons_self
      obtain ⟨hgo, hdone', htext⟩ := h.onChunk track hdone hparsed hjson
      have hgo' : (onSignal emit fromStr track s (.item (.data (toString c)))).2 = false := hgo
      have hrest := ih (fun c' hc' => hchunks c' (List.mem_cons_of_mem c hc')) hdone'
      rw [List.map_cons, List.cons_append, signalFrames_go emit fromStr track hgo',
        List.filterMap_append]
      apply (congrArg₂ _ htext hrest).trans
      cases hc : chunkContent c <;> simp [hc]

end Loop

/-! ## End to end -/

/-- The `content` of a chunk's delta. -/
def contentString (c : Value) : Option String :=
  (chunkDelta c).bind fun d => (d.get "content").bind Value.asStr

/-- Empty pieces of content are left out, which does not change the text. -/
theorem join_chunkContent (chunks : List Value) :
    String.join (chunks.filterMap chunkContent) = String.join (chunks.filterMap contentString) := by
  induction chunks with
  | nil => rfl
  | cons c cs ih =>
      have hc : chunkContent c = (contentString c).filter fun s => s ≠ "" := by
        cases hd : chunkDelta c <;> simp [chunkContent, contentString, hd, nonEmptyStr]
      cases hs : contentString c with
      | none => simpa [List.filterMap_cons, hc, hs] using ih
      | some s =>
          by_cases hempty : s = ""
          · simpa [List.filterMap_cons, hc, hs, hempty] using ih
          · simpa [List.filterMap_cons, hc, hs, hempty, Option.filter] using ih

/-- What the printer of JSON does with an object: the text starts with a brace, has no raw
line breaks, and parses to the object again. -/
structure Prints (fromStr : String → Option Value) (toString : Value → String) (c : Value) :
    Prop where
  printed : Sse.PrintedObject (toString c)
  parsed : fromStr (toString c) = some c

/-- The bytes of a stream of chunks, and of what the upstream writes behind them. -/
def upstreamBytes (toString : Value → String) (events : List (Sse.EventStyle × Value))
    (ending : Option (Sse.EventStyle × List UInt8)) : List UInt8 :=
  Sse.writeStream (events.map fun e => (e.1, toString e.2)) ending

/-- The text of the upstream. -/
def upstreamText (events : List (Sse.EventStyle × Value)) : String :=
  String.join (events.filterMap fun e => contentString e.2)

section Stream

variable {fromStr : String → Option Value} {toString : Value → String}
  {events : List (Sse.EventStyle × Value)} {pieces : List (List UInt8)}

/-- One emitter. -/
theorem Passes.text_runStream {σ : Type} {textOf : SseFrame → Option String}
    {emit : Step σ CanonicalEvent SseFrame} (h : Passes textOf contentOf emit) (new : σ)
    (track : Bool) (responseId : String) (herror : ∀ e ∈ events, NoError e.2)
    (hprints : ∀ e ∈ events, Prints fromStr toString e.2)
    (ending : Option (Sse.EventStyle × List UInt8))
    (hpieces : pieces.flatten = upstreamBytes toString events ending) :
    String.join ((runStream emit fromStr track responseId new (pieces.map .ok)).1.filterMap
      textOf) = upstreamText events := by
  have hprinted : ∀ e ∈ events.map (fun e => (e.1, toString e.2)), Sse.PrintedObject e.2 := by
    intro e he
    obtain ⟨e', he', rfl⟩ := List.mem_map.1 he
    exact (hprints e' he').printed
  have hchunks : ∀ c ∈ events.map Prod.snd, fromStr (toString c) = some c ∧ NoError c := by
    intro c hc
    obtain ⟨e, he, rfl⟩ := List.mem_map.1 hc
    exact ⟨(hprints e he).parsed, herror e he⟩
  -- the decoder gives the written chunks back, whatever the pieces
  have hsignals := Sse.signals_writeStream hprinted ending hpieces
  have hmap : (events.map fun e => (e.1, toString e.2)).map (fun e => Signal.item (.data e.2)) =
      (events.map Prod.snd).map fun c => .item (.data (toString c)) := by
    simp [Function.comp_def]
  rw [hmap] at hsignals
  rw [runStream_eq_signals, hsignals, h.stream hchunks ending rfl, join_chunkContent,
    List.filterMap_map]
  rfl

/-- **The text of a stream is conserved.** Chunks without an in-band error, each printed on
the line of an event, perhaps `[DONE]` and any bytes behind it, cut into pieces in any way:
the text in the frames of either dialect is the content of the chunks, whether usage is
tracked or not. -/
theorem streamText_eq (uuid : Nat → String) (track : Bool) (responseId : String)
    (herror : ∀ e ∈ events, NoError e.2) (hprints : ∀ e ∈ events, Prints fromStr toString e.2)
    (ending : Option (Sse.EventStyle × List UInt8))
    (hpieces : pieces.flatten = upstreamBytes toString events ending) :
    String.join ((runStream (ResponsesEmitter.onEvent uuid) fromStr track responseId .new
        (pieces.map .ok)).1.filterMap (responsesPiece .message)) = upstreamText events ∧
      String.join ((runStream (AnthropicEmitter.onEvent fromStr) fromStr track responseId .new
        (pieces.map .ok)).1.filterMap (anthropicPiece .message)) = upstreamText events :=
  ⟨(ResponsesEmitter.passes .message uuid).text_runStream .new track responseId herror hprints
      ending hpieces,
    (AnthropicEmitter.passes .message fromStr).text_runStream .new track responseId herror hprints
      ending hpieces⟩

end Stream

/-- Two pieces of content with LF and CRLF line ends, `[DONE]` twice, and a cut inside the
first character. -/
theorem streamText_eq_multibyte :
    let chunk := fun s => deltaChunk [("content", .string s)]
    let text := fun s : String =>
      "\x7b\"choices\":[\x7b\"delta\":\x7b\"content\":\"" ++ s ++ "\"\x7d\x7d]\x7d"
    let toString := fun v => if v = chunk "你" then text "你" else text "好"
    let fromStr := fun t =>
      if t = text "你" then some (chunk "你") else if t = text "好" then some (chunk "好") else none
    let events := [(⟨true, false⟩, chunk "你"), (⟨false, true⟩, chunk "好")]
    let ending := some (⟨true, false⟩, Sse.writeEvent ⟨true, false⟩ "[DONE]")
    let bytes := upstreamBytes toString events ending
    let pieces := [bytes.take 40, bytes.drop 40]
    String.join ((runStream (ResponsesEmitter.onEvent unaryId) fromStr true "r" .new
        (pieces.map .ok)).1.filterMap (responsesPiece .message)) = "你好" ∧
      String.join ((runStream (AnthropicEmitter.onEvent fromStr) fromStr true "r" .new
        (pieces.map .ok)).1.filterMap (anthropicPiece .message)) = "你好" := by
  intro chunk text toString fromStr events ending bytes pieces
  have herror : ∀ e ∈ events, NoError e.2 := by decide
  have hprints : ∀ e ∈ events, Prints fromStr toString e.2 := by
    intro e he
    have hcases : e.2 = chunk "你" ∨ e.2 = chunk "好" := by
      simp only [events, List.mem_cons, List.not_mem_nil, or_false] at he
      rcases he with rfl | rfl
      · exact Or.inl rfl
      · exact Or.inr rfl
    rcases hcases with h | h <;> rw [h] <;>
      exact ⟨⟨by decide, by decide, by decide⟩, by decide⟩
  -- the cut lies inside the first character
  have hpieces : pieces.flatten = upstreamBytes toString events ending := by
    simp [pieces, bytes]
  exact streamText_eq unaryId true "r" herror hprints ending hpieces

end AiApiBridge
