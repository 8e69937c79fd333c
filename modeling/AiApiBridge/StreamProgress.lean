import AiApiBridge.ReasoningFields
import AiApiBridge.StreamOpens
import AiApiBridge.TextFlow

/-!
# A stream on its way

A stream waits for its upstream between two reads. What a client has got by then is what the
emitter makes of the events that are complete, no less and no more, wherever the last read
ended: inside a character, a line or a separator (`streamProgress`). So no text is held back
until later bytes arrive, and nothing that has been sent is ever taken back.
-/

set_option autoImplicit false

namespace AiApiBridge

open Transducer (Step runUntil run)
open Chat ChatStreamParser

/-! ## What has arrived -/

namespace Sse

/-- The entries that are complete within the first bytes of what is written of them. -/
def completeWithin {α : Type} (write : α → List UInt8) : List α → Nat → List α
  | [], _ => []
  | a :: as, bytes =>
      if (write a).length ≤ bytes then a :: completeWithin write as (bytes - (write a).length)
      else []

theorem map_completeWithin {α β : Type} (f : α → β) (write : β → List UInt8) (as : List α)
    (bytes : Nat) :
    (completeWithin (write ∘ f) as bytes).map f = completeWithin write (as.map f) bytes := by
  induction as generalizing bytes with
  | nil => rfl
  | cons a as ih =>
      by_cases h : (write (f a)).length ≤ bytes <;> simp [completeWithin, h, ih]

theorem completeWithin_prefix {α : Type} (write : α → List UInt8) (as : List α) (bytes : Nat) :
    completeWithin write as bytes <+: as := by
  induction as generalizing bytes with
  | nil => exact List.prefix_refl _
  | cons a as ih =>
      rw [completeWithin]
      split
      · exact List.cons_prefix_cons.2 ⟨rfl, ih _⟩
      · exact List.nil_prefix

/-- A written text. -/
def writtenText (e : EventStyle × String) : List UInt8 := writeEvent e.1 e.2

/-- **There is no separator in a part of an event.** One found there would be the one at its
end. -/
theorem findSeparator_part {style : EventStyle} {data : String} (h : OnOneLine data)
    {part : List UInt8} (hpart : part <+: writeEvent style data)
    (hshort : part.length < (writeEvent style data).length) : findSeparator part = none := by
  have hline : '\n' ∉ dataLine style data.toList := notMem_dataLine (by decide) h.noLf
  have hwhole := findSeparator_separator style (lf_notMem_encode hline) []
  rw [List.append_nil] at hwhole
  obtain ⟨more, hmore⟩ := hpart
  cases hfind : findSeparator part with
  | none => rfl
  | some found =>
      rcases found with ⟨pos, len⟩
      have hbounds := findSeparator_framer.bounds hfind
      have hstable := findSeparator_framer.stable hfind more
      rw [hmore, writeEvent, hwhole] at hstable
      cases hstable
      rw [writeEvent, List.length_append] at hshort
      omega

/-- **The decoder gives out the complete events** of a part of a stream. -/
theorem drain_part {texts : List (EventStyle × String)} (h : ∀ e ∈ texts, PrintedObject e.2)
    {part : List UInt8} (hpart : part <+: writeStream texts none) :
    (Framing.drain findSeparator decodeBlock part).1 =
      (completeWithin writtenText texts part.length).map fun e => .data e.2 := by
  induction texts generalizing part with
  | nil =>
      rw [List.prefix_nil.1 hpart]
      rfl
  | cons e texts ih =>
      have hprinted := h e List.mem_cons_self
      have hsplit : writeStream (e :: texts) none = writtenText e ++ writeStream texts none := by
        simp [writeStream, writtenText]
      rw [hsplit] at hpart
      rw [completeWithin]
      split
      · rename_i hcomplete
        -- the first event is there in full
        obtain ⟨rest, rfl⟩ : writtenText e <+: part :=
          List.prefix_of_prefix_length_le (List.prefix_append _ _) hpart hcomplete
        have hrest := ih (fun e' he' => h e' (List.mem_cons_of_mem e he'))
          ((List.prefix_append_right_inj _).1 hpart)
        rw [List.length_append, Nat.add_sub_cancel_left, writtenText,
          drain_writeEvent e.1 hprinted.onOneLine, hrest,
          decodeBlock_dataLine e.1 hprinted.onOneLine, if_neg (trim_ne_done hprinted.brace)]
        rfl
      · rename_i hincomplete
        have hwithin : part <+: writtenText e :=
          List.prefix_of_prefix_length_le hpart (List.prefix_append _ _) (by omega)
        rw [Framing.drain_of_none decodeBlock
          (findSeparator_part hprinted.onOneLine hwithin (not_le.1 hincomplete))]
        rfl

end Sse

/-! ## What has been sent -/

section Sent

variable {σ : Type} (emit : Step σ CanonicalEvent SseFrame) (fromStr : String → Option Value)
  (track : Bool)

/-- The frames a stream has sent when it waits for more of its upstream. -/
def sentSoFar (responseId : String) (emitter : σ) (chunks : List UpstreamChunk) :
    List SseFrame :=
  (runUntil (onUpstreamChunk emit fromStr track)
    (SseDecoder.new, StreamState.new responseId emitter) chunks).1.2

/-- **Nothing is taken back**: the stream goes on from the frames sent, whatever comes. -/
theorem sentSoFar_prefix (responseId : String) (emitter : σ) (chunks later : List UpstreamChunk) :
    sentSoFar emit fromStr track responseId emitter chunks <+:
      (runStream emit fromStr track responseId emitter (chunks ++ later)).1 := by
  change _ <+: (runUntil (onUpstreamChunk emit fromStr track)
    (SseDecoder.new, StreamState.new responseId emitter) (chunks ++ later)).1.2 ++ _
  rw [sentSoFar]
  cases hstop : (runUntil (onUpstreamChunk emit fromStr track)
      (SseDecoder.new, StreamState.new responseId emitter) chunks).2 with
  | true =>
      rw [Transducer.runUntil_append_stop hstop]
      exact List.prefix_append _ _
  | false =>
      rw [Transducer.runUntil_append_go hstop, List.append_assoc]
      exact List.prefix_append _ _

theorem sentSoFar_eq_signals (responseId : String) (emitter : σ) (chunks : List UpstreamChunk) :
    sentSoFar emit fromStr track responseId emitter chunks =
      (runUntil (onSignal emit fromStr track) (StreamState.new responseId emitter)
        (signals chunks)).1.2 := by
  rw [sentSoFar, onUpstreamChunk_eq]
  exact congrArg (fun r => r.1.2) (Transducer.runUntil_nested decodeChunk
    (onSignal emit fromStr track) SseDecoder.new (StreamState.new responseId emitter) chunks)

/-- Events without an error are emitted one after the other. -/
theorem runUntil_emitEvent {evs : List CanonicalEvent} (hevs : ∀ ev ∈ evs, ev.isError = false)
    (e : σ) : runUntil (emitEvent emit) e evs = (run emit e evs, false) := by
  induction evs generalizing e with
  | nil => rfl
  | cons ev evs ih =>
      have hgo : (emitEvent emit e ev).2 = false := hevs ev List.mem_cons_self
      rw [Transducer.runUntil_cons_go hgo,
        ih fun ev' hev' => hevs ev' (List.mem_cons_of_mem ev hev')]
      rfl

/-- **The loop over chunks** emits the events of each of them. -/
theorem runUntil_chunks {toString : Value → String} {chunks : List Value}
    (hchunks : ∀ c ∈ chunks, fromStr (toString c) = some c ∧ NoError c) {s : StreamState σ}
    (hdone : s.done = false) :
    (runUntil (onSignal emit fromStr track) s
        (chunks.map fun c => .item (.data (toString c)))).1.2 =
      (run emit s.emitter (run onChunk s.parser chunks).2).2 := by
  induction chunks generalizing s with
  | nil => rfl
  | cons c cs ih =>
      obtain ⟨hparsed, hjson⟩ := hchunks c List.mem_cons_self
      have hevs : ∀ ev ∈ (s.parser.onChunk c).2, ev.isError = false :=
        fun ev hev => (quiet_onChunk hjson hev).2
      obtain ⟨s', hs'⟩ : ∃ s', s' = { s with
          parser := (s.parser.onChunk c).1
          emitter := (run emit s.emitter (s.parser.onChunk c).2).1
          caught := if track then s.caught.read c else s.caught } := ⟨_, rfl⟩
      have hstep : onSignal emit fromStr track s (.item (.data (toString c))) =
          ((s', (run emit s.emitter (s.parser.onChunk c).2).2), false) := by
        rw [hs']
        cases track <;>
          simp [onSignal, onItem, hparsed, hdone, runUntil_emitEvent emit hevs]
      have hgo : (onSignal emit fromStr track s (.item (.data (toString c)))).2 = false := by
        rw [hstep]
      have hrest := ih (fun c' hc' => hchunks c' (List.mem_cons_of_mem c hc')) (s := s')
        (by rw [hs']; exact hdone)
      rw [List.map_cons, Transducer.runUntil_cons_go hgo, hstep, Transducer.run_cons,
        Transducer.run_append_snd]
      simp only [hrest]
      rw [hs']

end Sent

/-! ## Progress -/

/-- The piece of text of a kind in a chunk. -/
def chunkPiece : TextKind → Value → Option String
  | .reasoning => chunkReasoning
  | .message => chunkContent

/-- What a client has been sent by a stream that waits, and the chunks that have arrived. -/
structure Progress {σ : Type} (emit : Step σ CanonicalEvent SseFrame) (new : σ)
    (piece : TextKind → SseFrame → Option String) (fromStr : String → Option Value) (track : Bool)
    (responseId : String) (pieces : List (List UInt8)) (arrived : List Value) : Prop where
  /-- All events of these chunks, and no other, have been translated. -/
  frames : sentSoFar emit fromStr track responseId new (pieces.map .ok) =
    (run emit new (run onChunk (.new responseId) arrived).2).2
  /-- The texts of these chunks, and no others, have been passed on. -/
  texts : ∀ k, (sentSoFar emit fromStr track responseId new (pieces.map .ok)).filterMap (piece k) =
    arrived.filterMap (chunkPiece k)
  /-- The stream goes on from there, whatever comes. -/
  kept : ∀ later, sentSoFar emit fromStr track responseId new (pieces.map .ok) <+:
    (runStream emit fromStr track responseId new (pieces.map .ok ++ later)).1

section Progress

variable {fromStr : String → Option Value} {toString : Value → String}
  {events : List (Sse.EventStyle × Value)} {pieces : List (List UInt8)}

/-- The chunks that have arrived with so many bytes. -/
def arrivedChunks (toString : Value → String) (events : List (Sse.EventStyle × Value))
    (bytes : Nat) : List Value :=
  (Sse.completeWithin (fun e => Sse.writeEvent e.1 (toString e.2)) events bytes).map Prod.snd

theorem filterMap_pieceOf_onChunk (k : TextKind) (p : ChatStreamParser) {c : Value}
    (h : NoError c) : (p.onChunk c).2.filterMap k.pieceOf = (chunkPiece k c).toList := by
  cases k with
  | reasoning => exact filterMap_reasoningOf_onChunk p h
  | message => exact filterMap_contentOf_onChunk p h

/-- **One dialect.** -/
theorem progress {σ : Type} {emit : Step σ CanonicalEvent SseFrame} {new : σ}
    {piece : TextKind → SseFrame → Option String}
    (hpasses : ∀ k, Passes (piece k) k.pieceOf emit) (track : Bool) (responseId : String)
    (herror : ∀ e ∈ events, NoError e.2) (hprints : ∀ e ∈ events, Prints fromStr toString e.2)
    (hpieces : pieces.flatten <+: upstreamBytes toString events none) :
    Progress emit new piece fromStr track responseId pieces
      (arrivedChunks toString events pieces.flatten.length) := by
  have harrived : ∀ c ∈ arrivedChunks toString events pieces.flatten.length,
      fromStr (toString c) = some c ∧ NoError c := by
    intro c hc
    obtain ⟨e, he, rfl⟩ := List.mem_map.1 hc
    have hmem := (Sse.completeWithin_prefix _ events _).subset he
    exact ⟨(hprints e hmem).parsed, herror e hmem⟩
  have hprinted : ∀ e ∈ events.map (fun e => (e.1, toString e.2)), Sse.PrintedObject e.2 := by
    intro e he
    obtain ⟨e', he', rfl⟩ := List.mem_map.1 he
    exact (hprints e' he').printed
  -- the decoder has given out the chunks that have arrived
  have hsignals : signals (pieces.map .ok) =
      (arrivedChunks toString events pieces.flatten.length).map
        fun c => .item (.data (toString c)) := by
    rw [Sse.signals_ok, Sse.drain_part hprinted hpieces, arrivedChunks, List.map_map, List.map_map,
      ← Sse.map_completeWithin, List.map_map]
    rfl
  have hframes : sentSoFar emit fromStr track responseId new (pieces.map .ok) =
      (run emit new (run onChunk (.new responseId)
        (arrivedChunks toString events pieces.flatten.length)).2).2 := by
    rw [sentSoFar_eq_signals, hsignals, runUntil_chunks emit fromStr track harrived rfl]
  refine ⟨hframes, ?_, fun later => sentSoFar_prefix emit fromStr track responseId new _ later⟩
  intro k
  rw [hframes, (hpasses k).run, filterMap_run_onChunk (filterMap_pieceOf_onChunk k)
    (.new responseId) fun c hc => (harrived c hc).2]

/-- **A stream keeps up with its upstream.** Chunks without an in-band error, printed as events
on one line each; a part of their bytes, cut in any way, has come in. Then the client of either
dialect has been sent what the emitter makes of the chunks whose last byte has come in: all their
text and reasoning, and nothing else; and this is how the stream goes on, whatever comes. -/
theorem streamProgress (uuid : Nat → String) (track : Bool) (responseId : String)
    (herror : ∀ e ∈ events, NoError e.2) (hprints : ∀ e ∈ events, Prints fromStr toString e.2)
    (hpieces : pieces.flatten <+: upstreamBytes toString events none) :
    Progress (ResponsesEmitter.onEvent uuid) .new responsesPiece fromStr track responseId pieces
        (arrivedChunks toString events pieces.flatten.length) ∧
      Progress (AnthropicEmitter.onEvent fromStr) .new anthropicPiece fromStr track responseId
        pieces (arrivedChunks toString events pieces.flatten.length) :=
  ⟨progress (fun k => ResponsesEmitter.passes k uuid) track responseId herror hprints hpieces,
    progress (fun k => AnthropicEmitter.passes k fromStr) track responseId herror hprints hpieces⟩

end Progress

/-- Two pieces of content, the second one cut inside its last character. -/
theorem streamProgress_multibyte :
    let chunk := fun s => deltaChunk [("content", .string s)]
    let text := fun s : String =>
      "\x7b\"choices\":[\x7b\"delta\":\x7b\"content\":\"" ++ s ++ "\"\x7d\x7d]\x7d"
    let toString := fun v => if v = chunk "你" then text "你" else text "好"
    let fromStr := fun t =>
      if t = text "你" then some (chunk "你") else if t = text "好" then some (chunk "好") else none
    let events := [(⟨true, false⟩, chunk "你"), (⟨false, true⟩, chunk "好")]
    let pieces := [(upstreamBytes toString events none).take 95]
    (sentSoFar (ResponsesEmitter.onEvent unaryId) fromStr true "r" .new
      (pieces.map .ok)).filterMap (responsesPiece .message) = ["你"] := by
  intro chunk text toString fromStr events pieces
  have herror : ∀ e ∈ events, NoError e.2 := by decide
  have hprints : ∀ e ∈ events, Prints fromStr toString e.2 := by
    intro e he
    have hcases : e.2 = chunk "你" ∨ e.2 = chunk "好" := by
      simp only [events, List.mem_cons, List.not_mem_nil, or_false] at he
      rcases he with rfl | rfl
      · exact Or.inl rfl
      · exact Or.inr rfl
    rcases hcases with h | h <;> rw [h] <;>
      exact ⟨⟨by decide, by decide, by decide⟩, by decide⟩
  have hpieces : pieces.flatten <+: upstreamBytes toString events none := by
    rw [List.flatten_singleton]
    exact List.take_prefix _ _
  have harrived : arrivedChunks toString events pieces.flatten.length = [chunk "你"] := by
    decide
  have hprogress := (streamProgress unaryId true "r" herror hprints hpieces).1.texts .message
  rw [harrived] at hprogress
  exact hprogress

end AiApiBridge
