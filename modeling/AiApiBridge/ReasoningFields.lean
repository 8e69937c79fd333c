import AiApiBridge.Completions
import AiApiBridge.Wire.DeltaFrames

/-!
# The two names of reasoning

Upstreams put reasoning under `reasoning_content` or under `reasoning`. The translators
turn to the second when the first is not there at all; a `null` or an empty text there
hides it. The reasoning a client gets is that of the upstream exactly when no delta, and
no message, hides its reasoning in this way (`reasoningArrives_iff_shown`).
-/

set_option autoImplicit false

namespace AiApiBridge

open Chat ChatStreamParser

/-! ## The reasoning of an object -/

namespace Chat

/-- The reasoning text of a delta or a message: `reasoning_content` when it is a string
with a text, the string `reasoning` otherwise. -/
def upstreamReasoning (v : Value) : Option String :=
  (nonEmptyStr (v.get "reasoning_content")).or ((v.get "reasoning").bind Value.asStr)

/-- `reasoning_content` is there without a text, and `reasoning` has one. -/
def HidesReasoning (v : Value) : Prop :=
  v.get "reasoning_content" ≠ none ∧ nonEmptyStr (v.get "reasoning_content") = none ∧
    nonEmptyStr (v.get "reasoning") ≠ none

instance (v : Value) : Decidable (HidesReasoning v) :=
  inferInstanceAs (Decidable (_ ∧ _ ∧ _))

/-- A text that is empty says as much as none. -/
theorem nonEmptyStr_getD (v : Option Value) :
    (nonEmptyStr v).getD "" = (v.bind Value.asStr).getD "" := by
  rw [nonEmptyStr]
  cases v.bind Value.asStr with
  | none => rfl
  | some s => by_cases h : s = "" <;> simp [h, Option.filter]

theorem reasoningText_of_hides {v : Value} (h : HidesReasoning v) : reasoningText v = none := by
  rcases h with ⟨hthere, hnone, -⟩
  rcases Option.ne_none_iff_exists'.mp hthere with ⟨w, hw⟩
  rw [reasoningText, hw, Option.some_or, ← hw, hnone]

/-- **What the translators read** is the reasoning text unless it is hidden. -/
theorem reasoningText_eq_iff (v : Value) :
    (reasoningText v).getD "" = (upstreamReasoning v).getD "" ↔ ¬ HidesReasoning v := by
  constructor
  · intro heq hhides
    rw [reasoningText_of_hides hhides] at heq
    rcases hhides with ⟨-, hnone, htext⟩
    rcases Option.ne_none_iff_exists'.mp htext with ⟨s, hs⟩
    rw [upstreamReasoning, hnone, Option.none_or, ← nonEmptyStr_getD, hs] at heq
    exact nonEmptyStr_ne_empty hs heq.symm
  · intro hshown
    rw [reasoningText, upstreamReasoning]
    cases hc : v.get "reasoning_content" with
    | none => simpa [nonEmptyStr] using nonEmptyStr_getD (v.get "reasoning")
    | some w =>
        rw [Option.some_or]
        cases hn : nonEmptyStr (some w) with
        | some s => rfl
        | none =>
            -- then the other name has no text either
            have hother : nonEmptyStr (v.get "reasoning") = none := by
              by_contra htext
              exact hshown ⟨by simp [hc], by rw [hc, hn], htext⟩
            rw [Option.none_or, ← nonEmptyStr_getD, hother]

/-- The reasoning text of a chunk's delta. -/
def chunkUpstream (c : Value) : Option String := (chunkDelta c).bind upstreamReasoning

/-- The reasoning text of a completion's message. -/
def messageUpstream (resp : Value) : Option String := (messageOf resp).bind upstreamReasoning

end Chat

/-! ## Texts put together -/

section Join

variable {α : Type} {f g : α → Option String} {l : List α}

theorem join_filterMap_cons (f : α → Option String) (a : α) (l : List α) :
    String.join ((a :: l).filterMap f) = (f a).getD "" ++ String.join (l.filterMap f) := by
  cases hf : f a <;> simp [hf, String.join_cons]

/-- A reader that leaves pieces out makes a text that is no longer. -/
theorem length_join_le (h : ∀ a ∈ l, (f a).getD "" = (g a).getD "" ∨ f a = none) :
    (String.join (l.filterMap f)).length ≤ (String.join (l.filterMap g)).length := by
  induction l with
  | nil => exact Nat.le_refl _
  | cons a l ih =>
      rw [join_filterMap_cons, join_filterMap_cons, String.length_append, String.length_append]
      have hle := ih fun b hb => h b (List.mem_cons_of_mem a hb)
      rcases h a List.mem_cons_self with heq | hnone
      · rw [heq]
        omega
      · rw [hnone, Option.getD_none, String.length_empty]
        omega

/-- **The texts are the same** exactly when no piece with a text was left out. -/
theorem join_eq_iff (h : ∀ a ∈ l, (f a).getD "" = (g a).getD "" ∨ f a = none) :
    String.join (l.filterMap f) = String.join (l.filterMap g) ↔
      ∀ a ∈ l, (f a).getD "" = (g a).getD "" := by
  induction l with
  | nil => simp
  | cons a l ih =>
      have htail : ∀ b ∈ l, (f b).getD "" = (g b).getD "" ∨ f b = none := fun b hb =>
        h b (List.mem_cons_of_mem a hb)
      rw [join_filterMap_cons, join_filterMap_cons, List.forall_mem_cons, ← ih htail]
      rcases h a List.mem_cons_self with heq | hnone
      · rw [heq]
        simp
      · rw [hnone, Option.getD_none, String.empty_append]
        constructor
        · intro heq
          -- what was left out has no length, so no text
          have hle := length_join_le htail
          have hlength := congrArg String.length heq
          rw [String.length_append] at hlength
          have hempty : (g a).getD "" = "" := String.length_eq_zero_iff.mp (by omega)
          rw [hempty, String.empty_append] at heq
          exact ⟨hempty.symm, heq⟩
        · rintro ⟨hempty, heq⟩
          rw [← hempty, String.empty_append, heq]

end Join

/-! ## Events and frames -/

/-- The reasoning deltas of the events, and those in the frames that either emitter makes
of them, put together are the given texts. -/
structure ReasoningArrives (uuid : Nat → String) (fromStr : String → Option Value)
    (r : ResponsesEmitter) (a : AnthropicEmitter) (evs : List CanonicalEvent)
    (texts : List String) : Prop where
  events : String.join (evs.filterMap reasoningOf) = String.join texts
  responses : String.join ((Transducer.run (ResponsesEmitter.onEvent uuid) r evs).2.filterMap
    (responsesPiece .reasoning)) = String.join texts
  anthropic : String.join ((Transducer.run (AnthropicEmitter.onEvent fromStr) a evs).2.filterMap
    (anthropicPiece .reasoning)) = String.join texts

section Arrival

variable (uuid : Nat → String) (fromStr : String → Option Value) (r : ResponsesEmitter)
  (a : AnthropicEmitter)

/-- Neither emitter adds to the reasoning of the events or loses any. -/
theorem reasoningArrives_iff_events {evs : List CanonicalEvent} {texts : List String} :
    ReasoningArrives uuid fromStr r a evs texts ↔
      String.join (evs.filterMap reasoningOf) = String.join texts := by
  have hresponses : (Transducer.run (ResponsesEmitter.onEvent uuid) r evs).2.filterMap
      (responsesPiece .reasoning) = evs.filterMap reasoningOf :=
    (ResponsesEmitter.passes .reasoning uuid).run r evs
  have hanthropic : (Transducer.run (AnthropicEmitter.onEvent fromStr) a evs).2.filterMap
      (anthropicPiece .reasoning) = evs.filterMap reasoningOf :=
    (AnthropicEmitter.passes .reasoning fromStr).run a evs
  constructor
  · exact ReasoningArrives.events
  · intro h
    exact ⟨h, hresponses ▸ h, hanthropic ▸ h⟩

/-- An object behind an option hides its reasoning. -/
theorem bind_reasoningText_eq_iff (o : Option Value) :
    (o.bind reasoningText).getD "" = (o.bind upstreamReasoning).getD "" ↔
      ∀ v, o = some v → ¬ HidesReasoning v := by
  cases o with
  | none => simp
  | some v =>
      rw [Option.bind_some, Option.bind_some, reasoningText_eq_iff]
      simp

theorem bind_reasoningText_eq_or (o : Option Value) :
    (o.bind reasoningText).getD "" = (o.bind upstreamReasoning).getD "" ∨
      o.bind reasoningText = none := by
  cases o with
  | none => exact Or.inr rfl
  | some v =>
      by_cases h : HidesReasoning v
      · exact Or.inr (reasoningText_of_hides h)
      · exact Or.inl ((reasoningText_eq_iff v).mpr h)

/-- **A stream.** -/
theorem reasoningArrives_stream {chunks : List Value} (hchunks : ∀ c ∈ chunks, NoError c)
    (p : ChatStreamParser) :
    ReasoningArrives uuid fromStr r a (Transducer.run onChunk p chunks).2
        (chunks.filterMap chunkUpstream) ↔
      ∀ c ∈ chunks, ∀ d, chunkDelta c = some d → ¬ HidesReasoning d := by
  have hpieces : ∀ c ∈ chunks,
      (chunkReasoning c).getD "" = (chunkUpstream c).getD "" ∨ chunkReasoning c = none :=
    fun c _ => bind_reasoningText_eq_or (chunkDelta c)
  rw [reasoningArrives_iff_events, filterMap_run_onChunk filterMap_reasoningOf_onChunk p hchunks,
    join_eq_iff hpieces]
  exact forall₂_congr fun c _ => bind_reasoningText_eq_iff (chunkDelta c)

/-- The reasoning events of a completion. -/
theorem join_completionToEvents (resp : Value) (responseId : String) :
    String.join ((completionToEvents resp responseId).filterMap reasoningOf) =
      ((messageOf resp).bind reasoningText).getD "" := by
  have hthought : ∀ t, String.join ((textEvents .reasoningDelta t).filterMap reasoningOf) = t := by
    intro t
    by_cases h : t = "" <;> simp [textEvents, h, reasoningOf]
  have hcontent : ∀ t, (textEvents .textDelta t).filterMap reasoningOf = [] := by
    intro t
    by_cases h : t = "" <;> simp [textEvents, h, List.filterMap_cons, reasoningOf]
  have hcalls : ∀ (calls : List ToolCall) (n : Nat),
      (callsEvents n calls).filterMap reasoningOf = [] := by
    intro calls
    induction calls with
    | nil => intro n; rfl
    | cons call calls ih =>
        intro n
        rw [callsEvents, List.filterMap_append, ih, List.append_nil]
        by_cases h : call.arguments = "" <;>
          simp [callEvents, h, List.filterMap_cons, reasoningOf]
  have husage : ∀ o : Option Value, (o.map usageEvent).toList.filterMap reasoningOf = [] := by
    intro o
    cases o <;> rfl
  rw [completionToEvents_eq, completionEvents]
  simp only [List.filterMap_append, hcontent, hcalls, husage, List.append_nil, String.join_append,
    hthought]
  simp [completionOf, List.filterMap_cons, reasoningOf]

/-- **A completion.** -/
theorem reasoningArrives_completion (resp : Value) (responseId : String) :
    ReasoningArrives uuid fromStr r a (completionToEvents resp responseId)
        (messageUpstream resp).toList ↔
      ∀ msg, messageOf resp = some msg → ¬ HidesReasoning msg := by
  have htexts : String.join (messageUpstream resp).toList = (messageUpstream resp).getD "" := by
    cases messageUpstream resp <;> simp
  rw [reasoningArrives_iff_events, join_completionToEvents, htexts]
  exact bind_reasoningText_eq_iff (messageOf resp)

end Arrival

/-- **When the reasoning arrives**: when no delta and no message hides it. -/
theorem reasoningArrives_iff_shown (uuid : Nat → String) (fromStr : String → Option Value)
    (r : ResponsesEmitter) (a : AnthropicEmitter) :
    (∀ chunks : List Value, (∀ c ∈ chunks, NoError c) → ∀ p : ChatStreamParser,
      (ReasoningArrives uuid fromStr r a (Transducer.run onChunk p chunks).2
          (chunks.filterMap chunkUpstream) ↔
        ∀ c ∈ chunks, ∀ d, chunkDelta c = some d → ¬ HidesReasoning d)) ∧
    ∀ (resp : Value) (responseId : String),
      (ReasoningArrives uuid fromStr r a (completionToEvents resp responseId)
          (messageUpstream resp).toList ↔
        ∀ msg, messageOf resp = some msg → ¬ HidesReasoning msg) := by
  constructor
  · intro chunks hchunks p
    exact reasoningArrives_stream uuid fromStr r a hchunks p
  · intro resp responseId
    exact reasoningArrives_completion uuid fromStr r a resp responseId

/-- A delta with `"reasoning_content": null` and its text under `reasoning`. -/
def nullAndReasoning : Map := [("reasoning_content", .null), ("reasoning", .string "hm")]

/-- A completion with this message. -/
def completionWith (message : Map) : Value :=
  .object [("choices", .array [.object [("message", .object message)]])]

/-- The first name in one chunk and the second in the next are both read. -/
theorem reasoningArrives_iff_mixed :
    ReasoningArrives unaryId (fun _ => none) .new .new
        (Transducer.run onChunk (new "r") [deltaChunk [("reasoning_content", .string "h")],
          deltaChunk [("reasoning", .string "m")]]).2
        ([deltaChunk [("reasoning_content", .string "h")],
          deltaChunk [("reasoning", .string "m")]].filterMap chunkUpstream) ↔
      ∀ c ∈ [deltaChunk [("reasoning_content", .string "h")],
          deltaChunk [("reasoning", .string "m")]],
        ∀ d, chunkDelta c = some d → ¬ HidesReasoning d :=
  (reasoningArrives_iff_shown unaryId (fun _ => none) .new .new).1 _ (by decide) (new "r")

/-- A `null` under the first name hides the text under the second, in a stream and in a
completion. -/
theorem not_reasoningArrives_null :
    NoError (deltaChunk nullAndReasoning) ∧
      chunkUpstream (deltaChunk nullAndReasoning) = some "hm" ∧
      ¬ ReasoningArrives unaryId (fun _ => none) .new .new
        (Transducer.run onChunk (new "r") [deltaChunk nullAndReasoning]).2
        ([deltaChunk nullAndReasoning].filterMap chunkUpstream) ∧
      messageUpstream (completionWith nullAndReasoning) = some "hm" ∧
      ¬ ReasoningArrives unaryId (fun _ => none) .new .new
        (completionToEvents (completionWith nullAndReasoning) "r")
        (messageUpstream (completionWith nullAndReasoning)).toList := by
  refine ⟨by decide, by decide, ?_, by decide, ?_⟩
  · intro h
    have hevents := h.events
    revert hevents
    decide
  · intro h
    have hevents := h.events
    revert hevents
    decide

end AiApiBridge
