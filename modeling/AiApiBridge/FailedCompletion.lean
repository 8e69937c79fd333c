import AiApiBridge.StreamedResponse
import AiApiBridge.RebuiltMessage

/-!
# Failures reported in a successful answer

An upstream may report a failed turn in the body of a successful answer. The stream
parser turns the `error` member into an error event; `completionToEvents` never looks
at it, so the non-streaming path hands out the object of a completed turn
(`failure_hidden`).
-/

set_option autoImplicit false

namespace AiApiBridge

open Chat ChatStreamParser

/-- The events of a turn report that it failed. -/
def ReportsFailure (evs : List CanonicalEvent) : Prop :=
  (∃ ev ∈ evs, ev.isError = true) ∧ CanonicalEvent.completed ∉ evs

/-! ## The stream -/

/-- In a stream, an error is reported as one. -/
theorem reportsFailure_onChunk (p : ChatStreamParser) {json err : Value}
    (h : nonNull (json.get "error") = some err) : ReportsFailure (p.onChunk json).2 := by
  rw [onChunk_error p h]
  refine ⟨⟨errorEvent err, List.mem_singleton.2 rfl, rfl⟩, ?_⟩
  intro hcompleted
  cases List.mem_singleton.1 hcompleted

/-! ## The whole response -/

theorem isError_of_mem_callsEvents {n : Nat} {cs : List ToolCall} {ev : CanonicalEvent}
    (h : ev ∈ callsEvents n cs) : ev.isError = false := by
  induction cs generalizing n with
  | nil => cases h
  | cons c cs ih =>
      rcases List.mem_append.1 h with h | h
      · simp only [callEvents, List.mem_append, List.mem_singleton] at h
        rcases h with (rfl | h) | rfl
        · rfl
        · split at h
          · cases h
          · rw [List.mem_singleton.1 h]
            rfl
        · rfl
      · exact ih h

/-- The whole-response translator has no error events. -/
theorem isError_of_mem_completionToEvents {resp : Value} {responseId : String}
    {ev : CanonicalEvent} (h : ev ∈ completionToEvents resp responseId) : ev.isError = false := by
  have htext : ∀ (event : String → CanonicalEvent) (t : String), (event t).isError = false →
      ev ∈ textEvents event t → ev.isError = false := by
    intro event t hevent hmem
    rw [textEvents] at hmem
    split at hmem
    · cases hmem
    · rw [List.mem_singleton.1 hmem, hevent]
  rw [completionToEvents_eq, completionEvents] at h
  simp only [List.mem_append, List.mem_singleton, Option.mem_toList, Option.map_eq_some_iff] at h
  rcases h with ((((rfl | h) | h) | h) | ⟨u, -, rfl⟩) | rfl
  · rfl
  · exact htext _ _ rfl h
  · exact htext _ _ rfl h
  · exact isError_of_mem_callsEvents h
  · rfl
  · rfl

/-- It always completes the turn. -/
theorem completed_mem_completionToEvents (resp : Value) (responseId : String) :
    CanonicalEvent.completed ∈ completionToEvents resp responseId := by
  rw [completionToEvents_eq]
  exact List.mem_append_right _ (List.mem_singleton.2 rfl)

/-- **It does not look at the error**: an upstream object gives the same events with
and without one. -/
theorem completionToEvents_insert_error (m : Map) (err : Value) (responseId : String) :
    completionToEvents (.object (m.insert "error" err)) responseId =
      completionToEvents (.object m) responseId := by
  have hget : ∀ key, key ≠ "error" →
      (Value.object (m.insert "error" err)).get key = (Value.object m).get key := by
    intro key hkey
    simp [hkey]
  simp only [completionToEvents, firstChoice, strOr]
  rw [hget "model" (by decide), hget "choices" (by decide), hget "usage" (by decide)]

/-! ## What the clients get -/

/-- Every non-streaming Responses answer says that the turn has been completed. -/
theorem status_answered (uuid : Nat → String) (responseId : String) (resp : Value) :
    (answered uuid responseId resp).finalResponse.get "status" = some (.string "completed") :=
  rfl

/-- Every non-streaming Anthropic answer gives a reason of a regular end. -/
theorem stopReason_answeredMessage (fromStr : String → Option Value) (responseId : String)
    (resp : Value) :
    (answeredMessage fromStr responseId resp).get "stop_reason" = some (.string "end_turn") ∨
      (answeredMessage fromStr responseId resp).get "stop_reason" = some (.string "tool_use") := by
  rw [answeredMessage]
  generalize (Transducer.run (AnthropicEmitter.onEvent fromStr) .new
    (completionToEvents resp responseId)).1 = e
  cases htool : e.anyTool
  · exact .inl (by simp [AnthropicEmitter.finalMessage, AnthropicEmitter.stopReason, htool])
  · exact .inr (by simp [AnthropicEmitter.finalMessage, AnthropicEmitter.stopReason, htool])

/-! ## The two translators -/

/-- The two translators agree that a turn failed. -/
def AgreeOnFailure (p : ChatStreamParser) (responseId : String) (resp : Value) : Prop :=
  ReportsFailure (p.onChunk resp).2 ∧ ReportsFailure (completionToEvents resp responseId)

/-- **Failures are hidden.** On every upstream object with an error the translators
disagree: in a stream the turn fails, as a whole response it has no error event and is
completed. -/
theorem failure_hidden {resp err : Value} (h : nonNull (resp.get "error") = some err)
    (p : ChatStreamParser) (responseId : String) :
    ReportsFailure (p.onChunk resp).2 ∧
      (∀ ev ∈ completionToEvents resp responseId, ev.isError = false) ∧
      CanonicalEvent.completed ∈ completionToEvents resp responseId ∧
      ¬ AgreeOnFailure p responseId resp := by
  have hcompleted := completed_mem_completionToEvents resp responseId
  refine ⟨reportsFailure_onChunk p h, ?_, hcompleted, ?_⟩
  · intro ev hev
    exact isError_of_mem_completionToEvents hev
  · intro hagree
    exact hagree.2.2 hcompleted

/-- An upstream that is overloaded. -/
def overloaded : Value :=
  .object [("error", .object [("message", .string "overloaded"), ("code", .ofNat 503)])]

/-- The failure of an overloaded upstream is hidden. -/
theorem failure_hidden_overloaded :
    ReportsFailure ((ChatStreamParser.new "resp_1").onChunk overloaded).2 ∧
      (∀ ev ∈ completionToEvents overloaded "resp_1", ev.isError = false) ∧
      CanonicalEvent.completed ∈ completionToEvents overloaded "resp_1" ∧
      ¬ AgreeOnFailure (.new "resp_1") "resp_1" overloaded :=
  failure_hidden
    (show nonNull (overloaded.get "error") =
        some (.object [("message", .string "overloaded"), ("code", .ofNat 503)]) by decide)
    (.new "resp_1") "resp_1"

/-- On an overloaded upstream the translators do not agree. -/
theorem not_agreeOnFailure_overloaded :
    ¬ AgreeOnFailure (.new "resp_1") "resp_1" overloaded :=
  fun hagree => hagree.2.2 (completed_mem_completionToEvents overloaded "resp_1")

end AiApiBridge
