import AiApiBridge.Lib.Latest
import AiApiBridge.Wire.ChunkReading
import AiApiBridge.Wire.FrameEvents

/-!
# Usage on its way to the client

The usage an emitter holds is the one that was reported last (`KeepsReport.run`), and
the last report of an upstream answer is that of its last usage object
(`latest_reportOf_streamEvents`, `latest_reportOf_completionToEvents`).
-/

set_option autoImplicit false

namespace AiApiBridge

open Transducer (Step)

/-- The counts an event reports. -/
def reportOf : CanonicalEvent → Option UsageCounts
  | .usage counts => some counts
  | _ => none

/-! ## Emitters that keep the last report -/

section Keeps

variable {σ : Type} (usage : σ → Option UsageCounts) (emit : Step σ CanonicalEvent SseFrame)

/-- An event with a report replaces the usage, and every other event leaves it. -/
def KeepsReport : Prop := ∀ s ev, usage (emit s ev).1 = (reportOf ev).or (usage s)

variable {usage emit}

/-- **A run keeps the last report.** -/
theorem KeepsReport.run (h : KeepsReport usage emit) (s : σ) (evs : List CanonicalEvent) :
    usage (Transducer.run emit s evs).1 = (latest reportOf evs).or (usage s) := by
  induction evs generalizing s with
  | nil => rfl
  | cons ev evs ih => rw [Transducer.run_cons, ih, h, latest_cons_or]

end Keeps

namespace ResponsesEmitter

section Usage

variable (uuid : Nat → String) (e : ResponsesEmitter)

@[simp] theorem usage_ensureReasoningOpen : (ensureReasoningOpen uuid e).1.usage = e.usage := by
  cases h : e.reasoningItem <;> simp [ensureReasoningOpen, h]

@[simp] theorem usage_closeReasoning : (closeReasoning e).1.usage = e.usage := by
  cases h : e.reasoningItem <;> simp [closeReasoning, h]

@[simp] theorem usage_ensureMessageOpen : (ensureMessageOpen uuid e).1.usage = e.usage := by
  cases h : e.messageItem <;> simp [ensureMessageOpen, h]

@[simp] theorem usage_closeMessage : (closeMessage e).1.usage = e.usage := by
  cases h : e.messageItem <;> simp [closeMessage, h]

@[simp] theorem usage_closeOpenTools : (closeOpenTools e).1.usage = e.usage :=
  Transducer.run_keeps usage (fun _ _ => rfl) { e with tools := ∅ } _

/-- **One event.** -/
theorem keepsReport_onEventCore : KeepsReport usage (onEventCore uuid) := by
  intro e ev
  cases ev with
  | toolCallArgsDelta i delta => cases h : e.tools[i]? <;> simp [onEventCore, reportOf, h]
  | toolCallDone i => cases h : e.tools[i]? <;> simp [onEventCore, reportOf, finishTool, h]
  | _ => simp [onEventCore, reportOf]

/-- The sequence numbers change nothing. -/
theorem keepsReport_onEvent : KeepsReport usage (onEvent uuid) :=
  fun e ev => keepsReport_onEventCore uuid e ev

end Usage

end ResponsesEmitter

namespace AnthropicEmitter

section Usage

variable (fromStr : String → Option Value) (e : AnthropicEmitter)

@[simp] theorem usage_start : (start e).1.usage = e.usage := by
  cases h : e.started <;> simp [start, h]

@[simp] theorem usage_ensureThinkingOpen : (ensureThinkingOpen e).1.usage = e.usage := by
  cases h : e.thinkingIndex <;> simp [ensureThinkingOpen, h]

@[simp] theorem usage_closeThinking : (closeThinking e).1.usage = e.usage := by
  cases h : e.thinkingIndex <;> simp [closeThinking, h]

@[simp] theorem usage_ensureTextOpen : (ensureTextOpen e).1.usage = e.usage := by
  cases h : e.textIndex <;> simp [ensureTextOpen, h]

@[simp] theorem usage_closeText : (closeText e).1.usage = e.usage := by
  cases h : e.textIndex <;> simp [closeText, h]

@[simp] theorem usage_closeOpenTools : (closeOpenTools fromStr e).1.usage = e.usage :=
  Transducer.run_keeps usage (fun _ _ => rfl) { e with tools := ∅ } _

/-- **One event.** -/
theorem keepsReport_onEvent : KeepsReport usage (onEvent fromStr) := by
  intro e ev
  cases ev with
  | toolCallArgsDelta i delta => cases h : e.tools[i]? <;> simp [onEvent, reportOf, h]
  | toolCallDone i => cases h : e.tools[i]? <;> simp [onEvent, reportOf, finishTool, h]
  | _ => simp [onEvent, reportOf]

end Usage

end AnthropicEmitter

/-! ## The reports of an upstream answer -/

open Chat ChatStreamParser

/-- A chunk reports its usage object, if it has one. -/
theorem filterMap_reportOf_onChunk (p : ChatStreamParser) {c : Value} (h : NoError c) :
    (p.onChunk c).2.filterMap reportOf = ((chunkUsage c).map usageCounts).toList := by
  have hopen : (openingEvents p c).filterMap reportOf = [] := by
    rw [List.filterMap_eq_nil_iff]
    intro ev hev
    obtain ⟨-, model, rfl⟩ := mem_openingEvents hev
    rfl
  have hfinish : (finishEvents (fragmentRun p.startedTools c).1 c).filterMap reportOf = [] := by
    rw [List.filterMap_eq_nil_iff]
    intro ev hev
    obtain ⟨i, rfl⟩ := mem_finishEvents hev
    rfl
  have htools := filterMap_fragmentRun (f := reportOf)
    (fun ev hev => by cases ev <;> first | rfl | cases hev) p.startedTools c
  rw [onChunk_eq p h]
  simp only [List.filterMap_append, hopen, hfinish, htools, List.append_nil, List.nil_append]
  -- neither text reports anything
  cases chunkReasoning c <;> cases chunkContent c <;> cases chunkUsage c <;>
    simp [List.filterMap_cons, reportOf, usageEvent]

/-- **A stream reports its last usage object last.** -/
theorem latest_reportOf_streamEvents (responseId : String) {chunks : List Value}
    (h : ∀ c ∈ chunks, NoError c) :
    latest reportOf (streamEvents responseId chunks) =
      (latest chunkUsage chunks).map usageCounts := by
  have hrun := filterMap_run_onChunk (g := fun c => (chunkUsage c).map usageCounts)
    (fun p c hc => filterMap_reportOf_onChunk p hc) (new responseId) h
  rw [latest, streamEvents, List.filterMap_append, hrun]
  simp [reportOf, latest, ← List.map_filterMap]

theorem filterMap_reportOf_messageEvents (msg : Value) :
    (messageEvents msg).filterMap reportOf = [] := by
  rw [List.filterMap_eq_nil_iff]
  intro ev hev
  simp only [messageEvents, List.mem_append, Option.mem_toList, Option.map_eq_some_iff,
    List.mem_flatten, List.mem_mapIdx] at hev
  rcases hev with (⟨t, -, rfl⟩ | ⟨t, -, rfl⟩) | ⟨evs, ⟨i, hi, rfl⟩, hev⟩
  · rfl
  · rfl
  · -- a start, perhaps arguments, and an end
    cases ev with
    | usage counts =>
        simp only [completedCallEvents] at hev
        split at hev <;> simp at hev
    | _ => rfl

/-- A whole response reports its usage object. -/
theorem latest_reportOf_completionToEvents (resp : Value) (responseId : String) :
    latest reportOf (completionToEvents resp responseId) = (chunkUsage resp).map usageCounts := by
  have hreports : (completionToEvents resp responseId).filterMap reportOf =
      ((chunkUsage resp).map usageCounts).toList := by
    rw [completionToEvents]
    simp only [List.filterMap_append]
    rw [show nonNull (resp.get "usage") = chunkUsage resp from rfl]
    -- with or without a message, only the usage is left
    cases (firstChoice resp).bind fun c => c.get "message" <;> cases chunkUsage resp <;>
      simp [filterMap_reportOf_messageEvents, List.filterMap_cons, reportOf, usageEvent]
  rw [latest, hreports]
  cases chunkUsage resp <;> rfl

end AiApiBridge
