import AiApiBridge.Wire.Frame
import AiApiBridge.Lib.Transducer
import Mathlib.Data.List.Induction

/-!
# Drafts

A draft is the assistant message that a sequence of canonical events adds up to,
whatever wire format it is emitted in. `Draft.step` says what each event adds.
Events are orderly when reasoning comes before content, content before tool
calls, and no call is started while one of the same index is open.

An emitter that keeps a relation to the draft on orderly events (`FollowsDraft`)
keeps it over whole runs (`FollowsDraft.run`).
-/

set_option autoImplicit false

namespace AiApiBridge

/-- A tool call of a draft. -/
structure DraftCall where
  index : Nat
  call : ToolCall
  live : Bool
  deriving DecidableEq, Repr

namespace DraftCall

/-- Append to the live call of an index. -/
def append (i : Nat) (args : String) (c : DraftCall) : DraftCall :=
  if c.index = i ∧ c.live then
    { c with call := { c.call with arguments := c.call.arguments ++ args } }
  else c

/-- Close the call of an index. -/
def finish (i : Nat) (c : DraftCall) : DraftCall :=
  if c.index = i then { c with live := false } else c

end DraftCall

/-- What the events so far have said. `calls` are in the order of their starts,
`closed` in the order in which they were closed. -/
structure Draft where
  opened : Bool
  responseId : String
  model : String
  reasoning : String
  content : String
  calls : List DraftCall
  closed : List ToolCall
  usage : Option UsageCounts
  deriving DecidableEq, Repr

namespace Draft

def new : Draft := ⟨false, "", "", "", "", [], [], none⟩

/-- The open call of an index. -/
def openCall (d : Draft) (i : Nat) : Option ToolCall :=
  (d.calls.find? fun c => decide (c.index = i) && c.live).map DraftCall.call

/-- What an event adds. -/
def step (d : Draft) : CanonicalEvent → Draft
  | .created responseId model => { d with opened := true, responseId, model }
  | .reasoningDelta t => { d with reasoning := d.reasoning ++ t }
  | .textDelta t => { d with content := d.content ++ t }
  | .toolCallStart i callId name => { d with calls := d.calls ++ [⟨i, ⟨callId, name, ""⟩, true⟩] }
  | .toolCallArgsDelta i args => { d with calls := d.calls.map (DraftCall.append i args) }
  | .toolCallDone i =>
      { d with
        calls := d.calls.map (DraftCall.finish i)
        closed := d.closed ++ (d.openCall i).toList }
  | .usage counts => { d with usage := some counts }
  | .completed => d
  | .error _ _ => d

/-- Whether an event may come next. -/
def Allows (d : Draft) : CanonicalEvent → Prop
  | .created _ _ => d.opened = false
  | .reasoningDelta t => d.opened = true ∧ t ≠ "" ∧ d.content = "" ∧ d.calls = []
  | .textDelta t => d.opened = true ∧ t ≠ "" ∧ d.calls = []
  | .toolCallStart i _ _ => d.opened = true ∧ d.openCall i = none
  | .completed => False
  | .error _ _ => False
  | _ => d.opened = true

/-- The events come in an allowed order. -/
def Orderly : Draft → List CanonicalEvent → Prop
  | _, [] => True
  | d, ev :: evs => d.Allows ev ∧ Orderly (d.step ev) evs

/-- The draft after a sequence of events. -/
def after (d : Draft) (evs : List CanonicalEvent) : Draft := evs.foldl step d

@[simp] theorem after_nil (d : Draft) : d.after [] = d := rfl

@[simp] theorem after_cons (d : Draft) (ev : CanonicalEvent) (evs : List CanonicalEvent) :
    d.after (ev :: evs) = (d.step ev).after evs := rfl

@[simp] theorem after_append (d : Draft) (evs evs' : List CanonicalEvent) :
    d.after (evs ++ evs') = (d.after evs).after evs' := List.foldl_append

@[simp] theorem orderly_nil (d : Draft) : d.Orderly [] := trivial

@[simp] theorem orderly_cons (d : Draft) (ev : CanonicalEvent) (evs : List CanonicalEvent) :
    d.Orderly (ev :: evs) ↔ d.Allows ev ∧ (d.step ev).Orderly evs := Iff.rfl

@[simp] theorem orderly_append (d : Draft) (evs evs' : List CanonicalEvent) :
    d.Orderly (evs ++ evs') ↔ d.Orderly evs ∧ (d.after evs).Orderly evs' := by
  induction evs generalizing d with
  | nil => simp
  | cons ev evs ih => simp [ih, and_assoc]

/-! ## Open calls -/

theorem openCall_start (d : Draft) (i j : Nat) (callId name : String) :
    (d.step (.toolCallStart i callId name)).openCall j =
      (d.openCall j).or (if i = j then some ⟨callId, name, ""⟩ else none) := by
  simp only [openCall, step]
  rw [List.find?_append]
  cases h : d.calls.find? fun c => decide (c.index = j) && c.live with
  | some c => simp
  | none => by_cases hij : i = j <;> simp [hij]

theorem openCall_args (d : Draft) (i j : Nat) (args : String) :
    (d.step (.toolCallArgsDelta i args)).openCall j =
      if i = j then (d.openCall j).map fun c => { c with arguments := c.arguments ++ args }
      else d.openCall j := by
  simp only [openCall, step]
  have hsel : (fun c : DraftCall => decide (c.index = j) && c.live) ∘ DraftCall.append i args =
      fun c => decide (c.index = j) && c.live := by
    funext c
    simp only [Function.comp_apply, DraftCall.append]
    split <;> rfl
  rw [List.find?_map, hsel, Option.map_map]
  cases h : d.calls.find? fun c => decide (c.index = j) && c.live with
  | none => simp
  | some c =>
      have hc : c.index = j ∧ c.live = true := by simpa using List.find?_some h
      by_cases hij : i = j
      · simp [DraftCall.append, hij, hc]
      · have hne : j ≠ i := fun heq => hij heq.symm
        simp [DraftCall.append, hij, hc, hne]

theorem openCall_done (d : Draft) (i j : Nat) :
    (d.step (.toolCallDone i)).openCall j = if i = j then none else d.openCall j := by
  simp only [openCall, step]
  rw [List.find?_map, Option.map_map]
  by_cases hij : i = j
  · subst hij
    -- no call of that index stays live
    have hnone : d.calls.find? ((fun c : DraftCall => decide (c.index = i) && c.live) ∘
        DraftCall.finish i) = none := by
      rw [List.find?_eq_none]
      intro c _
      by_cases hc : c.index = i <;> simp [DraftCall.finish, hc]
    rw [hnone, if_pos rfl]
    rfl
  · -- the calls of other indices are left as they are
    have hsel : ((fun c : DraftCall => decide (c.index = j) && c.live) ∘ DraftCall.finish i) =
        fun c => decide (c.index = j) && c.live := by
      funext c
      by_cases hc : c.index = i
      · have hne : i ≠ j := hij
        simp [DraftCall.finish, hc, hne]
      · simp [DraftCall.finish, hc]
    rw [hsel]
    cases h : d.calls.find? fun c => decide (c.index = j) && c.live with
    | none => simp
    | some c =>
        have hc : c.index = j ∧ c.live = true := by simpa using List.find?_some h
        have hne : c.index ≠ i := fun heq => hij (heq.symm.trans hc.1)
        simp [DraftCall.finish, hij, hne]

end Draft

/-! ## Emitters that follow the draft -/

section Follows

variable {σ : Type} (step : Transducer.Step σ CanonicalEvent SseFrame)
  (R : σ → List SseFrame → Draft → Prop)

/-- Every event that may come next keeps the relation. -/
def FollowsDraft : Prop :=
  ∀ s frames d ev, R s frames d → d.Allows ev →
    R (step s ev).1 (frames ++ (step s ev).2) (d.step ev)

variable {step R}

/-- **An orderly run keeps the relation to the draft.** -/
theorem FollowsDraft.run (hf : FollowsDraft step R) {evs : List CanonicalEvent} {s : σ}
    {frames : List SseFrame} {d : Draft} (hR : R s frames d) (ho : d.Orderly evs) :
    R (Transducer.run step s evs).1 (frames ++ (Transducer.run step s evs).2) (d.after evs) := by
  induction evs generalizing s frames d with
  | nil => simpa using hR
  | cons ev evs ih =>
      rw [Transducer.run_cons, ← List.append_assoc]
      exact ih (hf s frames d ev hR ho.1) ho.2

end Follows

end AiApiBridge
