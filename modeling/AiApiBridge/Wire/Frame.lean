import AiApiBridge.Canonical

/-!
# Frames and generated ids

A frame is one server-sent event: an event name and a JSON payload. Item ids are
drawn from a supply `uuid : Nat → String` whose `n`-th value is the `n`-th UUID
the process generates; an emitter counts how many it has drawn.
-/

set_option autoImplicit false

namespace AiApiBridge

/-- One SSE frame. -/
structure SseFrame where
  event : String
  data : Value
  deriving DecidableEq, Repr

/-- `frame(event, json!({..}))`. -/
def frame (event : String) (members : Map) : SseFrame := ⟨event, .object members⟩

/-- `new_id(prefix)` with the `n`-th UUID. -/
def newId (uuid : Nat → String) (pre : String) (n : Nat) : String := pre ++ "_" ++ uuid n

namespace SseFrame

/-- A member of the payload. -/
def get (fr : SseFrame) (key : String) : Option Value := fr.data.get key

/-- A member of a member of the payload. -/
def get₂ (fr : SseFrame) (key key' : String) : Option Value :=
  (fr.data.get key).bind fun v => v.get key'

@[simp] theorem get_frame (event : String) (m : Map) (key : String) :
    (frame event m).get key = m.lookup key := rfl

@[simp] theorem get₂_frame (event : String) (m : Map) (key key' : String) :
    (frame event m).get₂ key key' = (m.lookup key).bind fun v => v.get key' := rfl

@[simp] theorem data_frame (event : String) (m : Map) : (frame event m).data = .object m := rfl

@[simp] theorem event_frame (event : String) (m : Map) : (frame event m).event = event := rfl

end SseFrame

/-! ## Distinctness of ids -/

theorem newId_toList (uuid : Nat → String) (pre : String) (n : Nat) :
    (newId uuid pre n).toList = pre.toList ++ '_' :: (uuid n).toList := by
  simp [newId]

/-- Ids with one prefix differ when their UUIDs do. -/
theorem newId_injective {uuid : Nat → String} (hu : Function.Injective uuid) (pre : String) :
    Function.Injective (newId uuid pre) := by
  intro m n h
  have h' := congrArg String.toList h
  rw [newId_toList, newId_toList] at h'
  have := List.append_cancel_left h'
  simp only [List.cons.injEq, true_and] at this
  exact hu (String.toList_injective this)

/-- Ids whose prefixes start with different letters are different. -/
theorem newId_ne {uuid : Nat → String} {pre pre' : String} (m n : Nat)
    (h : pre.toList.head? ≠ pre'.toList.head?) (hp : pre.toList ≠ []) (hp' : pre'.toList ≠ []) :
    newId uuid pre m ≠ newId uuid pre' n := by
  intro heq
  apply h
  have h' := congrArg (fun s => s.toList.head?) heq
  simp only [newId_toList] at h'
  rwa [List.head?_append_of_ne_nil _ hp, List.head?_append_of_ne_nil _ hp'] at h'

/-- A supply of distinct ids that can be evaluated. -/
def unaryId (n : Nat) : String := String.ofList (List.replicate n '0')

theorem unaryId_injective : Function.Injective unaryId := by
  intro m n h
  have h' := congrArg (fun s => s.toList.length) h
  simpa [unaryId] using h'

end AiApiBridge
