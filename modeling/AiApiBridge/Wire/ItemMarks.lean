import AiApiBridge.Wire.ResponsesEmitter

/-!
# What frames say about text items

A client of the Responses stream reads three things about a reasoning or message
item: that it was opened, the pieces of text delivered under its id, and the
texts of the frames that close it. `frameMarks` reads them off a frame; the entry
of an item in the final response counts as one of its closing frames.
-/

set_option autoImplicit false

namespace AiApiBridge

/-- The kinds of items that carry text. -/
inductive TextKind where
  | reasoning
  | message
  deriving DecidableEq, Repr

/-- One thing a frame says about a text item. -/
inductive ItemMark where
  | opened (kind : TextKind) (id : String)
  | delta (kind : TextKind) (id text : String)
  | closing (kind : TextKind) (id event text : String)
  deriving DecidableEq, Repr

namespace ItemMark

def kind : ItemMark → TextKind
  | opened k _ => k
  | delta k _ _ => k
  | closing k _ _ _ => k

def id : ItemMark → String
  | opened _ i => i
  | delta _ i _ => i
  | closing _ i _ _ => i

@[simp] theorem kind_opened (k : TextKind) (i : String) : (opened k i).kind = k := rfl
@[simp] theorem kind_delta (k : TextKind) (i t : String) : (delta k i t).kind = k := rfl
@[simp] theorem kind_closing (k : TextKind) (i ev t : String) : (closing k i ev t).kind = k := rfl
@[simp] theorem id_opened (k : TextKind) (i : String) : (opened k i).id = i := rfl
@[simp] theorem id_delta (k : TextKind) (i t : String) : (delta k i t).id = i := rfl
@[simp] theorem id_closing (k : TextKind) (i ev t : String) : (closing k i ev t).id = i := rfl

/-- The text of a delta of the item `i`. -/
def deltaOf (i : String) : ItemMark → Option String
  | delta _ j t => if j = i then some t else none
  | _ => none

/-- The event and the text of a closing frame of the item `i`. -/
def closingOf (i : String) : ItemMark → Option (String × String)
  | closing _ j ev t => if j = i then some (ev, t) else none
  | _ => none

@[simp] theorem deltaOf_opened (i : String) (k : TextKind) (j : String) :
    deltaOf i (opened k j) = none := rfl

@[simp] theorem deltaOf_delta (i : String) (k : TextKind) (j t : String) :
    deltaOf i (delta k j t) = if j = i then some t else none := rfl

@[simp] theorem deltaOf_closing (i : String) (k : TextKind) (j ev t : String) :
    deltaOf i (closing k j ev t) = none := rfl

@[simp] theorem closingOf_opened (i : String) (k : TextKind) (j : String) :
    closingOf i (opened k j) = none := rfl

@[simp] theorem closingOf_delta (i : String) (k : TextKind) (j t : String) :
    closingOf i (delta k j t) = none := rfl

@[simp] theorem closingOf_closing (i : String) (k : TextKind) (j ev t : String) :
    closingOf i (closing k j ev t) = if j = i then some (ev, t) else none := rfl

theorem deltaOf_of_ne {i : String} {m : ItemMark} (h : m.id ≠ i) : deltaOf i m = none := by
  cases m <;> simp_all

theorem closingOf_of_ne {i : String} {m : ItemMark} (h : m.id ≠ i) : closingOf i m = none := by
  cases m <;> simp_all

end ItemMark

/-! ## Reading frames -/

/-- The kind of a text item, by its type tag. -/
def textKindOf (item : Value) : Option TextKind :=
  match (item.get "type").bind Value.asStr with
  | some t => if t = "reasoning" then some .reasoning else if t = "message" then some .message
      else none
  | none => none

/-- The text under `text`. -/
def textMember (v : Value) : Option String := (v.get "text").bind Value.asStr

/-- The text of an item: that of the first part of its summary or content. -/
def itemText (item : Value) : Option String :=
  ((((item.get "summary").or (item.get "content")).bind Value.asArray).bind List.head?).bind
    textMember

/-- The id of an item. -/
def itemId (item : Value) : Option String := (item.get "id").bind Value.asStr

/-- A text item that an item object opens. -/
def openedMark (item : Value) : Option ItemMark :=
  (textKindOf item).bind fun k => (itemId item).map fun i => .opened k i

/-- A text item that an item object closes. -/
def closedMark (event : String) (item : Value) : Option ItemMark :=
  (textKindOf item).bind fun k => (itemId item).bind fun i =>
    (itemText item).map fun t => .closing k i event t

/-- The id of the item a frame names. -/
def frameItemId (fr : SseFrame) : Option String := (fr.get "item_id").bind Value.asStr

/-- What a delta frame delivers. -/
def deltaMark (k : TextKind) (fr : SseFrame) : Option ItemMark :=
  (frameItemId fr).bind fun i => ((fr.get "delta").bind Value.asStr).map fun t => .delta k i t

/-- The output items of a response object. -/
def outputItems (response : Value) : List Value :=
  ((response.get "output").bind Value.asArray).getD []

/-- What a frame says about text items. -/
def frameMarks (fr : SseFrame) : List ItemMark :=
  if fr.event = "response.output_item.added" then ((fr.get "item").bind openedMark).toList
  else if fr.event = "response.reasoning_summary_text.delta" then (deltaMark .reasoning fr).toList
  else if fr.event = "response.output_text.delta" then (deltaMark .message fr).toList
  else if fr.event = "response.output_text.done" then
    ((frameItemId fr).bind fun i => (textMember fr.data).map fun t =>
      .closing .message i fr.event t).toList
  else if fr.event = "response.content_part.done" then
    ((frameItemId fr).bind fun i => ((fr.get "part").bind textMember).map fun t =>
      .closing .message i fr.event t).toList
  else if fr.event = "response.output_item.done" then
    ((fr.get "item").bind (closedMark fr.event)).toList
  else if fr.event = "response.completed" then
    ((fr.get "response").toList.flatMap outputItems).filterMap (closedMark fr.event)
  else []

/-- What a sequence of frames says about text items. -/
def marks (frames : List SseFrame) : List ItemMark := frames.flatMap frameMarks

@[simp] theorem marks_nil : marks [] = [] := rfl

@[simp] theorem marks_append (a b : List SseFrame) : marks (a ++ b) = marks a ++ marks b := by
  simp [marks]

@[simp] theorem marks_cons (fr : SseFrame) (frames : List SseFrame) :
    marks (fr :: frames) = frameMarks fr ++ marks frames := by
  simp [marks]

namespace ResponsesEmitter

/-- A reading of frames that does not look at the sequence number gives the same
after numbering. -/
theorem flatMap_number {α : Type} (f : SseFrame → List α)
    (hf : ∀ ev m n, f ⟨ev, .object (Map.insert m "sequence_number" n)⟩ = f ⟨ev, .object m⟩)
    (seq : Nat) (frames : List SseFrame) : (number seq frames).flatMap f = frames.flatMap f := by
  induction frames generalizing seq with
  | nil => rfl
  | cons fr frames ih =>
      rcases fr with ⟨ev, data⟩
      cases data <;> simp [number, ih, hf]

@[simp] theorem marks_number (seq : Nat) (frames : List SseFrame) :
    marks (number seq frames) = marks frames := by
  refine flatMap_number _ (fun ev m n => ?_) seq frames
  simp [frameMarks, SseFrame.get, frameItemId, deltaMark, textMember]

/-! ## The marks of the emitter's frames -/

attribute [local simp] frameMarks

theorem frameMarks_itemAdded (n : Nat) (item : Value) :
    frameMarks (itemAdded n item) = (openedMark item).toList := by
  simp [itemAdded]

theorem frameMarks_itemDone (n : Nat) (item : Value) :
    frameMarks (itemDone n item) = (closedMark "response.output_item.done" item).toList := by
  simp [itemDone]

@[simp] theorem frameMarks_reasoningDeltaFrame (item : OpenItem) (t : String) :
    frameMarks (reasoningDeltaFrame item t) = [.delta .reasoning item.id t] := by
  simp [reasoningDeltaFrame, deltaMark, frameItemId]

@[simp] theorem frameMarks_textDeltaFrame (item : OpenItem) (t : String) :
    frameMarks (textDeltaFrame item t) = [.delta .message item.id t] := by
  simp [textDeltaFrame, deltaMark, frameItemId]

@[simp] theorem frameMarks_contentPartAdded (i : String) (n : Nat) :
    frameMarks (contentPartAdded i n) = [] := by
  simp [contentPartAdded]

@[simp] theorem frameMarks_outputTextDone (item : OpenItem) (t : String) :
    frameMarks (outputTextDone item t) =
      [.closing .message item.id "response.output_text.done" t] := by
  simp [outputTextDone, frameItemId, textMember]

@[simp] theorem frameMarks_contentPartDone (item : OpenItem) (t : String) :
    frameMarks (contentPartDone item t) =
      [.closing .message item.id "response.content_part.done" t] := by
  simp [contentPartDone, frameItemId, textMember, outputTextPart]

@[simp] theorem frameMarks_argumentsDelta (t : ToolItem) (delta : String) :
    frameMarks (argumentsDelta t delta) = [] := by
  simp [argumentsDelta]

@[simp] theorem frameMarks_argumentsDone (t : ToolItem) :
    frameMarks (argumentsDone t) = [] := by
  simp [argumentsDone]

@[simp] theorem frameMarks_createdFrame (e : ResponsesEmitter) :
    frameMarks e.createdFrame = [] := by
  simp [createdFrame]

@[simp] theorem frameMarks_failedFrame (e : ResponsesEmitter) (message : String) (status : Nat) :
    frameMarks (e.failedFrame message status) = [] := by
  simp [failedFrame]

theorem frameMarks_completedFrame (e : ResponsesEmitter) :
    frameMarks e.completedFrame =
      e.finalItems.filterMap (closedMark "response.completed") := by
  simp [completedFrame, completedResponse, outputItems]

@[simp] theorem closedMark_reasoningItemJson (ev i t : String) :
    closedMark ev (reasoningItemJson i t) = some (.closing .reasoning i ev t) := by
  simp [closedMark, textKindOf, itemId, itemText, textMember, reasoningItemJson]

@[simp] theorem closedMark_messageItemJson (ev i t : String) :
    closedMark ev (messageItemJson i t) = some (.closing .message i ev t) := by
  simp [closedMark, textKindOf, itemId, itemText, textMember, messageItemJson, outputTextPart]

@[simp] theorem closedMark_toolJson (ev : String) (t : ToolItem) :
    closedMark ev (toolJson t) = none := by
  simp [closedMark, textKindOf, toolJson, functionCallJson]

end ResponsesEmitter

end AiApiBridge
