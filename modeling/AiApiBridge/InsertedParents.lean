import AiApiBridge.ToolParents

/-!
# The parents that are synthesized

`normalizeToolParents` reads a transcript once, with a set of the ids announced so far.
Message by message this is a rule about what comes before: a tool result gets a parent
when its id is empty, and otherwise when neither an earlier assistant message announces
the id nor an earlier result with that id got a parent. Nothing else is inserted and
nothing is taken away (`normalizeToolParents_inserts`).
-/

set_option autoImplicit false

namespace AiApiBridge.Chat

/-! ## The rule for one message -/

/-- Some assistant message calls this id. -/
def Announced (msgs : List Message) (id : String) : Prop :=
  ∃ text reasoning calls, Message.assistant text reasoning calls ∈ msgs ∧
    id ∈ calls.map ToolCall.callId

/-- A message of the input, with the note whether a parent is put in front of it. -/
structure Noted where
  message : Message
  parent : Bool

/-- A message of the result. -/
structure Entry where
  message : Message
  inserted : Bool

/-- Some result with this id has been given a parent. -/
def Given (notes : List Noted) (id : String) : Prop :=
  ∃ output, ⟨.tool id output, true⟩ ∈ notes

/-- A tool result that needs a parent, by what comes before it. -/
def NeedsParent (before : List Noted) (m : Message) : Prop :=
  ∃ id output, m = .tool id output ∧
    (id = "" ∨ id ≠ "" ∧ ¬ Announced (before.map Noted.message) id ∧ ¬ Given before id)

/-- A message with the parent in front of it, if it gets one. -/
def Noted.entries : Noted → List Entry
  | ⟨.tool id output, true⟩ => [⟨synthesizedParent id, true⟩, ⟨.tool id output, false⟩]
  | ⟨m, _⟩ => [⟨m, false⟩]

/-- The notes follow the rule. -/
def FollowsRule (notes : List Noted) : Prop :=
  EverySplit (fun before n => n.parent = true ↔ NeedsParent before n.message) notes

/-! ## The notes of the pass -/

/-- Whether a message is a tool result with an id that nobody has mentioned. -/
def isOrphan (seen : List Message) : Message → Bool
  | .tool id _ => !decide (Mentioned seen id)
  | _ => false

def noted (seen : List Message) (m : Message) : Noted := ⟨m, isOrphan seen m⟩

@[simp] theorem message_noted (seen : List Message) (m : Message) : (noted seen m).message = m :=
  rfl

def notes (seen : List Message) : List Message → List Noted
  | [] => []
  | m :: ms => noted seen m :: notes (seen ++ [m]) ms

theorem map_message_notes (seen msgs : List Message) :
    (notes seen msgs).map Noted.message = msgs := by
  induction msgs generalizing seen with
  | nil => rfl
  | cons m msgs ih => rw [notes, List.map_cons, ih, message_noted]

theorem map_message_entries (seen : List Message) (m : Message) :
    (noted seen m).entries.map Entry.message = placed seen m := by
  cases m with
  | user text => rfl
  | assistant text reasoning calls => rfl
  | tool id output =>
      by_cases h : Mentioned seen id <;> simp [noted, isOrphan, placed, Noted.entries, h]

theorem filter_entries (n : Noted) :
    (n.entries.filter fun e => !e.inserted).map Entry.message = [n.message] := by
  rcases n with ⟨m, parent⟩
  cases m <;> cases parent <;> rfl

/-- Erasing what was inserted leaves the input. -/
theorem filter_flatMap_entries (notes : List Noted) :
    ((notes.flatMap Noted.entries).filter fun e => !e.inserted).map Entry.message =
      notes.map Noted.message := by
  induction notes with
  | nil => rfl
  | cons n notes ih =>
      rw [List.flatMap_cons, List.filter_append, List.map_append, filter_entries, ih]
      rfl

theorem map_message_flatMap_entries (msgs : List Message) :
    ∀ announced seen, Announces announced seen →
      ((notes seen msgs).flatMap Noted.entries).map Entry.message =
        normalizeLoop announced msgs := by
  induction msgs with
  | nil => intro announced seen h; rfl
  | cons m msgs ih =>
      intro announced seen h
      obtain ⟨announced', h', hloop⟩ := h.normalizeLoop_cons m
      rw [notes, List.flatMap_cons, List.map_append, map_message_entries, ih announced' _ h', hloop]

/-! ## The notes follow the rule -/

@[simp] theorem announced_append {msgs msgs' : List Message} {id : String} :
    Announced (msgs ++ msgs') id ↔ Announced msgs id ∨ Announced msgs' id := by
  simp only [Announced, List.mem_append, or_and_right, exists_or]

@[simp] theorem announced_singleton {m : Message} {id : String} :
    Announced [m] id ↔ ∃ text reasoning calls, m = .assistant text reasoning calls ∧
      id ∈ calls.map ToolCall.callId := by
  simp only [Announced, List.mem_singleton, eq_comm]

theorem mentioned_of_announced {msgs : List Message} {id : String} (hne : id ≠ "")
    (h : Announced msgs id) : Mentioned msgs id := by
  rcases h with ⟨text, reasoning, calls, hmem, hid⟩
  exact ⟨hne, List.mem_flatMap.2 ⟨_, hmem, hid⟩⟩

@[simp] theorem given_append {notes notes' : List Noted} {id : String} :
    Given (notes ++ notes') id ↔ Given notes id ∨ Given notes' id := by
  simp only [Given, List.mem_append, exists_or]

theorem given_noted {seen : List Message} {m : Message} {id : String} :
    Given [noted seen m] id ↔ ∃ output, m = .tool id output ∧ ¬ Mentioned seen id := by
  simp only [Given, List.mem_singleton, noted, Noted.mk.injEq]
  apply exists_congr
  intro output
  constructor
  · rintro ⟨rfl, horphan⟩
    exact ⟨rfl, by simpa [isOrphan] using horphan⟩
  · rintro ⟨rfl, hment⟩
    exact ⟨rfl, by simpa [isOrphan] using hment⟩

/-- An id has been mentioned when an assistant message announced it or a result with the
id was given a parent: the first mention is one or the other. -/
def Accounts (before : List Noted) : Prop :=
  ∀ id, Mentioned (before.map Noted.message) id ↔
    id ≠ "" ∧ (Announced (before.map Noted.message) id ∨ Given before id)

theorem accounts_nil : Accounts [] := by
  intro id
  simp [Mentioned, Announced, Given]

/-- **One more message** of the pass. -/
theorem Accounts.snoc {before : List Noted} (h : Accounts before) (m : Message) :
    Accounts (before ++ [noted (before.map Noted.message) m]) := by
  intro id
  have hmap : (before ++ [noted (before.map Noted.message) m]).map Noted.message =
      before.map Noted.message ++ [m] := List.map_append
  rw [hmap, mentioned_snoc, announced_append, given_append, given_noted, announced_singleton]
  have hid := h id
  cases m with
  | user text => simpa [mentionedBy] using hid
  | assistant text reasoning calls =>
      have hcalls : (∃ text' reasoning' calls', Message.assistant text reasoning calls =
          .assistant text' reasoning' calls' ∧ id ∈ calls'.map ToolCall.callId) ↔
            id ∈ calls.map ToolCall.callId := by simp
      rw [hcalls, mentionedBy]
      simp only [reduceCtorEq, false_and, exists_false]
      tauto
  | tool id' output =>
      -- an id that has been mentioned has been accounted for
      simp only [mentionedBy, List.mem_singleton, Message.tool.injEq, reduceCtorEq, false_and,
        exists_false, and_assoc, exists_eq_left', exists_and_left]
      tauto

/-- The pass decides by the rule. -/
theorem parent_noted_iff {before : List Noted} (h : Accounts before) (m : Message) :
    (noted (before.map Noted.message) m).parent = true ↔ NeedsParent before m := by
  cases m with
  | user text => simp [noted, isOrphan, NeedsParent]
  | assistant text reasoning calls => simp [noted, isOrphan, NeedsParent]
  | tool id output =>
      have hrule : NeedsParent before (.tool id output) ↔ id = "" ∨
          id ≠ "" ∧ ¬ Announced (before.map Noted.message) id ∧ ¬ Given before id := by
        constructor
        · rintro ⟨id', output', heq, hneeds⟩
          cases heq
          exact hneeds
        · exact fun hneeds => ⟨id, output, rfl, hneeds⟩
      have hment := h id
      rw [hrule, noted, isOrphan, Bool.not_eq_true', decide_eq_false_iff_not]
      tauto

/-- **The notes of the pass** follow the rule. -/
theorem followsRule_notes (msgs : List Message) :
    ∀ before, Accounts before →
      EverySplit (fun pre n => n.parent = true ↔ NeedsParent (before ++ pre) n.message)
        (notes (before.map Noted.message) msgs) := by
  induction msgs with
  | nil => intro before h; exact everySplit_nil _
  | cons m msgs ih =>
      intro before h
      -- the rest is decided with this message among those before
      have hrest := ih _ (h.snoc m)
      rw [List.map_append] at hrest
      rw [notes, everySplit_cons]
      refine ⟨?_, ?_⟩
      · rw [List.append_nil]
        exact parent_noted_iff h m
      · simpa using hrest

/-! ## The result -/

/-- Every id that the input mentions is announced in the result. -/
def Covers (seen before : List Message) : Prop := ∀ id, Mentioned seen id → Announced before id

theorem announced_synthesizedParent (id : String) : Announced [synthesizedParent id] id := by
  simp [synthesizedParent]

/-- **What is placed** comes behind the announcements it needs. -/
theorem everySplit_placed {seen before : List Message} (h : Covers seen before) (m : Message) :
    EverySplit (fun pre m => ∀ id output, m = .tool id output → id ≠ "" →
      Announced (before ++ pre) id) (placed seen m) := by
  cases m with
  | user text => simp [placed, everySplit_cons]
  | assistant text reasoning calls => simp [placed, everySplit_cons]
  | tool callId output =>
      rw [placed]
      split
      · rename_i hment
        rw [everySplit_cons]
        refine ⟨?_, everySplit_nil _⟩
        intro id output' heq hne
        cases heq
        exact announced_append.2 (.inl (h callId hment))
      · -- the parent right in front announces the id
        rw [everySplit_cons, everySplit_cons]
        refine ⟨by simp [synthesizedParent], ?_, everySplit_nil _⟩
        intro id output' heq hne
        cases heq
        exact announced_append.2 (.inr (announced_synthesizedParent callId))

theorem Covers.placed {seen before : List Message} (h : Covers seen before) (m : Message) :
    Covers (seen ++ [m]) (before ++ placed seen m) := by
  intro id hid
  rw [announced_append]
  rcases mentioned_snoc.1 hid with hid | ⟨-, hid⟩
  · exact .inl (h id hid)
  · cases m with
    | user text => cases hid
    | assistant text reasoning calls =>
        exact .inr ⟨text, reasoning, calls, List.mem_singleton_self _, hid⟩
    | tool callId output =>
        -- announced before, or by the parent that is put in front
        obtain rfl := List.mem_singleton.1 hid
        rw [Chat.placed]
        split
        · rename_i hment
          exact .inl (h id hment)
        · have hpair : Announced ([synthesizedParent id] ++ [.tool id output]) id :=
            announced_append.2 (.inl (announced_synthesizedParent id))
          exact .inr hpair

/-- Every result with an id of its own comes after an assistant message that announces
it. -/
theorem announced_normalizeLoop (msgs : List Message) :
    ∀ announced seen before, Announces announced seen → Covers seen before →
      EverySplit (fun pre m => ∀ id output, m = .tool id output → id ≠ "" →
        Announced (before ++ pre) id) (normalizeLoop announced msgs) := by
  induction msgs with
  | nil => intro announced seen before h hcovers; exact everySplit_nil _
  | cons m msgs ih =>
      intro announced seen before h hcovers
      obtain ⟨announced', h', hloop⟩ := h.normalizeLoop_cons m
      rw [hloop, everySplit_append]
      refine ⟨everySplit_placed hcovers m, ?_⟩
      have hrest := ih announced' _ _ h' (hcovers.placed m)
      simpa only [List.append_assoc] using hrest

/-- A transcript in which every result has an id that was announced before it. -/
def Parented (msgs : List Message) : Prop :=
  EverySplit (fun before m => ∀ id output, m = .tool id output → id ≠ "" ∧ Announced before id) msgs

theorem normalizeLoop_of_parented (msgs : List Message) :
    ∀ announced seen, Announces announced seen →
      EverySplit (fun pre m => ∀ id output, m = .tool id output →
        id ≠ "" ∧ Announced (seen ++ pre) id) msgs →
      normalizeLoop announced msgs = msgs := by
  induction msgs with
  | nil => intro announced seen h hparented; rfl
  | cons m msgs ih =>
      intro announced seen h hparented
      rw [everySplit_cons, List.append_nil] at hparented
      obtain ⟨announced', h', hloop⟩ := h.normalizeLoop_cons m
      -- every message stays alone in its place
      have hplaced : placed seen m = [m] := by
        cases m with
        | user text => rfl
        | assistant text reasoning calls => rfl
        | tool id output =>
            obtain ⟨hne, hann⟩ := hparented.1 id output rfl
            rw [placed, if_pos (mentioned_of_announced hne hann)]
      rw [hloop, hplaced, ih announced' (seen ++ [m]) h' (by simpa using hparented.2)]
      rfl

/-- **The pass only inserts, and no more than it must.** -/
theorem normalizeToolParents_inserts (msgs : List Message) :
    (∃ notes : List Noted, notes.map Noted.message = msgs ∧ FollowsRule notes ∧
      (notes.flatMap Noted.entries).map Entry.message = normalizeToolParents msgs ∧
      ((notes.flatMap Noted.entries).filter fun e => !e.inserted).map Entry.message = msgs) ∧
    (Parented msgs → normalizeToolParents msgs = msgs) ∧
    EverySplit (fun before m => ∀ id output, m = .tool id output → id ≠ "" →
      Announced before id) (normalizeToolParents msgs) := by
  rw [normalizeToolParents_eq]
  refine ⟨⟨notes [] msgs, map_message_notes [] msgs, ?_, ?_, ?_⟩, ?_, ?_⟩
  · exact followsRule_notes msgs [] accounts_nil
  · exact map_message_flatMap_entries msgs [] [] announces_nil
  · rw [filter_flatMap_entries, map_message_notes]
  · exact normalizeLoop_of_parented msgs [] [] announces_nil
  · exact announced_normalizeLoop msgs [] [] [] announces_nil (by simp [Covers, Mentioned])

/-- A call with its result is left alone. -/
theorem normalizeToolParents_inserts_paired :
    normalizeToolParents [.user "do it", .assistant none none [⟨"c1", "exec", "{}"⟩],
        .tool "c1" "result"] =
      [.user "do it", .assistant none none [⟨"c1", "exec", "{}"⟩], .tool "c1" "result"] := by
  apply (normalizeToolParents_inserts _).2.1
  simp [Parented, everySplit_cons, Announced]

/-- A result with an empty id gets a parent although an assistant message calls that id. -/
theorem not_unchanged_emptyId :
    EverySplit (fun before m => ∀ id output, m = .tool id output → Announced before id)
        [.assistant none none [⟨"", "exec", "{}"⟩], .tool "" "result"] ∧
      normalizeToolParents [.assistant none none [⟨"", "exec", "{}"⟩], .tool "" "result"] =
        [.assistant none none [⟨"", "exec", "{}"⟩], synthesizedParent "", .tool "" "result"] := by
  refine ⟨?_, by decide⟩
  simp [everySplit_cons, Announced]

end AiApiBridge.Chat
