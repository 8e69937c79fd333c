import AiApiBridge.Completions
import AiApiBridge.ToolParents

/-!
# Transcripts of turns

A transcript is a sequence of turns, each a prompt and the completion that
answered it, with perhaps one more prompt at the end. When the results in every
prompt answer calls of the completion before it (`Answers`), no tool parent has to
be synthesized (`normalizeToolParents_transcript`), so the upstream gets the
transcript as it is (`get_messages_transcript`).
-/

set_option autoImplicit false

namespace AiApiBridge.Chat

/-- A text, or nothing when it is empty. -/
def nonEmpty (s : String) : Option String := if s = "" then none else some s

/-- The assistant message of a completion. -/
def assistantOf (m : Completion) : Message :=
  .assistant (nonEmpty m.content) (nonEmpty m.reasoning) m.calls

/-- The ids of a completion's calls. -/
def callIds (m : Completion) : List String := m.calls.map ToolCall.callId

/-- A completion that an upstream takes back: its calls have ids, and it has
content or calls. -/
def Replayable (m : Completion) : Prop :=
  (∀ id ∈ callIds m, id ≠ "") ∧ (m.content ≠ "" ∨ m.calls ≠ [])

instance (m : Completion) : Decidable (Replayable m) := inferInstanceAs (Decidable (_ ∧ _))

/-- A prompt and the completion that answered it. -/
structure Turn where
  prompt : List Message
  reply : Completion
  deriving DecidableEq, Repr

/-- The messages of a sequence of turns and a last prompt. -/
def transcript : List Turn → List Message → List Message
  | [], last => last
  | t :: ts, last => t.prompt ++ assistantOf t.reply :: transcript ts last

/-- A prompt whose results answer calls with these ids. -/
def Prompts (ids : List String) (msgs : List Message) : Prop :=
  ∀ m ∈ msgs, match m with
    | .user _ => True
    | .assistant _ _ _ => False
    | .tool callId _ => callId ∈ ids

/-- The results in every prompt answer calls of the completion before it. -/
def Answers (ids : List String) : List Turn → List Message → Prop
  | [], last => Prompts ids last
  | t :: ts, last =>
      Prompts ids t.prompt ∧ (∀ id ∈ callIds t.reply, id ≠ "") ∧ Answers (callIds t.reply) ts last

/-- A prompt passes the parent pass unchanged. -/
theorem normalizeLoop_prompt {ids announced : List String}
    (hids : ∀ id ∈ ids, id ≠ "" ∧ id ∈ announced) {msgs : List Message} (h : Prompts ids msgs)
    (rest : List Message) :
    normalizeLoop announced (msgs ++ rest) = msgs ++ normalizeLoop announced rest := by
  induction msgs with
  | nil => rfl
  | cons m msgs ih =>
      have hrest := ih fun m' hm' => h m' (by simp [hm'])
      have hm := h m (by simp)
      cases m with
      | user text => simp [normalizeLoop, hrest]
      | assistant text reasoning calls => exact absurd hm id
      | tool callId output =>
          obtain ⟨hne, hmem⟩ := hids callId hm
          simp [normalizeLoop, hne, hmem, hrest]

theorem normalizeLoop_transcript {turns : List Turn} {last : List Message}
    {ids announced : List String} (hids : ∀ id ∈ ids, id ≠ "" ∧ id ∈ announced)
    (h : Answers ids turns last) :
    normalizeLoop announced (transcript turns last) = transcript turns last := by
  induction turns generalizing ids announced with
  | nil => simpa [transcript, normalizeLoop] using normalizeLoop_prompt hids h []
  | cons t ts ih =>
      rcases h with ⟨hprompt, hne, hrest⟩
      have hnext : ∀ id ∈ callIds t.reply, id ≠ "" ∧ id ∈ announced ++ announcedBy t.reply.calls :=
        fun id hid => ⟨hne id hid, List.mem_append_right _
          (List.mem_filter.2 ⟨hid, by simpa using hne id hid⟩)⟩
      rw [transcript, normalizeLoop_prompt hids hprompt, assistantOf, normalizeLoop, ih hnext hrest]

/-- **No parent is synthesized in a transcript of answered calls.** -/
theorem normalizeToolParents_transcript {turns : List Turn} {last : List Message}
    (h : Answers [] turns last) :
    normalizeToolParents (transcript turns last) = transcript turns last := by
  rw [normalizeToolParents_eq]
  exact normalizeLoop_transcript (by simp) h

/-- The upstream gets the transcript as it is. -/
theorem get_messages_transcript {req : CanonicalRequest} {turns : List Turn} {last : List Message}
    (hreq : req.messages = transcript turns last) (h : Answers [] turns last)
    (upstreamModel : String) {provider : Provider}
    (hcap : provider.maxTokensField ≠ "messages" ∨ req.maxOutputTokens = none) :
    (buildRequest req upstreamModel provider).get "messages" =
      some (.array (systemJson req.system ++ (transcript turns last).map messageJson)) := by
  rw [get_messages_buildRequest req upstreamModel provider hcap, messagesJson, hreq,
    normalizeToolParents_transcript h]

end AiApiBridge.Chat
