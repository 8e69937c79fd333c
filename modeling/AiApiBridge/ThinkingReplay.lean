import AiApiBridge.AnthropicReplay
import AiApiBridge.ItemTexts

/-!
# Replayed thinking

A client of the Anthropic stream sends the blocks of a turn back as one assistant
message. A turn of reasoning and content has one text block, and a thinking block for
each stretch of reasoning (`ShowsTurn`). The message parser concatenates the texts but
keeps one stretch of thinking only, so nothing is lost exactly when no reasoning is
resumed after content (`readsBackAs_iff`). Where it is resumed something is lost even in
a turn with more blocks than there are block numbers: a thinking block of the client never
has more than one stretch (`OneStretch`).
-/

set_option autoImplicit false

namespace AiApiBridge

open Chat ChatStreamParser AnthropicEmitter
open TreeMaps (Holds)
open Transducer (andThen)

/-! ## What is sent back -/

/-- The content blocks a client rebuilds from frames, by block index. -/
def sentBack (fromStr : String → Option Value) (frames : List SseFrame) : List Value :=
  (clientOf frames).blocks.toList.map fun kb => kb.2.toValue fromStr

/-- Sent as an assistant message, the blocks are parsed to one assistant message with
this text and this reasoning. -/
def ReadsBackAs (toString : Value → String) (blocks : List Value) (text reasoning : String) :
    Prop :=
  ∀ messages, ∃ t r,
    Anthropic.parseMessage toString "assistant" (some (.array blocks)) messages =
      messages ++ [.assistant t r []] ∧ t.getD "" = text ∧ r.getD "" = reasoning

/-- A stream with reasoning, then content, then reasoning again. -/
def ReasoningResumed (chunks : List Value) : Prop :=
  [.reasoning, .content, .reasoning].Sublist (streamParts [] chunks)

instance (chunks : List Value) : Decidable (ReasoningResumed chunks) :=
  inferInstanceAs (Decidable (List.Sublist _ _))

theorem Client.blocks_read_messageDelta (c : Client) (e : AnthropicEmitter) :
    (c.read e.messageDelta).blocks = c.blocks := by
  simp [Client.read, messageDelta]

/-! ## Adding text to a turn -/

/-- A piece of reasoning, in a message that is opened. -/
def addThought (e : AnthropicEmitter) (t : String) : Emission :=
  andThen (ensureThinkingOpen e) fun e =>
    ({ e with thinkingText := e.thinkingText ++ t },
      e.thinkingIndex.toList.map fun index => blockDelta index (thinkingDelta t))

/-- A piece of content, when no reasoning is open. -/
def addText (e : AnthropicEmitter) (t : String) : Emission :=
  andThen (ensureTextOpen e) fun e =>
    ({ e with textText := e.textText ++ t },
      e.textIndex.toList.map fun index => blockDelta index (textDelta t))

section Pieces

variable {e : AnthropicEmitter}

theorem addThought_first (h : e.thinkingIndex = none) (t : String) :
    addThought e t =
      ({ e with
          nextIndex := e.nextIndex + 1
          thinkingIndex := some e.nextIndex
          thinkingText := e.thinkingText ++ t },
        [blockStart e.nextIndex [("type", .string "thinking"), ("thinking", .string "")],
          blockDelta e.nextIndex (thinkingDelta t)]) := by
  simp [addThought, andThen, ensureThinkingOpen, h]

theorem addThought_more {i : Nat} (h : e.thinkingIndex = some i) (t : String) :
    addThought e t =
      ({ e with thinkingText := e.thinkingText ++ t }, [blockDelta i (thinkingDelta t)]) := by
  simp [addThought, andThen, ensureThinkingOpen, h]

theorem addText_first (h : e.textIndex = none) (t : String) :
    addText e t =
      ({ e with
          nextIndex := e.nextIndex + 1
          textIndex := some e.nextIndex
          textText := e.textText ++ t },
        [blockStart e.nextIndex [("type", .string "text"), ("text", .string "")],
          blockDelta e.nextIndex (textDelta t)]) := by
  simp [addText, andThen, ensureTextOpen, h]

theorem addText_more {i : Nat} (h : e.textIndex = some i) (t : String) :
    addText e t = ({ e with textText := e.textText ++ t }, [blockDelta i (textDelta t)]) := by
  simp [addText, andThen, ensureTextOpen, h]

end Pieces

/-! ## The blocks of a turn -/

/-- The block of a stretch of reasoning that is still open. -/
def openThinking (s : Segment Nat) : ClientBlock := .thinking s.text ""

/-- The text block of a turn is at this index and is the only one; without an index there
is none. -/
def TextAt (bs : List ClientBlock) (content : String) : Option Nat → Prop
  | none => content = "" ∧ bs.filterMap ClientBlock.said = []
  | some j => ∃ pre post, bs = pre ++ .text content :: post ∧ pre.length = j ∧
      pre.filterMap ClientBlock.said = [] ∧ post.filterMap ClientBlock.said = []

theorem TextAt.join {bs : List ClientBlock} {content : String} {index : Option Nat}
    (h : TextAt bs content index) : String.join (bs.filterMap ClientBlock.said) = content := by
  cases index with
  | none =>
      rcases h with ⟨hcontent, hsaid⟩
      rw [hsaid, hcontent]
      rfl
  | some j =>
      rcases h with ⟨pre, post, rfl, -, hpre, hpost⟩
      simp [hpre, hpost]

/-- A block of another kind comes behind. -/
theorem TextAt.snoc {bs : List ClientBlock} {content : String} {index : Option Nat}
    (h : TextAt bs content index) {b : ClientBlock} (hb : b.said = none) :
    TextAt (bs ++ [b]) content index := by
  cases index with
  | none =>
      rcases h with ⟨hcontent, hsaid⟩
      exact ⟨hcontent, by simp [hsaid, hb]⟩
  | some j =>
      rcases h with ⟨pre, post, rfl, hlen, hpre, hpost⟩
      refine ⟨pre, post ++ [b], by simp, hlen, hpre, ?_⟩
      rw [List.filterMap_append, hpost]
      simp [hb]

/-- However the blocks are numbered, a thinking block of the client has one stretch of
reasoning, and the block of this number has the open one. There are no other blocks than
texts. -/
structure OneStretch (blocks : Std.ExtTreeMap Nat ClientBlock) (number : Nat)
    (c : Channel Nat) : Prop where
  thoughts : ∀ (i : Nat) (b : ClientBlock) (t : String), blocks[i]? = some b →
    b.thought = some t →
    (∃ s ∈ c.closed, s.toSegment.text = t) ∨ ∃ s, c.current = some s ∧ i = number ∧ s.text = t
  opened : ∀ s, c.current = some s → blocks[number]? = some (openThinking s)
  calls : ∀ (i : Nat) (b : ClientBlock), blocks[i]? = some b → b.called = none

namespace OneStretch

variable {blocks : Std.ExtTreeMap Nat ClientBlock} {number : Nat} {c : Channel Nat}

theorem empty (number : Nat) : OneStretch ∅ number .new where
  thoughts := by
    intro i b t hb
    simp at hb
  opened := by
    intro s hs
    cases hs
  calls := by
    intro i b hb
    simp at hb

/-- While no stretch is open, all thoughts are closed ones. -/
theorem closed (h : OneStretch blocks number c) (hc : c.current = none) {i : Nat} {b : ClientBlock}
    {t : String} (hb : blocks[i]? = some b) (ht : b.thought = some t) :
    ∃ s ∈ c.closed, s.toSegment.text = t := by
  rcases h.thoughts i b t hb ht with hclosed | ⟨s, hs, -⟩
  · exact hclosed
  · rw [hc] at hs
    cases hs

/-- Without an open stretch no number is special. -/
theorem renumber (h : OneStretch blocks number c) (hc : c.current = none) (number' : Nat) :
    OneStretch blocks number' c where
  thoughts := fun _ _ _ hb ht => .inl (h.closed hc hb ht)
  opened := by
    intro s hs
    rw [hc] at hs
    cases hs
  calls := h.calls

/-- A block is put in its place, over the open one if there is one. -/
theorem insert (h : OneStretch blocks number c) {c' : Channel Nat} {i number' : Nat}
    {b : ClientBlock} (hi : ∀ s, c.current = some s → i = number)
    (hclosed : ∀ s ∈ c.closed, s ∈ c'.closed) (hcalled : b.called = none)
    (hthought : ∀ t, b.thought = some t → (∃ s ∈ c'.closed, s.toSegment.text = t) ∨
      ∃ s, c'.current = some s ∧ i = number' ∧ s.text = t)
    (hopened : ∀ s, c'.current = some s → i = number' ∧ b = openThinking s) :
    OneStretch (blocks.insert i b) number' c' where
  thoughts := by
    intro j b' t hb' ht
    rw [Std.ExtTreeMap.getElem?_insert] at hb'
    by_cases hij : i = j
    · rw [if_pos (by simpa using hij)] at hb'
      cases hb'
      subst hij
      exact hthought t ht
    · rw [if_neg (by simpa using hij)] at hb'
      -- the other blocks have closed stretches
      rcases h.thoughts j b' t hb' ht with ⟨s, hs, htext⟩ | ⟨s, hs, hj, -⟩
      · exact .inl ⟨s, hclosed s hs, htext⟩
      · exact absurd ((hi s hs).trans hj.symm) hij
  opened := by
    intro s hs
    obtain ⟨rfl, rfl⟩ := hopened s hs
    simp
  calls := by
    intro j b' hb'
    rw [Std.ExtTreeMap.getElem?_insert] at hb'
    split at hb'
    · cases hb'
      exact hcalled
    · exact h.calls j b' hb'

/-- While no stretch is open, a block without a new thought may be put anywhere. -/
theorem insert_shut (h : OneStretch blocks number c) (hc : c.current = none) (i number' : Nat)
    {b : ClientBlock} (hcalled : b.called = none)
    (hthought : ∀ t, b.thought = some t → ∃ s ∈ c.closed, s.toSegment.text = t) :
    OneStretch (blocks.insert i b) number' c := by
  have hnone : ∀ s, c.current ≠ some s := by
    intro s hs
    rw [hc] at hs
    cases hs
  exact h.insert (fun s hs => absurd hs (hnone s)) (fun s hs => hs) hcalled
    (fun t ht => .inl (hthought t ht)) fun s hs => absurd hs (hnone s)

/-- A block that has no thought yet. -/
theorem insert_new (h : OneStretch blocks number c) (hc : c.current = none) (i number' : Nat)
    {b : ClientBlock} (hcalled : b.called = none) (hthought : b.thought = none) :
    OneStretch (blocks.insert i b) number' c := by
  apply h.insert_shut hc i number' hcalled
  intro t ht
  rw [hthought] at ht
  cases ht

/-- The open stretch begins, or goes on. -/
theorem insert_open (h : OneStretch blocks number c) {c' : Channel Nat} {s : Segment Nat}
    (hclosed : c'.closed = c.closed) (hs : c'.current = some s) :
    OneStretch (blocks.insert number (openThinking s)) number c' := by
  refine h.insert (fun _ _ => rfl) (fun s hs => hclosed ▸ hs) rfl ?_ ?_
  · intro t ht
    rw [openThinking, ClientBlock.thought_thinking, Chat.nonEmpty] at ht
    split at ht
    · cases ht
    · exact .inr ⟨s, hs, rfl, Option.some.inj ht⟩
  · intro s' hs'
    rw [hs] at hs'
    cases hs'
    exact ⟨rfl, rfl⟩

/-- The open stretch is signed. -/
theorem insert_signed (h : OneStretch blocks number c) {s : Segment Nat} (hs : c.current = some s)
    (signature : String) (number' : Nat) :
    OneStretch (blocks.insert number (.thinking s.text signature)) number' c.close := by
  have hclosed : c.close.closed = c.closed ++ [⟨s, c.buffer⟩] := by simp [Channel.close, hs]
  have hcurrent : c.close.current = none := by simp [Channel.close, hs]
  refine h.insert (fun _ _ => rfl) (fun s hs => ?_) rfl ?_ ?_
  · rw [hclosed]
    exact List.mem_append_left _ hs
  · intro t ht
    rw [ClientBlock.thought_thinking, Chat.nonEmpty] at ht
    split at ht
    · cases ht
    · exact .inl ⟨⟨s, c.buffer⟩, by rw [hclosed]; simp, Option.some.inj ht⟩
  · intro s' hs'
    rw [hcurrent] at hs'
    cases hs'

/-- A text block grows, or another block stays as it is. -/
theorem insert_grown (h : OneStretch blocks number c) (hc : c.current = none) {i : Nat}
    {b : ClientBlock} (hb : blocks[i]? = some b) (t : String) (number' : Nat) :
    OneStretch (blocks.insert i (b.grow (.object (textDelta t)))) number' c := by
  have hthought : (b.grow (.object (textDelta t))).thought = b.thought := by
    cases b <;> rfl
  have hcalled : (b.grow (.object (textDelta t))).called = b.called := by
    cases b <;> rfl
  apply h.insert_shut hc i number' (hcalled.trans (h.calls i b hb))
  intro t' ht'
  exact h.closed hc hb (hthought.symm.trans ht')

end OneStretch

/-! ## The frames of a turn -/

/-- A block is opened and gets its first delta. -/
theorem blocks_startDelta (frames : List SseFrame) (n : Nat) (block : Map) {b : ClientBlock}
    (hb : ClientBlock.ofStart (.object block) = some b) (delta : Map) :
    (clientOf (frames ++ [blockStart n block, blockDelta n delta])).blocks =
      ((clientOf frames).blocks.insert (asU32 n) b).insert (asU32 n) (b.grow (.object delta)) := by
  rw [clientOf_append, List.foldl_cons, List.foldl_cons, List.foldl_nil, Client.read_blockStart, hb,
    Client.read_blockDelta _ n delta (b := b) (by simp)]

/-- A block gets a delta. -/
theorem blocks_delta {frames : List SseFrame} {n : Nat} {b : ClientBlock}
    (hb : (clientOf frames).blocks[asU32 n]? = some b) (delta : Map) :
    (clientOf (frames ++ [blockDelta n delta])).blocks =
      (clientOf frames).blocks.insert (asU32 n) (b.grow (.object delta)) := by
  rw [clientOf_append, List.foldl_cons, List.foldl_nil, Client.read_blockDelta _ n delta hb]

/-- A delta for a block that is not there is lost. -/
theorem blocks_lostDelta {frames : List SseFrame} {n : Nat}
    (hnone : (clientOf frames).blocks[asU32 n]? = none) (delta : Map) :
    (clientOf (frames ++ [blockDelta n delta])).blocks = (clientOf frames).blocks := by
  simp [clientOf_append, Client.read, blockDelta, Client.frameIndex, hnone]

/-- The emitter and the client of its frames, in the middle of a turn without calls: the
closed blocks `bs`, the open stretch of reasoning, and the content so far. -/
structure ShowsTurn (e : AnthropicEmitter) (frames : List SseFrame) (c : Channel Nat)
    (content : String) (bs : List ClientBlock) : Prop where
  wf : c.Wf
  tools : e.tools = ∅
  /-- The client has them all, as long as each has a number of its own. -/
  blocks : bs.length + c.current.toList.length ≤ 2 ^ 32 →
    Holds (clientOf frames).blocks (bs ++ c.current.toList.map openThinking)
  stretches : OneStretch (clientOf frames).blocks (asU32 bs.length) c
  nextIndex : e.nextIndex = bs.length + c.current.toList.length
  thinkingIndex : e.thinkingIndex = c.current.map fun _ => bs.length
  thoughts : bs.filterMap ClientBlock.thought = c.closed.map fun s => s.toSegment.text
  text : TextAt bs content e.textIndex
  calls : bs.filterMap ClientBlock.called = []
  few : bs.length ≤ c.closed.length + e.textIndex.toList.length

theorem showsTurn_new : ShowsTurn .new [] .new "" [] where
  wf := Channel.new_wf
  tools := rfl
  blocks := fun _ => TreeMaps.holds_empty
  stretches := .empty 0
  nextIndex := rfl
  thinkingIndex := rfl
  thoughts := rfl
  text := ⟨rfl, rfl⟩
  calls := rfl
  few := le_refl 0

namespace ShowsTurn

variable {e : AnthropicEmitter} {frames : List SseFrame} {c : Channel Nat} {content : String}
  {bs : List ClientBlock}

/-- The message is opened. -/
theorem start (h : ShowsTurn e frames c content bs) :
    ShowsTurn (start e).1 (frames ++ (AnthropicEmitter.start e).2) c content bs := by
  rw [AnthropicEmitter.start]
  split
  · rw [List.append_nil]
    exact h
  · exact { h with
      blocks := by rw [clientOf_messageStart]; exact h.blocks
      stretches := by rw [clientOf_messageStart]; exact h.stretches }

/-- While no reasoning is open, the client has the closed blocks. -/
theorem holds_closed (h : ShowsTurn e frames c content bs) (hc : c.current = none)
    (hlen : bs.length ≤ 2 ^ 32) : Holds (clientOf frames).blocks bs := by
  have hheld := h.blocks (by simpa [hc] using hlen)
  simpa [hc] using hheld

/-- An open stretch is the last block of the client. -/
theorem holds_open (h : ShowsTurn e frames c content bs) {s : Segment Nat} (hc : c.current = some s)
    (hlen : bs.length < 2 ^ 32) : Holds (clientOf frames).blocks (bs ++ [openThinking s]) := by
  have hheld := h.blocks (by
    rw [hc, Option.toList_some, List.length_singleton]
    omega)
  simpa [hc] using hheld

/-- The first piece of a stretch opens a block behind the others. -/
theorem think_first (h : ShowsTurn e frames c content bs) (hc : c.current = none) {t : String}
    (ht : t ≠ "") (tag : Nat) :
    ShowsTurn (addThought e t).1 (frames ++ (addThought e t).2) (c.deliver tag t) content bs := by
  have hindex : e.thinkingIndex = none := by simpa [hc] using h.thinkingIndex
  have hnext : e.nextIndex = bs.length := by simpa [hc] using h.nextIndex
  have hread := blocks_startDelta frames bs.length
    [("type", .string "thinking"), ("thinking", .string "")] (b := .thinking "" "") (by decide)
    (thinkingDelta t)
  have hcurrent : (c.deliver tag t).current = some ⟨tag, [t]⟩ := by simp [Channel.deliver, hc]
  have hgrown : ClientBlock.grow (.object (thinkingDelta t)) (.thinking "" "") =
      openThinking ⟨tag, [t]⟩ := by
    simp [openThinking, Segment.text, ClientBlock.grow, thinkingDelta, strOr]
  rw [hgrown] at hread
  rw [addThought_first hindex, hnext]
  exact { h with
    wf := h.wf.deliver tag ht
    blocks := by
      intro hlen
      have hlt : bs.length < 2 ^ 32 := by
        simp only [hcurrent, Option.toList_some, List.length_singleton] at hlen
        omega
      rw [hread, asU32_of_lt hlt, hcurrent]
      have hheld := ((h.holds_closed hc (Nat.le_of_lt hlt)).snoc (.thinking "" "")).set
        (i := bs.length) (by simp) (openThinking ⟨tag, [t]⟩)
      simpa using hheld
    stretches := by
      rw [hread]
      exact (h.stretches.insert_new hc _ _ rfl rfl).insert_open rfl hcurrent
    nextIndex := by simp [hcurrent]
    thinkingIndex := by simp [hcurrent] }

/-- The next piece goes to the open block. -/
theorem think_more (h : ShowsTurn e frames c content bs) {s : Segment Nat}
    (hc : c.current = some s) {t : String} (ht : t ≠ "") (tag : Nat) :
    ShowsTurn (addThought e t).1 (frames ++ (addThought e t).2) (c.deliver tag t) content bs := by
  have hindex : e.thinkingIndex = some bs.length := by simpa [hc] using h.thinkingIndex
  have hnext : e.nextIndex = bs.length + 1 := by simpa [hc] using h.nextIndex
  have hread := blocks_delta (h.stretches.opened s hc) (thinkingDelta t)
  have hcurrent : (c.deliver tag t).current = some { s with parts := s.parts ++ [t] } := by
    simp [Channel.deliver, hc]
  have hgrown : ClientBlock.grow (.object (thinkingDelta t)) (openThinking s) =
      openThinking { s with parts := s.parts ++ [t] } := by
    simp [openThinking, Segment.text, ClientBlock.grow, thinkingDelta, strOr]
  rw [hgrown] at hread
  rw [addThought_more hindex]
  exact { h with
    wf := h.wf.deliver tag ht
    blocks := by
      intro hlen
      have hlt : bs.length < 2 ^ 32 := by
        simp only [hcurrent, Option.toList_some, List.length_singleton] at hlen
        omega
      rw [hread, asU32_of_lt hlt, hcurrent]
      have hheld := (h.holds_open hc hlt).set (i := bs.length) (by simp)
        (openThinking { s with parts := s.parts ++ [t] })
      simpa using hheld
    stretches := by
      rw [hread]
      exact h.stretches.insert_open rfl hcurrent
    nextIndex := by simp [hcurrent, hnext]
    thinkingIndex := by simp [hcurrent, hindex] }

/-- Reasoning goes to the open stretch, or opens one. -/
theorem think (h : ShowsTurn e frames c content bs) {t : String} (ht : t ≠ "") (tag : Nat) :
    ShowsTurn (addThought e t).1 (frames ++ (addThought e t).2) (c.deliver tag t) content bs := by
  cases hc : c.current with
  | none => exact h.think_first hc ht tag
  | some s => exact h.think_more hc ht tag

/-- The open stretch of reasoning is signed and becomes a closed block. -/
theorem closeThinking (h : ShowsTurn e frames c content bs) :
    ∃ bs', ShowsTurn (closeThinking e).1 (frames ++ (AnthropicEmitter.closeThinking e).2) c.close
      content bs' := by
  cases hc : c.current with
  | none =>
      have hindex : e.thinkingIndex = none := by simpa [hc] using h.thinkingIndex
      refine ⟨bs, ?_⟩
      simpa [AnthropicEmitter.closeThinking, hindex, Channel.close, hc] using h
  | some s =>
      have hindex : e.thinkingIndex = some bs.length := by simpa [hc] using h.thinkingIndex
      have hnext : e.nextIndex = bs.length + 1 := by simpa [hc] using h.nextIndex
      have hclosed : c.close.closed = c.closed ++ [⟨s, c.buffer⟩] := by simp [Channel.close, hc]
      have hcurrent : c.close.current = none := by simp [Channel.close, hc]
      -- a block was opened for a text that is not empty, so it counts as a thought
      have htext : s.text ≠ "" := h.wf.text_ne s (by simp [Channel.segments, hc])
      have hgrown : ClientBlock.grow (.object signatureDelta) (openThinking s) =
          .thinking s.text thinkingSignature := by
        simp [openThinking, ClientBlock.grow, signatureDelta, strOr]
      have hsplit : frames ++ [blockDelta bs.length signatureDelta, blockStop bs.length] =
          frames ++ [blockDelta bs.length signatureDelta] ++ [blockStop bs.length] := by simp
      have hread : (clientOf (frames ++
          [blockDelta bs.length signatureDelta, blockStop bs.length])).blocks =
          (clientOf frames).blocks.insert (asU32 bs.length)
            (.thinking s.text thinkingSignature) := by
        rw [hsplit, clientOf_append, List.foldl_cons, List.foldl_nil, Client.read_blockStop,
          blocks_delta (h.stretches.opened s hc), hgrown]
      refine ⟨bs ++ [.thinking s.text thinkingSignature], ?_⟩
      rw [AnthropicEmitter.closeThinking, hindex]
      exact { h with
        wf := h.wf.close
        blocks := by
          intro hlen
          have hlt : bs.length < 2 ^ 32 := by
            simp only [List.length_append, List.length_singleton] at hlen
            omega
          rw [hread, asU32_of_lt hlt, hcurrent]
          have hheld := (h.holds_open hc hlt).set (i := bs.length) (by simp)
            (.thinking s.text thinkingSignature)
          simpa using hheld
        stretches := by
          rw [hread]
          exact h.stretches.insert_signed hc thinkingSignature _
        nextIndex := by simp [hcurrent, hnext]
        thinkingIndex := by simp [hcurrent]
        thoughts := by simp [hclosed, h.thoughts, nonEmpty, htext]
        text := h.text.snoc rfl
        calls := by simp [h.calls]
        few := by
          have := h.few
          simp only [hclosed, List.length_append, List.length_singleton]
          omega }

/-- The first content opens the text block. -/
theorem say_first (h : ShowsTurn e frames c content bs) (hc : c.current = none)
    (hindex : e.textIndex = none) (t : String) :
    ∃ bs', ShowsTurn (addText e t).1 (frames ++ (addText e t).2) c (content ++ t) bs' := by
  have hnext : e.nextIndex = bs.length := by simpa [hc] using h.nextIndex
  have htext := h.text
  rw [hindex] at htext
  rcases htext with ⟨rfl, hsaid⟩
  -- a text block is opened behind the others and takes the text
  have hread := blocks_startDelta frames bs.length
    [("type", .string "text"), ("text", .string "")] (b := .text "") (by decide) (textDelta t)
  have hgrown : ClientBlock.grow (.object (textDelta t)) (.text "") = .text t := by
    simp [ClientBlock.grow, textDelta, strOr]
  rw [hgrown] at hread
  refine ⟨bs ++ [.text t], ?_⟩
  rw [addText_first hindex, hnext]
  exact { h with
    blocks := by
      intro hlen
      have hlt : bs.length < 2 ^ 32 := by
        simp only [List.length_append, List.length_singleton] at hlen
        omega
      rw [hread, asU32_of_lt hlt, hc]
      have hheld := ((h.holds_closed hc (Nat.le_of_lt hlt)).snoc (.text "")).set
        (i := bs.length) (by simp) (.text t)
      simpa using hheld
    stretches := by
      rw [hread]
      exact (h.stretches.insert_new hc _ 0 rfl rfl).insert_new hc _ _ rfl rfl
    nextIndex := by simp [hc]
    thinkingIndex := by simpa [hc] using h.thinkingIndex
    thoughts := by simp [h.thoughts]
    text := ⟨bs, [], by simp, rfl, hsaid, rfl⟩
    calls := by simp [h.calls]
    few := by
      have := h.few
      simp only [hindex, Option.toList_none, List.length_nil] at this
      simp only [List.length_append, List.length_singleton, Option.toList_some]
      omega }

/-- More content goes to the text block, wherever it is. -/
theorem say_more (h : ShowsTurn e frames c content bs) (hc : c.current = none) {j : Nat}
    (hindex : e.textIndex = some j) (t : String) :
    ∃ bs', ShowsTurn (addText e t).1 (frames ++ (addText e t).2) c (content ++ t) bs' := by
  have hnext : e.nextIndex = bs.length := by simpa [hc] using h.nextIndex
  have htext := h.text
  rw [hindex] at htext
  -- the text block grows in its place, whatever blocks came behind it
  rcases htext with ⟨pre, post, rfl, rfl, hpre, hpost⟩
  have hthoughts := h.thoughts
  have hcalls := h.calls
  have hfew := h.few
  refine ⟨pre ++ .text (content ++ t) :: post, ?_⟩
  rw [addText_more hindex]
  exact { h with
    blocks := by
      intro hlen
      have hlen' : (pre ++ ClientBlock.text content :: post).length ≤ 2 ^ 32 := by
        simpa [hc] using hlen
      have hheld := clientOf_blockDelta (h.holds_closed hc hlen') hlen' (i := pre.length)
        (b := .text content) (by simp) (textDelta t)
      simpa [hc, ClientBlock.grow, textDelta, strOr] using hheld
    stretches := by
      cases hb : (clientOf frames).blocks[asU32 pre.length]? with
      | none =>
          rw [blocks_lostDelta hb]
          exact h.stretches.renumber hc _
      | some b =>
          rw [blocks_delta hb]
          exact h.stretches.insert_grown hc hb t _
    nextIndex := by simpa [hc] using hnext
    thinkingIndex := by simpa [hc] using h.thinkingIndex
    thoughts := by simpa [List.filterMap_cons] using hthoughts
    text := by
      rw [hindex]
      exact ⟨pre, post, rfl, rfl, hpre, hpost⟩
    calls := by simpa [List.filterMap_cons] using hcalls
    few := by simpa using hfew }

/-- Content goes to the text block, or opens it. -/
theorem say (h : ShowsTurn e frames c content bs) (hc : c.current = none) (t : String) :
    ∃ bs', ShowsTurn (addText e t).1 (frames ++ (addText e t).2) c (content ++ t) bs' := by
  cases hindex : e.textIndex with
  | none => exact h.say_first hc hindex t
  | some j => exact h.say_more hc hindex t

section Events

variable (fromStr : String → Option Value)

/-- The events of a turn without calls. -/
def Spoken : CanonicalEvent → Prop
  | .created _ _ => True
  | .reasoningDelta t => t ≠ ""
  | .textDelta _ => True
  | .usage _ => True
  | _ => False

/-- **One event.** -/
theorem event (h : ShowsTurn e frames c content bs) {ev : CanonicalEvent} (hev : Spoken ev) :
    ∃ bs', ShowsTurn (onEvent fromStr e ev).1 (frames ++ (onEvent fromStr e ev).2)
      (stepChannel .reasoning e.nextIndex c ev) (content ++ (contentOf ev).getD "") bs' := by
  cases ev with
  | created responseId model =>
      have hnamed : ShowsTurn { e with messageId := responseId, model } frames c content bs :=
        { h with }
      refine ⟨bs, ?_⟩
      simpa [onEvent, contentOf, stepChannel, eventRole] using hnamed.start
  | reasoningDelta t =>
      refine ⟨bs, ?_⟩
      have := h.start.think hev e.nextIndex
      simpa [onEvent, addThought, contentOf, stepChannel, eventRole, eventText, andThen,
        List.append_assoc] using this
  | textDelta t =>
      -- closing the thinking adds its signature
      obtain ⟨bs', hclosed⟩ := h.start.closeThinking
      have hcurrent : c.close.current = none := by
        cases hc : c.current <;> simp [Channel.close, hc]
      obtain ⟨bs'', hsaid⟩ := hclosed.say hcurrent t
      refine ⟨bs'', ?_⟩
      simpa [onEvent, addText, contentOf, stepChannel, eventRole, andThen,
        List.append_assoc] using hsaid
  | usage counts =>
      refine ⟨bs, ?_⟩
      have hcounted : ShowsTurn { e with usage := some counts } frames c content bs := { h with }
      simpa [onEvent, contentOf, stepChannel, eventRole] using hcounted
  | toolCallStart index callId name => cases hev
  | toolCallArgsDelta index delta => cases hev
  | toolCallDone index => cases hev
  | completed => cases hev
  | error message status => cases hev

omit fromStr in
/-- The buffer gets the reasoning of an event. -/
theorem buffer_stepChannel {ev : CanonicalEvent} (hev : Spoken ev) (tag : Nat) (c : Channel Nat) :
    (stepChannel .reasoning tag c ev).buffer = c.buffer ++ (reasoningOf ev).getD "" := by
  cases ev with
  | created responseId model => simp [stepChannel, eventRole, reasoningOf]
  | reasoningDelta t => simp [stepChannel, eventRole, eventText, reasoningOf, Channel.deliver]
  | textDelta t =>
      cases hc : c.current <;> simp [stepChannel, eventRole, reasoningOf, Channel.close, hc]
  | usage counts => simp [stepChannel, eventRole, reasoningOf]
  | toolCallStart index callId name => cases hev
  | toolCallArgsDelta index delta => cases hev
  | toolCallDone index => cases hev
  | completed => cases hev
  | error message status => cases hev

/-- **A turn.** The buffer of the channel is the reasoning of the turn, and its segments
are counted by the events. -/
theorem run (evs : List CanonicalEvent) (h : ∀ ev ∈ evs, Spoken ev) :
    ∃ c bs, ShowsTurn (Transducer.run (onEvent fromStr) .new evs).1
        (Transducer.run (onEvent fromStr) .new evs).2 c (String.join (evs.filterMap contentOf)) bs ∧
      c.buffer = String.join (evs.filterMap reasoningOf) ∧
      c.Counts (SegmentCount.after (eventRole .reasoning) ⟨0, false⟩ evs) := by
  refine Transducer.run_invariant (onEvent fromStr) (fun evs frames e => (∀ ev ∈ evs, Spoken ev) →
    ∃ c bs, ShowsTurn e frames c (String.join (evs.filterMap contentOf)) bs ∧
      c.buffer = String.join (evs.filterMap reasoningOf) ∧
      c.Counts (SegmentCount.after (eventRole .reasoning) ⟨0, false⟩ evs)) ?_ ?_ evs h
  · exact fun _ => ⟨.new, [], showsTurn_new, rfl, rfl, rfl⟩
  · intro evs frames e ev ih hevs
    obtain ⟨c, bs, hshows, hbuffer, hcounts⟩ := ih fun ev' hev' => hevs ev' (by simp [hev'])
    have hev := hevs ev (by simp)
    obtain ⟨bs', hshows'⟩ := hshows.event fromStr hev
    refine ⟨stepChannel .reasoning e.nextIndex c ev, bs', ?_, ?_, ?_⟩
    · rw [join_filterMap_snoc]
      exact hshows'
    · rw [join_filterMap_snoc, ← hbuffer]
      exact buffer_stepChannel hev e.nextIndex c
    · rw [SegmentCount.after_append]
      -- a segment begins with its first text, and any event that breaks it ends it
      cases hr : eventRole .reasoning ev with
      | text => simpa [stepChannel, hr] using hcounts.deliver e.nextIndex (eventText ev)
      | brk => simpa [stepChannel, hr] using hcounts.close
      | idle => simpa [stepChannel, hr, SegmentCount.step] using hcounts

end Events

/-- The last event closes the reasoning. Its other frames tell the client of no block. -/
theorem blocks_completed (h : ShowsTurn e frames c content bs) (fromStr : String → Option Value) :
    (clientOf (frames ++ (onEvent fromStr e .completed).2)).blocks =
      (clientOf (frames ++ (AnthropicEmitter.closeThinking e).2)).blocks := by
  obtain ⟨bs', hclosed⟩ := h.closeThinking
  have htools : (closeText (AnthropicEmitter.closeThinking e).1).1.tools = ∅ := by
    rw [closeText]
    split
    · exact hclosed.tools
    · exact hclosed.tools
  simp only [onEvent, Transducer.andThen_fst, Transducer.andThen_snd,
    closeOpenTools_of_empty fromStr htools, List.append_nil, ← List.append_assoc]
  rw [List.append_assoc, List.append_assoc, clientOf_append]
  cases hindex : (AnthropicEmitter.closeThinking e).1.textIndex <;>
    simp [closeText, hindex, Client.blocks_read_messageDelta, clientOf_append]

/-- The thoughts of a turn that is over are its stretches of reasoning. -/
theorem thoughts_eq (h : ShowsTurn e frames c content bs) (hc : c.current = none) :
    bs.filterMap ClientBlock.thought = c.segments.map Segment.text := by
  rw [h.thoughts, Channel.segments, hc, Option.toList_none, List.append_nil, List.map_map]
  rfl

end ShowsTurn

/-! ## Reading the blocks back -/

/-- The message parser keeps the last thinking block. -/
theorem readsBackAs_map_iff (fromStr : String → Option Value) (toString : Value → String)
    {bs : List ClientBlock} (hcalls : bs.filterMap ClientBlock.called = [])
    (text reasoning : String) :
    ReadsBackAs toString (bs.map (ClientBlock.toValue fromStr)) text reasoning ↔
      String.join (bs.filterMap ClientBlock.said) = text ∧
        (bs.filterMap ClientBlock.thought).getLast?.getD "" = reasoning := by
  -- the parser makes one assistant message of the blocks
  have hparsed : ∀ messages, ∃ t, Anthropic.parseMessage toString "assistant"
      (some (.array (bs.map (ClientBlock.toValue fromStr)))) messages =
        messages ++ [.assistant t (bs.filterMap ClientBlock.thought).getLast? []] ∧
      t.getD "" = String.join (bs.filterMap ClientBlock.said) := by
    intro messages
    rw [Anthropic.parseMessage, if_neg (by decide), if_pos rfl]
    simp only [Anthropic.foldl_parseAssistantBlock, hcalls, Option.or_none, List.map_nil,
      List.append_nil, Anthropic.AssistantParts.message]
    refine ⟨_, rfl, ?_⟩
    by_cases hsaid : bs.filterMap ClientBlock.said = []
    · simp only [hsaid, if_true]
      split <;> rfl
    · simp [hsaid]
  constructor
  · intro h
    obtain ⟨t, r, hread, ht, hr⟩ := h []
    obtain ⟨t', hread', ht'⟩ := hparsed []
    rw [hread'] at hread
    cases hread
    exact ⟨ht'.symm.trans ht, hr⟩
  · rintro ⟨htext, hreasoning⟩ messages
    obtain ⟨t, hread, ht⟩ := hparsed messages
    exact ⟨t, _, hread, ht.trans htext, hreasoning⟩

/-- If the blocks of a client are read back with all the reasoning, there was one stretch
of it. -/
theorem OneStretch.length_le_one {blocks : Std.ExtTreeMap Nat ClientBlock} {number : Nat}
    {c : Channel Nat} (h : OneStretch blocks number c) (hwf : c.Wf) (hc : c.current = none)
    (hlast : ((blocks.toList.map Prod.snd).filterMap ClientBlock.thought).getLast?.getD "" =
      c.buffer) : c.segments.length ≤ 1 := by
  cases hthought : ((blocks.toList.map Prod.snd).filterMap ClientBlock.thought).getLast? with
  | none =>
      rw [hthought] at hlast
      rw [hwf.segments_eq_nil hlast.symm]
      exact Nat.zero_le 1
  | some t =>
      rw [hthought] at hlast
      obtain ⟨b, hb, ht⟩ := List.mem_filterMap.1 (List.mem_of_getLast? hthought)
      obtain ⟨⟨i, b⟩, hentry, rfl⟩ := List.mem_map.1 hb
      obtain ⟨s, hs, htext⟩ := h.closed hc (TreeMaps.getElem?_of_mem_toList hentry) ht
      apply hwf.length_le_one (s := s.toSegment) _ (htext.trans hlast)
      exact List.mem_append_left _ (List.mem_map_of_mem hs)

theorem OneStretch.filterMap_called {blocks : Std.ExtTreeMap Nat ClientBlock} {number : Nat}
    {c : Channel Nat} (h : OneStretch blocks number c) :
    (blocks.toList.map Prod.snd).filterMap ClientBlock.called = [] := by
  rw [List.filterMap_eq_nil_iff]
  intro b hb
  obtain ⟨⟨i, b⟩, hentry, rfl⟩ := List.mem_map.1 hb
  exact h.calls i b (TreeMaps.getElem?_of_mem_toList hentry)

/-- **The blocks of a turn**, read back: nothing is lost exactly when there was one stretch
of reasoning at most. -/
theorem ShowsTurn.nothing_lost_iff {e : AnthropicEmitter} {frames : List SseFrame}
    {c : Channel Nat} {content : String} {bs : List ClientBlock}
    (h : ShowsTurn e frames c content bs) (hc : c.current = none)
    (fromStr : String → Option Value) (toString : Value → String) :
    ReadsBackAs toString (sentBack fromStr frames) content c.buffer ↔ c.segments.length ≤ 1 := by
  have hsent : sentBack fromStr frames =
      ((clientOf frames).blocks.toList.map Prod.snd).map (ClientBlock.toValue fromStr) := by
    rw [sentBack, List.map_map]
    rfl
  rw [hsent, readsBackAs_map_iff fromStr toString h.stretches.filterMap_called]
  constructor
  · rintro ⟨-, hlast⟩
    exact h.stretches.length_le_one h.wf hc hlast
  · intro hlen
    -- with one stretch there are two blocks at most, so each has a number of its own
    have hfew : bs.length ≤ 2 := by
      have htext : e.textIndex.toList.length ≤ 1 := by cases e.textIndex <;> simp
      have hclosed : c.closed.length ≤ 1 := by simpa [Channel.segments, hc] using hlen
      have := h.few
      omega
    have hheld := h.holds_closed hc (hfew.trans (by decide))
    rw [hheld.toList, h.text.join, h.thoughts_eq hc]
    exact ⟨rfl, h.wf.last_eq_buffer hlen⟩

/-- The same of a turn that ends here. -/
theorem ShowsTurn.completed {e : AnthropicEmitter} {frames : List SseFrame} {c : Channel Nat}
    {content : String} {bs : List ClientBlock} (h : ShowsTurn e frames c content bs)
    (fromStr : String → Option Value) (toString : Value → String) :
    ReadsBackAs toString (sentBack fromStr (frames ++ (onEvent fromStr e .completed).2)) content
      c.buffer ↔ c.segments.length ≤ 1 := by
  obtain ⟨bs', hclosed⟩ := h.closeThinking
  have hcurrent : c.close.current = none := by
    cases hc : c.current <;> simp [Channel.close, hc]
  have hclose : c.close.buffer = c.buffer ∧ c.close.segments = c.segments := by
    cases hc : c.current <;> simp [Channel.close, Channel.segments, hc]
  have hread := hclosed.nothing_lost_iff hcurrent fromStr toString
  rw [hclose.1, hclose.2] at hread
  rwa [sentBack, h.blocks_completed fromStr]

/-! ## A stream of chunks -/

/-- A chunk without calls gives events of a turn without calls. -/
theorem spoken_onChunk {p : ChatStreamParser} (hp : p.startedTools = []) {c : Value}
    (h : NoError c) (hcalls : chunkFragments c = []) :
    (p.onChunk c).1.startedTools = [] ∧ ∀ ev ∈ (p.onChunk c).2, ShowsTurn.Spoken ev := by
  have hrun : fragmentRun p.startedTools c = ([], []) := by
    rw [fragmentRun, hcalls, hp]
    rfl
  rw [onChunk_eq p h, hrun]
  refine ⟨rfl, fun ev hev => ?_⟩
  simp only [finishEvents, List.insertionSort_nil, List.map_nil, ite_self, List.append_nil,
    List.mem_append, Option.mem_toList, Option.map_eq_some_iff] at hev
  rcases hev with ((hopen | ⟨t, ht, rfl⟩) | ⟨t, -, rfl⟩) | ⟨u, -, rfl⟩
  · obtain ⟨-, model, rfl⟩ := mem_openingEvents hopen
    trivial
  · exact chunkReasoning_ne_empty ht
  · trivial
  · trivial

theorem spoken_run (p : ChatStreamParser) (hp : p.startedTools = []) {chunks : List Value}
    (h : ∀ c ∈ chunks, NoError c) (hcalls : ∀ c ∈ chunks, chunkFragments c = []) :
    ∀ ev ∈ (Transducer.run onChunk p chunks).2, ShowsTurn.Spoken ev := by
  induction chunks generalizing p with
  | nil => simp
  | cons c cs ih =>
      obtain ⟨hp', hspoken⟩ := spoken_onChunk hp (h c (by simp)) (hcalls c (by simp))
      intro ev hev
      rw [Transducer.run_cons, List.mem_append] at hev
      rcases hev with hev | hev
      · exact hspoken ev hev
      · exact ih _ hp' (fun c hc => h c (by simp [hc])) (fun c hc => hcalls c (by simp [hc])) ev hev

/-- Without calls it takes content to interrupt reasoning. -/
theorem interrupted_reasoning_iff {chunks : List Value}
    (hcalls : ∀ c ∈ chunks, chunkFragments c = []) :
    SegmentCount.Interrupted (partRole .reasoning) (streamParts [] chunks) ↔
      ReasoningResumed chunks := by
  have hno : ∀ (chunks : List Value), (∀ c ∈ chunks, chunkFragments c = []) →
      .call ∉ streamParts [] chunks := by
    intro chunks
    induction chunks with
    | nil => simp [streamParts]
    | cons c cs ih =>
        intro hcalls
        have hrest := ih fun c hc => hcalls c (by simp [hc])
        simp [streamParts, chunkParts, callStarts, hcalls c (by simp), hrest]
  constructor
  · rintro ⟨a, b, c, ha, hb, hc, hsub⟩
    have hcall := hno chunks hcalls
    cases a <;> cases b <;> cases c <;>
      simp only [partRole, reduceCtorEq] at ha hb hc
    · exact hsub
    · exact absurd (hsub.subset (by simp)) hcall
  · exact fun hsub => ⟨_, _, _, rfl, rfl, rfl, hsub⟩

/-- The reasoning of a stream is one stretch exactly when it is not resumed. -/
theorem reasoning_segments_le_one_iff (responseId : String) {chunks : List Value}
    (h : ∀ c ∈ chunks, NoError c) (hcalls : ∀ c ∈ chunks, chunkFragments c = []) :
    (SegmentCount.after (eventRole .reasoning) ⟨0, false⟩
        (Transducer.run onChunk (new responseId) chunks).2).segments ≤ 1 ↔
      ¬ ReasoningResumed chunks := by
  have hrole : ∀ ev ∈ (Transducer.run onChunk (new responseId) chunks).2,
      eventRole .reasoning ev = ((partOf ev).map (partRole .reasoning)).getD .idle := by
    intro ev hev
    have hspoken := spoken_run (new responseId) rfl h hcalls ev hev
    cases ev <;> first | rfl | cases hspoken
  rw [← SegmentCount.after_filterMap partOf hrole, filterMap_partOf_run (new responseId) chunks h,
    SegmentCount.segments_le_one_iff]
  exact not_congr (interrupted_reasoning_iff hcalls)

/-- **When no reasoning is lost on the way back.** In a turn of reasoning and content, the
blocks a client rebuilds and sends back are parsed to one assistant message with all the
content and all the reasoning of the upstream exactly when no reasoning is resumed after
content. -/
theorem readsBackAs_iff (fromStr : String → Option Value) (toString : Value → String)
    (responseId : String) (chunks : List Value) (h : ∀ c ∈ chunks, NoError c)
    (hcalls : ∀ c ∈ chunks, chunkFragments c = []) :
    ReadsBackAs toString (sentBack fromStr (messageFrames fromStr responseId chunks))
        (String.join (chunks.filterMap chunkContent))
        (String.join (chunks.filterMap chunkReasoning)) ↔
      ¬ ReasoningResumed chunks := by
  have hspoken := spoken_run (new responseId) rfl h hcalls
  obtain ⟨c, bs, hshows, hbuffer, hcounts⟩ := ShowsTurn.run fromStr _ hspoken
  rw [filterMap_run_onChunk filterMap_contentOf_onChunk _ h] at hshows
  rw [filterMap_run_onChunk filterMap_reasoningOf_onChunk _ h] at hbuffer
  rw [messageFrames, streamEvents, Transducer.run_append_snd, Transducer.run_singleton, ← hbuffer,
    hshows.completed fromStr toString, hcounts.1, reasoning_segments_le_one_iff responseId h hcalls]

/-- Reasoning in two pieces, then content. -/
theorem readsBackAs_iff_thenContent :
    ReadsBackAs (fun _ => "") (sentBack (fun _ => none) (messageFrames (fun _ => none) "r"
        [deltaChunk [("reasoning", .string "a")], deltaChunk [("reasoning", .string "b")],
          deltaChunk [("content", .string "c")]])) "c" "ab" ↔
      ¬ ReasoningResumed [deltaChunk [("reasoning", .string "a")],
        deltaChunk [("reasoning", .string "b")], deltaChunk [("content", .string "c")]] :=
  readsBackAs_iff (fun _ => none) (fun _ => "") "r"
    [deltaChunk [("reasoning", .string "a")], deltaChunk [("reasoning", .string "b")],
      deltaChunk [("content", .string "c")]]
    (by decide) (by decide)

/-- Reasoning resumed after content: the second stretch displaces the first. -/
theorem not_readsBackAs_resumed :
    ¬ ReadsBackAs (fun _ => "") (sentBack (fun _ => none) (messageFrames (fun _ => none) "r"
      [deltaChunk [("reasoning_content", .string "a")], deltaChunk [("content", .string "b")],
        deltaChunk [("reasoning_content", .string "c")]])) "b" "ac" := by
  intro h
  have hsent : sentBack (fun _ => none) (messageFrames (fun _ => none) "r"
      [deltaChunk [("reasoning_content", .string "a")], deltaChunk [("content", .string "b")],
        deltaChunk [("reasoning_content", .string "c")]]) =
      [ClientBlock.thinking "a" thinkingSignature, .text "b",
        .thinking "c" thinkingSignature].map (ClientBlock.toValue fun _ => none) := by
    decide
  rw [hsent] at h
  have := (readsBackAs_map_iff (fun _ => none) (fun _ => "") rfl "b" "ac").1 h
  exact absurd this.2 (by decide)

end AiApiBridge
