import AiApiBridge.Fragmentation
import AiApiBridge.Wire.AnthropicEmitter

/-!
# The blocks of a client

A client of the Anthropic stream rebuilds the message from its frames, block by block
(`Client.read`). In terms of the draft of the events, its blocks are the texts and the
calls (`Draft.blocks`), and the open tools of the emitter are the live calls
(`OpenTools`).
-/

set_option autoImplicit false

namespace AiApiBridge

open Chat ChatStreamParser AnthropicEmitter
open Transducer (andThen)
open TreeMaps (Holds)

/-! ## The client -/

/-- A content block as a client holds it. The input of a tool is the JSON text
received so far. -/
inductive ClientBlock where
  | thinking (text signature : String)
  | text (text : String)
  | toolUse (id name json : String)
  deriving DecidableEq, Repr

namespace ClientBlock

/-- The block that a `content_block_start` announces. -/
def ofStart (block : Value) : Option ClientBlock :=
  let type := strOr block "type" ""
  if type = "thinking" then some (thinking (strOr block "thinking" "") (strOr block "signature" ""))
  else if type = "text" then some (text (strOr block "text" ""))
  else if type = "tool_use" then some (toolUse (strOr block "id" "") (strOr block "name" "") "")
  else none

/-- What a delta adds to a block. -/
def grow (delta : Value) (block : ClientBlock) : ClientBlock :=
  let type := strOr delta "type" ""
  match block with
  | thinking t s =>
      if type = "thinking_delta" then thinking (t ++ strOr delta "thinking" "") s
      else if type = "signature_delta" then thinking t (strOr delta "signature" "")
      else thinking t s
  | text t => if type = "text_delta" then text (t ++ strOr delta "text" "") else text t
  | toolUse id name json =>
      if type = "input_json_delta" then toolUse id name (json ++ strOr delta "partial_json" "")
      else toolUse id name json

/-- The finished block. The input is parsed, or an empty object. -/
def toValue (fromStr : String → Option Value) : ClientBlock → Value
  | thinking t s => .object [("type", .string "thinking"), ("thinking", .string t),
      ("signature", .string s)]
  | text t => textBlock t
  | toolUse id name json => toolUseBlock id name (toolInput fromStr json)

end ClientBlock

/-- What a client knows of the message. -/
structure Client where
  message : Option Map
  blocks : Std.ExtTreeMap Nat ClientBlock

namespace Client

def new : Client := ⟨none, ∅⟩

/-- The block index a frame names. -/
def frameIndex (fr : SseFrame) : Option Nat := (fr.get "index").bind Value.asU64

/-- What a `message_delta` frame changes in the message. -/
def readStop (fr : SseFrame) (m : Map) : Map :=
  let m := Map.insert m "stop_reason" ((fr.get₂ "delta" "stop_reason").getD .null)
  let m := Map.insert m "stop_sequence" ((fr.get₂ "delta" "stop_sequence").getD .null)
  Map.insert m "usage" ((fr.get "usage").getD .null)

/-- Read one frame. -/
def read (c : Client) (fr : SseFrame) : Client :=
  if fr.event = "message_start" then { c with message := (fr.get "message").bind Value.asObject }
  else if fr.event = "content_block_start" then
    match frameIndex fr, (fr.get "content_block").bind ClientBlock.ofStart with
    | some i, some block => { c with blocks := c.blocks.insert i block }
    | _, _ => c
  else if fr.event = "content_block_delta" then
    match frameIndex fr, fr.get "delta" with
    | some i, some delta =>
        match c.blocks[i]? with
        | some block => { c with blocks := c.blocks.insert i (block.grow delta) }
        | none => c
    | _, _ => c
  else if fr.event = "message_delta" then
    { c with message := c.message.map (readStop fr) }
  else c

/-- The message as rebuilt. -/
def rebuilt (fromStr : String → Option Value) (c : Client) : Option Value :=
  c.message.map fun m =>
    .object (Map.insert m "content" (.array (c.blocks.toList.map fun kb => kb.2.toValue fromStr)))

end Client

/-- A client that has read these frames. -/
def clientOf (frames : List SseFrame) : Client := frames.foldl Client.read .new

/-- The message a client rebuilds from the frames of a stream. -/
def rebuiltMessage (fromStr : String → Option Value) (frames : List SseFrame) : Option Value :=
  (clientOf frames).rebuilt fromStr

/-! ## Reading the emitter's frames -/

@[simp] theorem clientOf_nil : clientOf [] = .new := rfl

theorem clientOf_append (frames frames' : List SseFrame) :
    clientOf (frames ++ frames') = frames'.foldl Client.read (clientOf frames) :=
  List.foldl_append

namespace Client

theorem read_blockStart (c : Client) (i : Nat) (block : Map) :
    c.read (blockStart i block) =
      match ClientBlock.ofStart (.object block) with
      | some b => { c with blocks := c.blocks.insert (asU32 i) b }
      | none => c := by
  simp only [read, blockStart, SseFrame.event_frame, frameIndex, SseFrame.get_frame]
  cases hb : ClientBlock.ofStart (.object block) <;> simp [hb]

theorem read_blockDelta (c : Client) (i : Nat) (delta : Map) {b : ClientBlock}
    (hb : c.blocks[asU32 i]? = some b) :
    c.read (blockDelta i delta) =
      { c with blocks := c.blocks.insert (asU32 i) (b.grow (.object delta)) } := by
  simp [read, blockDelta, frameIndex, hb]

@[simp] theorem message_read_blockStart (c : Client) (i : Nat) (block : Map) :
    (c.read (blockStart i block)).message = c.message := by
  rw [read_blockStart]
  split <;> rfl

@[simp] theorem message_read_blockDelta (c : Client) (i : Nat) (delta : Map) :
    (c.read (blockDelta i delta)).message = c.message := by
  cases hb : c.blocks[asU32 i]? <;> simp [read, blockDelta, frameIndex, hb]

@[simp] theorem read_blockStop (c : Client) (i : Nat) : c.read (blockStop i) = c := by
  simp [read, blockStop]

@[simp] theorem read_messageStop (c : Client) : c.read messageStop = c := by
  simp [read, messageStop]

end Client

/-! ## Blocks of a draft -/

/-- The thinking block of a message, signed when it is closed. -/
def thinkingBlocks (p : Phase) (t : String) : List ClientBlock :=
  if t = "" then [] else [.thinking t (if p = .reasoning then "" else thinkingSignature)]

/-- The text block of a message. -/
def textBlocks (t : String) : List ClientBlock := if t = "" then [] else [.text t]

theorem length_thinkingBlocks (p : Phase) (t : String) : (thinkingBlocks p t).length ≤ 1 := by
  rw [thinkingBlocks]
  split <;> simp

theorem length_textBlocks (t : String) : (textBlocks t).length ≤ 1 := by
  rw [textBlocks]
  split <;> simp

/-- The block of a call. -/
def callBlock (c : ToolCall) : ClientBlock := .toolUse c.callId c.name c.arguments

namespace Draft

/-- The texts of a draft as blocks. -/
def textsBlocks (p : Phase) (d : Draft) : List ClientBlock :=
  thinkingBlocks p d.reasoning ++ textBlocks d.content

/-- A draft as blocks, in the order in which they were opened. -/
def blocks (p : Phase) (d : Draft) : List ClientBlock :=
  d.textsBlocks p ++ d.calls.map fun c => callBlock c.call

/-- The blocks that are closed, in the order in which they were closed. -/
def closedBlocks (d : Draft) : Phase → List ClientBlock
  | .reasoning => []
  | .content => thinkingBlocks .call d.reasoning
  | p => d.textsBlocks p ++ d.closed.map callBlock

/-- What the last event was about: the block it belongs to may be open. -/
def phase (d : Draft) : Phase :=
  if d.calls ≠ [] then .call else if d.content ≠ "" then .content else .reasoning

end Draft

/-! ## Open tools -/

/-- The open tool block of the `k`-th call, when `base` blocks precede the calls. -/
def shownTool (base k : Nat) (c : DraftCall) : ToolBlock :=
  ⟨base + k, c.call.callId, c.call.name, c.call.arguments⟩

/-- The open tools are the live calls. -/
def OpenTools (base : Nat) (tools : Std.ExtTreeMap Nat ToolBlock) (calls : List DraftCall) : Prop :=
  ∀ (i : Nat) (t : ToolBlock), tools[i]? = some t ↔
    ∃ k c, calls[k]? = some c ∧ c.index = i ∧ c.live = true ∧ t = shownTool base k c

namespace OpenTools

variable {base : Nat} {tools : Std.ExtTreeMap Nat ToolBlock} {calls : List DraftCall}

theorem empty (base : Nat) : OpenTools base ∅ [] := by
  intro i t
  simp

/-- Without calls no block precedes one. -/
theorem of_nil (h : OpenTools base tools []) (n : Nat) : OpenTools n tools [] := by
  intro i t
  simpa using h i t

/-- Only one call of an index is live. -/
theorem live_unique (h : OpenTools base tools calls) {j k : Nat} {c c' : DraftCall}
    (hj : calls[j]? = some c') (hk : calls[k]? = some c) (hi : c'.index = c.index)
    (hlive' : c'.live = true) (hlive : c.live = true) : j = k := by
  have h1 := (h c.index (shownTool base k c)).2 ⟨k, c, hk, rfl, hlive, rfl⟩
  have h2 := (h c.index (shownTool base j c')).2 ⟨j, c', hj, hi, hlive', rfl⟩
  have hindex := congrArg ToolBlock.index (Option.some.inj (h1.symm.trans h2))
  simp only [shownTool] at hindex
  omega

theorem not_live_of_none (h : OpenTools base tools calls) {i : Nat} (hi : tools[i]? = none)
    {c : DraftCall} (hc : c ∈ calls) : ¬ (c.index = i ∧ c.live = true) := by
  rintro ⟨hindex, hlive⟩
  obtain ⟨k, hk⟩ := List.getElem?_of_mem hc
  have := (h i (shownTool base k c)).2 ⟨k, c, hk, hindex, hlive, rfl⟩
  rw [hi] at this
  cases this

/-- A call starts behind the others. -/
theorem start (h : OpenTools base tools calls) {i : Nat} (hnone : tools[i]? = none)
    (callId name : String) :
    OpenTools base (tools.insert i ⟨base + calls.length, callId, name, ""⟩)
      (calls ++ [⟨i, ⟨callId, name, ""⟩, true⟩]) := by
  -- a position holds an older call, or it is the last and holds the new one
  have hlast : ∀ k c, (calls ++ [⟨i, ⟨callId, name, ""⟩, true⟩])[k]? = some c →
      calls[k]? = some c ∨ k = calls.length ∧ c = ⟨i, ⟨callId, name, ""⟩, true⟩ := by
    intro k c hk
    rcases Nat.lt_trichotomy k calls.length with hlt | heq | hgt
    · rw [List.getElem?_append_left hlt] at hk
      exact Or.inl hk
    · subst heq
      exact Or.inr ⟨rfl, by simpa using hk.symm⟩
    · rw [List.getElem?_eq_none (by simp; omega)] at hk
      cases hk
  intro j t
  rw [Std.ExtTreeMap.getElem?_insert]
  constructor
  · intro ht
    by_cases hij : i = j
    · rw [if_pos (by simpa using hij)] at ht
      exact ⟨calls.length, ⟨i, ⟨callId, name, ""⟩, true⟩, by simp, hij, rfl,
        (Option.some.inj ht).symm⟩
    · rw [if_neg (by simpa using hij)] at ht
      obtain ⟨k, c, hk, hrest⟩ := (h j t).1 ht
      obtain ⟨hlt, -⟩ := List.getElem?_eq_some_iff.1 hk
      exact ⟨k, c, by rw [List.getElem?_append_left hlt, hk], hrest⟩
  · rintro ⟨k, c, hk, hindex, hlive, rfl⟩
    rcases hlast k c hk with hold | ⟨rfl, rfl⟩
    · have hij : i ≠ j := fun heq =>
        h.not_live_of_none hnone (List.mem_of_getElem? hold) ⟨hindex.trans heq.symm, hlive⟩
      rw [if_neg (by simpa using hij)]
      exact (h j _).2 ⟨k, c, hold, hindex, hlive, rfl⟩
    · rw [if_pos (by simpa using hindex)]
      rfl

/-- Arguments reach one call only. -/
theorem map_append (h : OpenTools base tools calls) {i k : Nat} {c : DraftCall}
    (hk : calls[k]? = some c) (hi : c.index = i) (hlive : c.live = true) (args : String) :
    calls.map (DraftCall.append i args) = calls.set k (c.append i args) := by
  refine List.ext_getElem? fun j => ?_
  rw [List.getElem?_map, List.getElem?_set]
  by_cases hkj : k = j
  · subst hkj
    obtain ⟨hlt, -⟩ := List.getElem?_eq_some_iff.1 hk
    rw [if_pos rfl, if_pos hlt, hk, Option.map_some]
  · rw [if_neg hkj]
    cases hj : calls[j]? with
    | none => rfl
    | some c' =>
        have hother : ¬ (c'.index = i ∧ c'.live = true) := fun hc =>
          hkj (h.live_unique hj hk (hc.1.trans hi.symm) hc.2 hlive).symm
        rw [Option.map_some, DraftCall.append, if_neg hother]

/-- A live call gets arguments. -/
theorem append (h : OpenTools base tools calls) {i k : Nat} {c : DraftCall}
    (hk : calls[k]? = some c) (hi : c.index = i) (hlive : c.live = true) (args : String) :
    OpenTools base (tools.insert i (shownTool base k (c.append i args)))
      (calls.map (DraftCall.append i args)) := by
  have hkeep : ∀ c' : DraftCall, (c'.append i args).index = c'.index ∧
      (c'.append i args).live = c'.live := by
    intro c'
    rw [DraftCall.append]
    split <;> exact ⟨rfl, rfl⟩
  intro j t
  rw [Std.ExtTreeMap.getElem?_insert]
  by_cases hij : i = j
  · subst hij
    rw [if_pos (by simp)]
    constructor
    · intro ht
      exact ⟨k, c.append i args, by simp [hk], (hkeep c).1.trans hi, (hkeep c).2.trans hlive,
        (Option.some.inj ht).symm⟩
    · rintro ⟨k', c', hk', hindex', hlive', rfl⟩
      rw [List.getElem?_map, Option.map_eq_some_iff] at hk'
      rcases hk' with ⟨c', hk', rfl⟩
      rw [(hkeep c').1] at hindex'
      rw [(hkeep c').2] at hlive'
      -- only one call of the index is live, so it is the one that was held
      have heq := h.live_unique hk' hk (hindex'.trans hi.symm) hlive' hlive
      subst heq
      rw [hk] at hk'
      rw [Option.some.inj hk']
  · rw [if_neg (by simpa using hij), h j t]
    apply exists_congr
    intro k'
    constructor
    · rintro ⟨c', hk', hindex', hrest⟩
      have hsame : c'.append i args = c' := by
        rw [DraftCall.append, if_neg fun hc => hij (hc.1.symm.trans hindex')]
      exact ⟨c', by simp [hk', hsame], hindex', hrest⟩
    · rintro ⟨c', hk', hindex', hrest⟩
      rw [List.getElem?_map, Option.map_eq_some_iff] at hk'
      rcases hk' with ⟨c', hk', rfl⟩
      rw [(hkeep c').1] at hindex'
      have hsame : c'.append i args = c' := by
        rw [DraftCall.append, if_neg fun hc => hij (hc.1.symm.trans hindex')]
      rw [hsame] at hrest
      exact ⟨c', hk', hindex', hrest⟩

/-- The live call of an index ends. -/
theorem finish (h : OpenTools base tools calls) (i : Nat) :
    OpenTools base (tools.erase i) (calls.map (DraftCall.finish i)) := by
  have hindex : ∀ c : DraftCall, (c.finish i).index = c.index := by
    intro c
    rw [DraftCall.finish]
    split <;> rfl
  intro j t
  rw [Std.ExtTreeMap.getElem?_erase]
  by_cases hij : i = j
  · subst hij
    rw [if_pos (by simp)]
    -- the entry is gone, and so is the life of every call of the index
    apply iff_of_false (by simp)
    rintro ⟨k, c, hk, hi, hlive, -⟩
    rw [List.getElem?_map, Option.map_eq_some_iff] at hk
    rcases hk with ⟨c, -, rfl⟩
    rw [hindex] at hi
    simp [DraftCall.finish, hi] at hlive
  · have hsame : ∀ c : DraftCall, c.index = j → c.finish i = c := by
      intro c hc
      rw [DraftCall.finish, if_neg fun hi => hij (hi.symm.trans hc)]
    rw [if_neg (by simpa using hij), h j t]
    apply exists_congr
    intro k
    constructor
    · rintro ⟨c, hk, hi, hrest⟩
      exact ⟨c, by simp [hk, hsame c hi], hi, hrest⟩
    · rintro ⟨c, hk, hi, hrest⟩
      rw [List.getElem?_map, Option.map_eq_some_iff] at hk
      rcases hk with ⟨c, hk, rfl⟩
      rw [hindex] at hi
      rw [hsame c hi] at hrest
      exact ⟨c, hk, hi, hrest⟩

end OpenTools

end AiApiBridge
