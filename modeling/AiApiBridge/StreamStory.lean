import AiApiBridge.BlockOrder
import AiApiBridge.ClientBlocks
import AiApiBridge.ItemBooks
import AiApiBridge.ItemBrackets
import AiApiBridge.StreamProgress
import AiApiBridge.Wire.UsageFrames

/-!
# What a stream tells

The two streamed dialects say the same things in different frames. A client of either reads
pieces of reasoning and of text, calls that start, get arguments and end, how many tokens were
used, and why the stream failed; it tells calls apart by where its dialect files them, which it can
while no more than `2 ^ 32` items are opened. With the calls numbered in the order of their starts,
both clients of one upstream are told the same story (`sameStory`).
-/

set_option autoImplicit false

namespace AiApiBridge

open Transducer (Step run runUntil)
open ChatStreamParser (onChunk onChunk_eq onChunk_error openingEvents quiet_onChunk)

/-! ## Notes -/

/-- What a frame tells. The slot of a call is where its dialect files it. -/
inductive StreamNote where
  | reasoning (piece : String)
  | text (piece : String)
  | started (slot : Nat) (callId name : String)
  | arguments (slot : Nat) (piece : String)
  | ended (slot : Nat)
  | finished (uncached cached output : Nat)
  | failed (message : String)
  deriving DecidableEq, Repr

namespace StreamNote

/-- Number the calls by the order of their starts. The end of anything else is not told. -/
def retell : Step (List Nat) StreamNote StreamNote := fun slots note =>
  match note with
  | .started slot callId name => (slots ++ [slot], [.started slots.length callId name])
  | .arguments slot piece =>
      (slots, if slot ∈ slots then [.arguments (slots.idxOf slot) piece] else [])
  | .ended slot => (slots, if slot ∈ slots then [.ended (slots.idxOf slot)] else [])
  | note => (slots, [note])

/-- The story of some frames. -/
def story (read : SseFrame → Option StreamNote) (frames : List SseFrame) : List StreamNote :=
  (run retell [] (frames.filterMap read)).2

/-- The usage in a completed response. -/
def ofResponsesUsage (usage : Value) : Option StreamNote :=
  ((usage.get "input_tokens").bind Value.asU64).bind fun input =>
    (((usage.get "input_tokens_details").bind fun d => d.get "cached_tokens").bind
      Value.asU64).bind fun cached =>
        ((usage.get "output_tokens").bind Value.asU64).map fun output =>
          .finished (input - cached) cached output

/-- What a frame of the Responses dialect tells. -/
def ofResponses (fr : SseFrame) : Option StreamNote :=
  if fr.event = "response.reasoning_summary_text.delta" then
    ((fr.get "delta").bind Value.asStr).map .reasoning
  else if fr.event = "response.output_text.delta" then
    ((fr.get "delta").bind Value.asStr).map .text
  else if fr.event = "response.output_item.added" then
    if fr.get₂ "item" "type" = some (.string "function_call") then
      (frameOutputIndex fr).bind fun slot =>
        ((fr.get₂ "item" "call_id").bind Value.asStr).bind fun callId =>
          ((fr.get₂ "item" "name").bind Value.asStr).map (.started slot callId)
    else none
  else if fr.event = "response.function_call_arguments.delta" then
    (frameOutputIndex fr).bind fun slot => ((fr.get "delta").bind Value.asStr).map (.arguments slot)
  else if fr.event = "response.output_item.done" then
    if fr.get₂ "item" "type" = some (.string "function_call") then
      (frameOutputIndex fr).map .ended
    else none
  else if fr.event = "response.completed" then (fr.get₂ "response" "usage").bind ofResponsesUsage
  else if fr.event = "response.failed" then
    (((fr.get₂ "response" "error").bind fun e => e.get "message").bind Value.asStr).map .failed
  else none

/-- The usage at the end of a message. -/
def ofAnthropicUsage (usage : Value) : Option StreamNote :=
  ((usage.get "input_tokens").bind Value.asU64).bind fun uncached =>
    ((usage.get "cache_read_input_tokens").bind Value.asU64).bind fun cached =>
      ((usage.get "output_tokens").bind Value.asU64).map fun output =>
        .finished uncached cached output

/-- What a block delta tells. -/
def ofDelta (index : Nat) (delta : Value) : Option StreamNote :=
  if delta.get "type" = some (.string "thinking_delta") then
    ((delta.get "thinking").bind Value.asStr).map .reasoning
  else if delta.get "type" = some (.string "text_delta") then
    ((delta.get "text").bind Value.asStr).map .text
  else if delta.get "type" = some (.string "input_json_delta") then
    ((delta.get "partial_json").bind Value.asStr).map (.arguments index)
  else none

/-- What a frame of the Anthropic dialect tells. -/
def ofAnthropic (fr : SseFrame) : Option StreamNote :=
  if fr.event = "content_block_start" then
    if fr.get₂ "content_block" "type" = some (.string "tool_use") then
      (Client.frameIndex fr).bind fun slot =>
        ((fr.get₂ "content_block" "id").bind Value.asStr).bind fun callId =>
          ((fr.get₂ "content_block" "name").bind Value.asStr).map (.started slot callId)
    else none
  else if fr.event = "content_block_delta" then
    (Client.frameIndex fr).bind fun slot => (fr.get "delta").bind (ofDelta slot)
  else if fr.event = "content_block_stop" then (Client.frameIndex fr).map .ended
  else if fr.event = "message_delta" then (fr.get "usage").bind ofAnthropicUsage
  else if fr.event = "error" then ((fr.get₂ "error" "message").bind Value.asStr).map .failed
  else none

end StreamNote

/-! ## The script -/

/-- The open calls by their index with their numbers, how many there have been, and the usage. -/
structure Script where
  openCalls : Std.ExtTreeMap Nat Nat
  count : Nat
  usage : Option UsageCounts

namespace Script

def new : Script := ⟨∅, 0, none⟩

def finished (s : Script) : StreamNote :=
  let u := s.usage.getD ⟨0, 0, 0, 0, 0⟩
  .finished (u.inputTokens - u.cachedInputTokens) u.cachedInputTokens u.outputTokens

/-- What an event has to tell. -/
def next : Step Script CanonicalEvent StreamNote := fun s ev =>
  match ev with
  | .created _ _ => (s, [])
  | .reasoningDelta piece => (s, [.reasoning piece])
  | .textDelta piece => (s, [.text piece])
  | .toolCallStart index callId name =>
      ({ s with openCalls := s.openCalls.insert index s.count, count := s.count + 1 },
        [.started s.count callId name])
  | .toolCallArgsDelta index piece => (s, s.openCalls[index]?.toList.map (.arguments · piece))
  | .toolCallDone index =>
      ({ s with openCalls := s.openCalls.erase index }, s.openCalls[index]?.toList.map .ended)
  | .usage counts => ({ s with usage := some counts }, [])
  | .completed =>
      ({ s with openCalls := ∅ },
        s.openCalls.toList.map (fun entry => .ended entry.2) ++ [s.finished])
  | .error message _ => (s, [.failed message])

end Script

/-! ## Slots and numbers -/

open StreamNote (retell story ofResponses ofAnthropic)

/-- The open calls of an emitter are those of the script, and the slot of each one is where its
number says. -/
structure Told (slots : List Nat) (slotOf : Nat → Option Nat) (next : Nat) (s : Script) : Prop where
  calls : ∀ index slot, slotOf index = some slot →
    ∃ n, s.openCalls[index]? = some n ∧ slots[n]? = some slot
  only : ∀ index n, s.openCalls[index]? = some n → slotOf index ≠ none
  count : slots.length = s.count
  nodup : slots.Nodup
  fresh : ∀ slot ∈ slots, slot < next

namespace Told

variable {slots : List Nat} {slotOf : Nat → Option Nat} {next : Nat} {s : Script}

theorem new (next : Nat) : Told [] (fun _ => none) next .new where
  calls := by
    intro index slot h
    cases h
  only := by
    intro index n h
    simp [Script.new] at h
  count := rfl
  nodup := List.nodup_nil
  fresh := fun slot h => absurd h List.not_mem_nil

/-- The number of a slot. -/
theorem number (h : Told slots slotOf next s) {index slot : Nat}
    (hslot : slotOf index = some slot) :
    slot ∈ slots ∧ s.openCalls[index]? = some (slots.idxOf slot) := by
  obtain ⟨n, hn, hget⟩ := h.calls index slot hslot
  obtain ⟨hlt, rfl⟩ := List.getElem?_eq_some_iff.1 hget
  refine ⟨List.getElem_mem hlt, ?_⟩
  rw [hn, h.nodup.idxOf_getElem]

/-- The script has no other calls. -/
theorem none (h : Told slots slotOf next s) {index : Nat} (hslot : slotOf index = .none) :
    s.openCalls[index]? = .none := by
  by_contra hne
  obtain ⟨n, hn⟩ := Option.ne_none_iff_exists'.1 hne
  exact h.only index n hn hslot

/-- Other items take slots, too. -/
theorem later (h : Told slots slotOf next s) {next' : Nat} (hle : next ≤ next') :
    Told slots slotOf next' s :=
  ⟨h.calls, h.only, h.count, h.nodup, fun slot hslot => Nat.lt_of_lt_of_le (h.fresh slot hslot) hle⟩

theorem congr (h : Told slots slotOf next s) {slotOf' : Nat → Option Nat}
    (heq : ∀ index, slotOf' index = slotOf index) : Told slots slotOf' next s := by
  rw [show slotOf' = slotOf from funext heq]
  exact h

/-- The usage is no call. -/
theorem reported (h : Told slots slotOf next s) (counts : UsageCounts) :
    Told slots slotOf next { s with usage := some counts } :=
  ⟨h.calls, h.only, h.count, h.nodup, h.fresh⟩

/-- A call starts. -/
theorem started (h : Told slots slotOf next s) (index : Nat) :
    Told (slots ++ [next]) (Function.update slotOf index (some next)) (next + 1)
      { s with openCalls := s.openCalls.insert index s.count, count := s.count + 1 } where
  calls := by
    intro i slot hslot
    rw [Std.ExtTreeMap.getElem?_insert]
    by_cases hi : i = index
    · subst hi
      rw [Function.update_self] at hslot
      cases hslot
      refine ⟨s.count, by simp, ?_⟩
      rw [← h.count]
      simp
    · rw [Function.update_of_ne hi] at hslot
      obtain ⟨n, hn, hget⟩ := h.calls i slot hslot
      have hne : compare index i ≠ .eq := by simpa using Ne.symm hi
      refine ⟨n, by rw [if_neg hne]; exact hn, ?_⟩
      rw [List.getElem?_append_left (List.getElem?_eq_some_iff.1 hget).1]
      exact hget
  only := by
    intro i n hn
    rw [Std.ExtTreeMap.getElem?_insert] at hn
    by_cases hi : i = index
    · rw [hi, Function.update_self]
      exact Option.some_ne_none _
    · have hne : compare index i ≠ .eq := by simpa using Ne.symm hi
      rw [if_neg hne] at hn
      rw [Function.update_of_ne hi]
      exact h.only i n hn
  count := by
    rw [List.length_append, h.count]
    rfl
  nodup := by
    rw [List.nodup_append]
    refine ⟨h.nodup, List.nodup_singleton _, ?_⟩
    intro slot hslot slot' hslot'
    rw [List.mem_singleton.1 hslot']
    exact Nat.ne_of_lt (h.fresh slot hslot)
  fresh := by
    intro slot hslot
    rcases List.mem_append.1 hslot with hold | hnew
    · exact Nat.lt_succ_of_lt (h.fresh slot hold)
    · rw [List.mem_singleton.1 hnew]
      exact Nat.lt_succ_self next

/-- A call ends. -/
theorem ended (h : Told slots slotOf next s) (index : Nat) :
    Told slots (Function.update slotOf index .none) next
      { s with openCalls := s.openCalls.erase index } where
  calls := by
    intro i slot hslot
    rw [Std.ExtTreeMap.getElem?_erase]
    by_cases hi : i = index
    · rw [hi, Function.update_self] at hslot
      cases hslot
    · rw [Function.update_of_ne hi] at hslot
      have hne : compare index i ≠ .eq := by simpa using Ne.symm hi
      rw [if_neg hne]
      exact h.calls i slot hslot
  only := by
    intro i n hn
    rw [Std.ExtTreeMap.getElem?_erase] at hn
    by_cases hi : i = index
    · rw [hi] at hn
      simp at hn
    · have hne : compare index i ≠ .eq := by simpa using Ne.symm hi
      rw [if_neg hne] at hn
      rw [Function.update_of_ne hi]
      exact h.only i n hn
  count := h.count
  nodup := h.nodup
  fresh := h.fresh

/-- All calls end. -/
theorem closed (h : Told slots slotOf next s) :
    Told slots (fun _ => .none) next { s with openCalls := ∅ } where
  calls := by
    intro index slot hslot
    cases hslot
  only := by
    intro index n hn
    simp at hn
  count := h.count
  nodup := h.nodup
  fresh := h.fresh

/-- The end of calls is told. -/
theorem retell_ended {ended : List Nat} (hended : ∀ slot ∈ ended, slot ∈ slots) :
    run retell slots (ended.map .ended) =
      (slots, ended.map fun slot => .ended (slots.idxOf slot)) := by
  induction ended with
  | nil => rfl
  | cons slot ended ih =>
      have hhead : retell slots (.ended slot) = (slots, [.ended (slots.idxOf slot)]) := by
        rw [retell, if_pos (hended slot List.mem_cons_self)]
      rw [List.map_cons, Transducer.run_cons, hhead,
        ih fun slot' hslot' => hended slot' (List.mem_cons_of_mem slot hslot')]
      rfl

section Tools

variable {τ : Type} {tools : Std.ExtTreeMap Nat τ} {slot : τ → Nat}

/-- The number of an open call. -/
theorem numbered (h : Told slots (fun index => tools[index]?.map slot) next s) {index : Nat} {t : τ}
    (htool : tools[index]? = some t) :
    slot t ∈ slots ∧ s.openCalls[index]? = some (slots.idxOf (slot t)) := by
  have hslot : (fun index : Nat => tools[index]?.map slot) index = some (slot t) :=
    congrArg (Option.map slot) htool
  exact h.number hslot

theorem unnumbered (h : Told slots (fun index => tools[index]?.map slot) next s) {index : Nat}
    (htool : tools[index]? = .none) : s.openCalls[index]? = .none := by
  have hslot : (fun index : Nat => tools[index]?.map slot) index = .none :=
    congrArg (Option.map slot) htool
  exact h.none hslot

theorem inserted (h : Told slots (fun index => tools[index]?.map slot) next s) (index : Nat) {t : τ}
    (hslot : slot t = next) :
    Told (slots ++ [next]) (fun i => (tools.insert index t)[i]?.map slot) (next + 1)
      { s with openCalls := s.openCalls.insert index s.count, count := s.count + 1 } := by
  rw [TreeMaps.map_getElem?_insert, hslot]
  exact h.started index

/-- A call that grows stays where it is. -/
theorem grown (h : Told slots (fun index => tools[index]?.map slot) next s) {index : Nat} {t t' : τ}
    (htool : tools[index]? = some t) (hslot : slot t' = slot t) :
    Told slots (fun i => (tools.insert index t')[i]?.map slot) next s := by
  rw [TreeMaps.map_getElem?_insert, hslot, Function.update_eq_self_iff.2 (by rw [htool]; rfl)]
  exact h

theorem erased (h : Told slots (fun index => tools[index]?.map slot) next s) (index : Nat) :
    Told slots (fun i => (tools.erase index)[i]?.map slot) next
      { s with openCalls := s.openCalls.erase index } := by
  rw [TreeMaps.map_getElem?_erase]
  exact h.ended index

/-- The end of a call that is not open changes nothing. -/
theorem absent (h : Told slots (fun index => tools[index]?.map slot) next s) {index : Nat}
    (htool : tools[index]? = .none) :
    Told slots (fun i => tools[i]?.map slot) next
      { s with openCalls := s.openCalls.erase index } := by
  have hended := h.ended index
  rwa [Function.update_eq_self_iff.2 (by rw [htool]; rfl)] at hended

theorem emptied (h : Told slots (fun index => tools[index]?.map slot) next s) :
    Told slots (fun i => (∅ : Std.ExtTreeMap Nat τ)[i]?.map slot) next
      { s with openCalls := ∅ } := by
  apply h.closed.congr
  intro index
  simp

/-- A `u32` holds the slot of every open call. -/
theorem asU32_slot (h : Told slots (fun index => tools[index]?.map slot) next s)
    (hnext : next ≤ 2 ^ 32) {index : Nat} {t : τ} (htool : tools[index]? = some t) :
    asU32 (slot t) = slot t :=
  asU32_of_lt (Nat.lt_of_lt_of_le (h.fresh _ (h.numbered htool).1) hnext)

/-- **The end of all calls** is told in the order of their indices. -/
theorem retell_closed (h : Told slots (fun index => tools[index]?.map slot) next s)
    (hnext : next ≤ 2 ^ 32) :
    run retell slots (tools.toList.map fun entry => .ended (asU32 (slot entry.2))) =
      (slots, s.openCalls.toList.map fun entry => .ended entry.2) := by
  have hmem : ∀ n ∈ tools.toList.map (fun entry => asU32 (slot entry.2)), n ∈ slots := by
    intro n hn
    obtain ⟨entry, hentry, rfl⟩ := List.mem_map.1 hn
    have htool := TreeMaps.getElem?_of_mem_toList hentry
    rw [h.asU32_slot hnext htool]
    exact (h.numbered htool).1
  have hnumbers : ∀ index : Nat,
      tools[index]?.map (fun t => StreamNote.ended (slots.idxOf (asU32 (slot t)))) =
        s.openCalls[index]?.map StreamNote.ended := by
    intro index
    cases htool : tools[index]? with
    | none =>
        rw [h.unnumbered htool]
        rfl
    | some t =>
        rw [(h.numbered htool).2, Option.map_some, h.asU32_slot hnext htool]
        rfl
  have hrun := retell_ended hmem
  rw [List.map_map, List.map_map] at hrun
  rw [← TreeMaps.toList_map_congr hnumbers]
  exact hrun

end Tools

end Told

/-! ## Emitters that tell the script -/

section Tells

variable {σ : Type} {emit : Step σ CanonicalEvent SseFrame} {read : SseFrame → Option StreamNote}
  {next : σ → Nat} {OnScript : List Nat → σ → Script → Prop}

/-- The frames of an event tell what the script has to tell for it, as long as there are numbers
for the items. -/
def TellsNext (emit : Step σ CanonicalEvent SseFrame) (read : SseFrame → Option StreamNote)
    (next : σ → Nat) (OnScript : List Nat → σ → Script → Prop) (slots : List Nat) (e : σ)
    (s : Script) (ev : CanonicalEvent) : Prop :=
  next (emit e ev).1 ≤ 2 ^ 32 →
    OnScript (run retell slots ((emit e ev).2.filterMap read)).1 (emit e ev).1 (s.next ev).1 ∧
      (run retell slots ((emit e ev).2.filterMap read)).2 = (s.next ev).2

/-- The frames of every event tell what the script has to tell, and no event takes back the number
of an item. -/
structure Tells (emit : Step σ CanonicalEvent SseFrame) (read : SseFrame → Option StreamNote)
    (next : σ → Nat) (OnScript : List Nat → σ → Script → Prop) : Prop where
  event : ∀ slots e s ev, OnScript slots e s → TellsNext emit read next OnScript slots e s ev
  mono : ∀ e ev, next e ≤ next (emit e ev).1

/-- **A run tells the script of its events**, when there are numbers for all of its items. -/
theorem Tells.run (h : Tells emit read next OnScript) (evs : List CanonicalEvent)
    {slots : List Nat} {e : σ} {s : Script} (hs : OnScript slots e s)
    (hnext : next (Transducer.run emit e evs).1 ≤ 2 ^ 32) :
    (Transducer.run retell slots ((Transducer.run emit e evs).2.filterMap read)).2 =
      (Transducer.run Script.next s evs).2 := by
  induction evs generalizing slots e s with
  | nil => rfl
  | cons ev evs ih =>
      rw [Transducer.run_cons] at hnext
      have hfirst := (Transducer.le_run next h.mono (emit e ev).1 evs).trans hnext
      obtain ⟨honscript, hnotes⟩ := h.event slots e s ev hs hfirst
      rw [Transducer.run_cons, Transducer.run_cons, List.filterMap_append,
        Transducer.run_append_snd, hnotes, ih honscript hnext]

end Tells

namespace ResponsesEmitter

/-! ## The Responses dialect -/

/-- An action that tells nothing. The calls and the usage stay. -/
structure TellsNothing (e : ResponsesEmitter) (r : Emission) : Prop where
  tools : r.1.tools = e.tools
  usage : r.1.usage = e.usage
  next : e.nextOutputIndex ≤ r.1.nextOutputIndex
  notes : r.2.filterMap ofResponses = []

theorem TellsNothing.andThen {e : ResponsesEmitter} {r : Emission} (hr : TellsNothing e r)
    {f : ResponsesEmitter → Emission} (hf : ∀ e', TellsNothing e' (f e')) :
    TellsNothing e (Transducer.andThen r f) where
  tools := (hf r.1).tools.trans hr.tools
  usage := (hf r.1).usage.trans hr.usage
  next := hr.next.trans (hf r.1).next
  notes := by rw [Transducer.andThen_snd, List.filterMap_append, hr.notes, (hf r.1).notes]; rfl

/-- The open calls and the usage are those of the script. -/
structure OnScript (slots : List Nat) (e : ResponsesEmitter) (s : Script) : Prop where
  told : Told slots (fun index => e.tools[index]?.map ToolItem.outputIndex) e.nextOutputIndex s
  usage : e.usage = s.usage

theorem OnScript.new : OnScript [] new .new where
  told := by
    apply (Told.new 0).congr
    intro index
    simp [ResponsesEmitter.new]
  usage := rfl

theorem OnScript.nothing {slots : List Nat} {e : ResponsesEmitter} {s : Script}
    (h : OnScript slots e s) {r : Emission} (hr : TellsNothing e r) : OnScript slots r.1 s where
  told := by
    rw [hr.tools]
    exact h.told.later hr.next
  usage := hr.usage.trans h.usage

section Frames

attribute [local simp] itemAdded itemDone reasoningDeltaFrame contentPartAdded textDeltaFrame
  outputTextDone contentPartDone argumentsDelta argumentsDone createdFrame completedFrame
  failedFrame reasoningItemJson messageItemJson functionCallJson toolJson ofResponses
  frameOutputIndex

variable (uuid : Nat → String) (e : ResponsesEmitter)

theorem tellsNothing_ensureReasoningOpen : TellsNothing e (ensureReasoningOpen uuid e) := by
  cases h : e.reasoningItem <;>
    exact ⟨by simp, by simp, by simp [ensureReasoningOpen, h], by simp [ensureReasoningOpen, h]⟩

theorem tellsNothing_closeReasoning : TellsNothing e (closeReasoning e) := by
  cases h : e.reasoningItem <;>
    exact ⟨by simp, by simp, by simp, by simp [closeReasoning, h]⟩

theorem tellsNothing_ensureMessageOpen : TellsNothing e (ensureMessageOpen uuid e) := by
  cases h : e.messageItem <;>
    exact ⟨by simp, by simp, by simp [ensureMessageOpen, h], by simp [ensureMessageOpen, h]⟩

theorem tellsNothing_closeMessage : TellsNothing e (closeMessage e) := by
  cases h : e.messageItem <;>
    exact ⟨by simp, by simp, by simp, by simp [closeMessage, h]⟩

theorem notes_finishTool (t : ToolItem) :
    (finishTool e t).2.filterMap ofResponses = [.ended (asU32 t.outputIndex)] := by
  simp [finishTool]

theorem run_finishTool_told (ts : List ToolItem) :
    (run finishTool e ts).1.tools = e.tools ∧
      (run finishTool e ts).1.nextOutputIndex = e.nextOutputIndex ∧
      (run finishTool e ts).2.filterMap ofResponses =
        ts.map fun t => .ended (asU32 t.outputIndex) := by
  induction ts generalizing e with
  | nil => exact ⟨rfl, rfl, rfl⟩
  | cons t ts ih =>
      obtain ⟨htools, hnext, hnotes⟩ := ih (finishTool e t).1
      refine ⟨htools, hnext, ?_⟩
      rw [Transducer.run_cons, List.filterMap_append, notes_finishTool, hnotes]
      rfl

theorem closeOpenTools_told :
    (closeOpenTools e).1.tools = ∅ ∧ (closeOpenTools e).1.nextOutputIndex = e.nextOutputIndex ∧
      (closeOpenTools e).2.filterMap ofResponses =
        e.tools.toList.map fun entry => .ended (asU32 entry.2.outputIndex) := by
  obtain ⟨htools, hnext, hnotes⟩ :=
    run_finishTool_told { e with tools := ∅ } (e.tools.toList.map Prod.snd)
  refine ⟨htools, hnext, ?_⟩
  rw [closeOpenTools, hnotes, List.map_map]
  rfl

section Events

variable {e} {slots : List Nat} {s : Script} (h : OnScript slots e s)
include h

theorem OnScript.reasoningDelta (piece : String) :
    TellsNext (onEventCore uuid) ofResponses nextOutputIndex OnScript slots e s
      (.reasoningDelta piece) := by
  obtain ⟨item, hitem⟩ := Option.ne_none_iff_exists'.1
    (reasoningItem_ensureReasoningOpen uuid e)
  have hopen := h.nothing (tellsNothing_ensureReasoningOpen uuid e)
  have hnotes : (onEventCore uuid e (.reasoningDelta piece)).2.filterMap ofResponses =
      [.reasoning piece] := by
    simp [onEventCore, (tellsNothing_ensureReasoningOpen uuid e).notes, hitem]
  intro hnext
  rw [hnotes]
  exact ⟨⟨hopen.told, hopen.usage⟩, rfl⟩

theorem OnScript.textDelta (piece : String) :
    TellsNext (onEventCore uuid) ofResponses nextOutputIndex OnScript slots e s
      (.textDelta piece) := by
  have hquiet := (tellsNothing_closeReasoning e).andThen (tellsNothing_ensureMessageOpen uuid)
  obtain ⟨item, hitem⟩ := Option.ne_none_iff_exists'.1
    (messageItem_ensureMessageOpen uuid (closeReasoning e).1)
  have hopen := h.nothing hquiet
  have hnotes : (onEventCore uuid e (.textDelta piece)).2.filterMap ofResponses =
      [.text piece] := by
    rw [onEventCore, Transducer.andThen_snd, List.filterMap_append, hquiet.notes]
    simp [hitem]
  intro hnext
  rw [hnotes]
  exact ⟨⟨hopen.told, hopen.usage⟩, rfl⟩

theorem OnScript.toolCallStart (index : Nat) (callId name : String) :
    TellsNext (onEventCore uuid) ofResponses nextOutputIndex OnScript slots e s
      (.toolCallStart index callId name) := by
  intro hsmall
  have hquiet := (tellsNothing_closeReasoning e).andThen tellsNothing_closeMessage
  have hnext : (onEventCore uuid e (.toolCallStart index callId name)).1.nextOutputIndex =
      e.nextOutputIndex + 1 := by
    simp [onEventCore]
  -- the number of the new item is not the last one
  have hslot : asU32 e.nextOutputIndex = e.nextOutputIndex := by
    rw [hnext] at hsmall
    exact asU32_of_lt hsmall
  have hnotes : (onEventCore uuid e (.toolCallStart index callId name)).2.filterMap
      ofResponses = [.started e.nextOutputIndex callId name] := by
    rw [onEventCore, Transducer.andThen_snd, List.filterMap_append, hquiet.notes]
    simp [hslot]
  rw [hnotes]
  refine ⟨⟨?_, (hquiet.usage.trans h.usage :)⟩, ?_⟩
  · have htools : (onEventCore uuid e (.toolCallStart index callId name)).1.tools =
        e.tools.insert index ⟨newId uuid "fc" (closeMessage (closeReasoning e).1).1.drawn,
          e.nextOutputIndex, callId, name, ""⟩ := by
      simp [onEventCore]
    rw [htools, hnext]
    exact h.told.inserted index rfl
  · rw [Transducer.run_singleton, retell, h.told.count]
    rfl

theorem OnScript.toolCallArgsDelta (index : Nat) (piece : String) :
    TellsNext (onEventCore uuid) ofResponses nextOutputIndex OnScript slots e s
      (.toolCallArgsDelta index piece) := by
  cases htool : e.tools[index]? with
  | none =>
      have hstep : onEventCore uuid e (.toolCallArgsDelta index piece) = (e, []) := by
        simp [onEventCore, htool]
      rw [TellsNext, hstep, Script.next, h.told.unnumbered htool]
      exact fun hnext => ⟨h, rfl⟩
  | some t =>
      obtain ⟨hslot, hnumber⟩ := h.told.numbered htool
      have hstate : (onEventCore uuid e (.toolCallArgsDelta index piece)).1 =
          { e with tools := e.tools.insert index { t with args := t.args ++ piece } } := by
        simp [onEventCore, htool]
      intro hnext
      rw [hstate] at hnext
      have hnotes : (onEventCore uuid e (.toolCallArgsDelta index piece)).2.filterMap
          ofResponses = [.arguments t.outputIndex piece] := by
        simp [onEventCore, htool, h.told.asU32_slot hnext htool]
      rw [hnotes, hstate, Transducer.run_singleton, retell, if_pos hslot, Script.next,
        hnumber]
      exact ⟨⟨h.told.grown htool rfl, h.usage⟩, rfl⟩

theorem OnScript.toolCallDone (index : Nat) :
    TellsNext (onEventCore uuid) ofResponses nextOutputIndex OnScript slots e s
      (.toolCallDone index) := by
  cases htool : e.tools[index]? with
  | none =>
      have hstep : onEventCore uuid e (.toolCallDone index) = (e, []) := by
        simp [onEventCore, htool]
      rw [TellsNext, hstep, Script.next, h.told.unnumbered htool]
      exact fun hnext => ⟨⟨h.told.absent htool, h.usage⟩, rfl⟩
  | some t =>
      obtain ⟨hslot, hnumber⟩ := h.told.numbered htool
      have hstep : onEventCore uuid e (.toolCallDone index) =
          finishTool { e with tools := e.tools.erase index } t := by
        simp [onEventCore, htool]
      intro hnext
      rw [hstep] at hnext
      rw [hstep, notes_finishTool, h.told.asU32_slot hnext htool, Transducer.run_singleton, retell,
        if_pos hslot, Script.next, hnumber]
      exact ⟨⟨h.told.erased index, h.usage⟩, rfl⟩

theorem OnScript.completed :
    TellsNext (onEventCore uuid) ofResponses nextOutputIndex OnScript slots e s .completed := by
  have hquiet := (tellsNothing_closeReasoning e).andThen tellsNothing_closeMessage
  obtain ⟨e', he'⟩ : ∃ e', e' = (Transducer.andThen (closeReasoning e) closeMessage).1 :=
    ⟨_, rfl⟩
  have h' : OnScript slots e' s := he' ▸ h.nothing hquiet
  obtain ⟨htools, hnext, hended⟩ := closeOpenTools_told e'
  have hcounts : (closeOpenTools e').1.usage = s.usage := by simp [h'.usage]
  have hstate : (onEventCore uuid e .completed).1 = (closeOpenTools e').1 := by
    rw [he']
    rfl
  have hnotes : (onEventCore uuid e .completed).2.filterMap ofResponses =
      (e'.tools.toList.map fun entry => .ended (asU32 entry.2.outputIndex)) ++ [s.finished] := by
    rw [onEventCore, Transducer.andThen_snd, List.filterMap_append, Transducer.andThen_snd,
      List.filterMap_append, hquiet.notes, ← he', hended, List.nil_append]
    congr 1
    simp [completedResponse, h.usage, Script.finished, StreamNote.ofResponsesUsage]
  intro hsmall
  rw [hstate, hnext] at hsmall
  rw [hstate, hnotes, Transducer.run_append, h'.told.retell_closed hsmall]
  refine ⟨⟨?_, hcounts⟩, rfl⟩
  rw [htools, hnext]
  exact h'.told.emptied

end Events

/-- **One event.** -/
theorem tellsNext_onEventCore {slots : List Nat} {e : ResponsesEmitter} {s : Script}
    (h : OnScript slots e s) (ev : CanonicalEvent) :
    TellsNext (onEventCore uuid) ofResponses nextOutputIndex OnScript slots e s ev := by
  cases ev with
  | created responseId model =>
      have hnotes :
          (onEventCore uuid e (.created responseId model)).2.filterMap ofResponses = [] := by
        simp [onEventCore]
      intro hnext
      rw [hnotes]
      exact ⟨⟨h.told, h.usage⟩, rfl⟩
  | reasoningDelta piece => exact h.reasoningDelta uuid piece
  | textDelta piece => exact h.textDelta uuid piece
  | toolCallStart index callId name => exact h.toolCallStart uuid index callId name
  | toolCallArgsDelta index piece => exact h.toolCallArgsDelta uuid index piece
  | toolCallDone index => exact h.toolCallDone uuid index
  | usage counts =>
      have hnotes : (onEventCore uuid e (.usage counts)).2.filterMap ofResponses = [] := rfl
      intro hnext
      rw [hnotes]
      exact ⟨⟨h.told.reported counts, rfl⟩, rfl⟩
  | completed => exact h.completed uuid
  | error message status =>
      have hnotes : (onEventCore uuid e (.error message status)).2.filterMap ofResponses =
          [.failed message] := by
        simp [onEventCore]
      intro hnext
      rw [hnotes]
      exact ⟨⟨h.told, h.usage⟩, rfl⟩

end Frames

/-- Sequence numbers tell nothing. -/
theorem notes_number (seq : Nat) (frames : List SseFrame) :
    (number seq frames).filterMap ofResponses = frames.filterMap ofResponses := by
  induction frames generalizing seq with
  | nil => rfl
  | cons fr frames ih =>
      have hhead : ∀ m n,
          ofResponses ⟨fr.event, .object (Map.insert m "sequence_number" (.ofNat n))⟩ =
            ofResponses ⟨fr.event, .object m⟩ := by
        intro m n
        simp [ofResponses, SseFrame.get, SseFrame.get₂, frameOutputIndex]
      rcases fr with ⟨event, data⟩
      cases data with
      | object m => rw [number, List.filterMap_cons, List.filterMap_cons, ih, hhead m _]
      | _ => rw [number, List.filterMap_cons, List.filterMap_cons, ih]

/-- **The Responses dialect tells the script.** -/
theorem tells (uuid : Nat → String) :
    Tells (onEvent uuid) ofResponses nextOutputIndex OnScript where
  event := by
    intro slots e s ev h hnext
    obtain ⟨honscript, hnotes⟩ := tellsNext_onEventCore uuid h ev hnext
    rw [onEvent, notes_number]
    exact ⟨⟨honscript.told, honscript.usage⟩, hnotes⟩
  mono := by
    intro e ev
    obtain ⟨opened, hbooks, -⟩ := books_onEvent uuid e ev
    rw [hbooks.next]
    exact Nat.le_add_right _ _

end ResponsesEmitter

namespace AnthropicEmitter

/-! ## The Anthropic dialect -/

/-- No block that is open is filed where a call is. -/
structure Apart (slots : List Nat) (e : AnthropicEmitter) : Prop where
  calls : ∀ slot ∈ slots, slot < e.nextIndex
  blocks : ∀ index, e.thinkingIndex = some index ∨ e.textIndex = some index →
    index < e.nextIndex ∧ index ∉ slots

/-- An action that tells nothing, as long as there are numbers for the blocks. The calls and the
usage stay. -/
structure TellsNothing (slots : List Nat) (e : AnthropicEmitter) (r : Emission) : Prop where
  tools : r.1.tools = e.tools
  usage : r.1.usage = e.usage
  next : e.nextIndex ≤ r.1.nextIndex
  apart : Apart slots r.1
  notes : r.1.nextIndex ≤ 2 ^ 32 → run retell slots (r.2.filterMap ofAnthropic) = (slots, [])

theorem TellsNothing.andThen {slots : List Nat} {e : AnthropicEmitter} {r : Emission}
    (hr : TellsNothing slots e r) {f : AnthropicEmitter → Emission}
    (hf : ∀ e', Apart slots e' → TellsNothing slots e' (f e')) :
    TellsNothing slots e (Transducer.andThen r f) where
  tools := (hf r.1 hr.apart).tools.trans hr.tools
  usage := (hf r.1 hr.apart).usage.trans hr.usage
  next := hr.next.trans (hf r.1 hr.apart).next
  apart := (hf r.1 hr.apart).apart
  notes := by
    intro hnext
    have hfirst := (hf r.1 hr.apart).next.trans hnext
    rw [Transducer.andThen_snd, List.filterMap_append, Transducer.run_append, hr.notes hfirst,
      (hf r.1 hr.apart).notes hnext]
    rfl

/-- The open calls and the usage are those of the script. -/
structure OnScript (slots : List Nat) (e : AnthropicEmitter) (s : Script) : Prop where
  told : Told slots (fun index => e.tools[index]?.map ToolBlock.index) e.nextIndex s
  usage : e.usage = s.usage
  apart : Apart slots e

theorem OnScript.new : OnScript [] new .new where
  told := by
    apply (Told.new 0).congr
    intro index
    simp [AnthropicEmitter.new]
  usage := rfl
  apart := ⟨fun slot h => absurd h List.not_mem_nil, by simp [AnthropicEmitter.new]⟩

theorem OnScript.nothing {slots : List Nat} {e : AnthropicEmitter} {s : Script}
    (h : OnScript slots e s) {r : Emission} (hr : TellsNothing slots e r) :
    OnScript slots r.1 s where
  told := by
    rw [hr.tools]
    exact h.told.later hr.next
  usage := hr.usage.trans h.usage
  apart := hr.apart

/-- The end of a block that is no call. -/
theorem retell_blockStop {slots : List Nat} {index : Nat} (h : index ∉ slots) :
    run retell slots [.ended index] = (slots, []) := by
  rw [Transducer.run_singleton, retell, if_neg h]

section Frames

attribute [local simp] blockStart blockDelta blockStop thinkingDelta signatureDelta textDelta
  inputJsonDelta messageStop messageDelta errorFrame ofAnthropic StreamNote.ofDelta
  Client.frameIndex

variable (fromStr : String → Option Value) {slots : List Nat} {e : AnthropicEmitter}

theorem tellsNothing_start (h : Apart slots e) : TellsNothing slots e (start e) := by
  cases hs : e.started with
  | true =>
      have hstart : start e = (e, []) := by rw [start, if_pos hs]
      rw [hstart]
      exact ⟨rfl, rfl, le_rfl, h, fun _ => rfl⟩
  | false =>
      have hstart : (start e).1 = { e with started := true } := by simp [start, hs]
      exact ⟨by simp, by simp, by simp, hstart ▸ ⟨h.calls, h.blocks⟩, fun _ => by
        simp [start, hs]⟩

theorem tellsNothing_ensureThinkingOpen (h : Apart slots e) :
    TellsNothing slots e (ensureThinkingOpen e) := by
  cases hi : e.thinkingIndex with
  | some index =>
      have hopen : ensureThinkingOpen e = (e, []) := by rw [ensureThinkingOpen, hi]
      rw [hopen]
      exact ⟨rfl, rfl, le_rfl, h, fun _ => rfl⟩
  | none =>
      have hopen : (ensureThinkingOpen e).1 =
          { e with nextIndex := e.nextIndex + 1, thinkingIndex := some e.nextIndex } := by
        rw [ensureThinkingOpen, hi]
      refine ⟨by simp, by simp, ?_, hopen ▸ ⟨fun slot hslot => (h.calls slot hslot).trans
        (Nat.lt_succ_self _), ?_⟩, fun _ => by simp [ensureThinkingOpen, hi]⟩
      · rw [hopen]
        exact Nat.le_succ _
      · rintro index (hindex | hindex)
        · cases hindex
          exact ⟨Nat.lt_succ_self _, fun hmem => Nat.lt_irrefl _ (h.calls _ hmem)⟩
        · obtain ⟨hlt, hmem⟩ := h.blocks index (.inr hindex)
          exact ⟨hlt.trans (Nat.lt_succ_self _), hmem⟩

theorem tellsNothing_ensureTextOpen (h : Apart slots e) :
    TellsNothing slots e (ensureTextOpen e) := by
  cases hi : e.textIndex with
  | some index =>
      have hopen : ensureTextOpen e = (e, []) := by rw [ensureTextOpen, hi]
      rw [hopen]
      exact ⟨rfl, rfl, le_rfl, h, fun _ => rfl⟩
  | none =>
      have hopen : (ensureTextOpen e).1 =
          { e with nextIndex := e.nextIndex + 1, textIndex := some e.nextIndex } := by
        rw [ensureTextOpen, hi]
      refine ⟨by simp, by simp, ?_, hopen ▸ ⟨fun slot hslot => (h.calls slot hslot).trans
        (Nat.lt_succ_self _), ?_⟩, fun _ => by simp [ensureTextOpen, hi]⟩
      · rw [hopen]
        exact Nat.le_succ _
      · rintro index (hindex | hindex)
        · obtain ⟨hlt, hmem⟩ := h.blocks index (.inl hindex)
          exact ⟨hlt.trans (Nat.lt_succ_self _), hmem⟩
        · cases hindex
          exact ⟨Nat.lt_succ_self _, fun hmem => Nat.lt_irrefl _ (h.calls _ hmem)⟩

theorem tellsNothing_closeThinking (h : Apart slots e) :
    TellsNothing slots e (closeThinking e) := by
  cases hi : e.thinkingIndex with
  | none =>
      have hclosed : closeThinking e = (e, []) := by rw [closeThinking, hi]
      rw [hclosed]
      exact ⟨rfl, rfl, le_rfl, h, fun _ => rfl⟩
  | some index =>
      refine ⟨by simp, by simp, by simp, ⟨by simpa using h.calls, ?_⟩, ?_⟩
      · intro i hopen
        simp only [closeThinking, hi, reduceCtorEq, false_or] at hopen ⊢
        exact h.blocks i (.inr hopen)
      · intro hnext
        obtain ⟨hlt, hmem⟩ := h.blocks index (.inl hi)
        have hnotes : (closeThinking e).2.filterMap ofAnthropic = [.ended (asU32 index)] := by
          simp [closeThinking, hi]
        rw [nextIndex_closeThinking] at hnext
        rw [hnotes, asU32_of_lt (Nat.lt_of_lt_of_le hlt hnext), retell_blockStop hmem]

theorem tellsNothing_closeText (h : Apart slots e) : TellsNothing slots e (closeText e) := by
  cases hi : e.textIndex with
  | none =>
      have hclosed : closeText e = (e, []) := by rw [closeText, hi]
      rw [hclosed]
      exact ⟨rfl, rfl, le_rfl, h, fun _ => rfl⟩
  | some index =>
      refine ⟨by simp, by simp, by simp, ⟨by simpa using h.calls, ?_⟩, ?_⟩
      · intro i hopen
        simp only [closeText, hi, reduceCtorEq, or_false] at hopen ⊢
        exact h.blocks i (.inl hopen)
      · intro hnext
        obtain ⟨hlt, hmem⟩ := h.blocks index (.inr hi)
        have hnotes : (closeText e).2.filterMap ofAnthropic = [.ended (asU32 index)] := by
          simp [closeText, hi]
        rw [nextIndex_closeText] at hnext
        rw [hnotes, asU32_of_lt (Nat.lt_of_lt_of_le hlt hnext), retell_blockStop hmem]

theorem notes_finishTool (tb : ToolBlock) :
    (finishTool fromStr e tb).2.filterMap ofAnthropic = [.ended (asU32 tb.index)] := by
  simp [finishTool]

theorem run_finishTool_told (h : Apart slots e) (tbs : List ToolBlock) :
    (run (finishTool fromStr) e tbs).1.tools = e.tools ∧
      (run (finishTool fromStr) e tbs).1.nextIndex = e.nextIndex ∧
      Apart slots (run (finishTool fromStr) e tbs).1 ∧
      (run (finishTool fromStr) e tbs).2.filterMap ofAnthropic =
        tbs.map fun tb => .ended (asU32 tb.index) := by
  induction tbs generalizing e with
  | nil => exact ⟨rfl, rfl, h, rfl⟩
  | cons tb tbs ih =>
      obtain ⟨htools, hnext, hapart, hnotes⟩ := @ih (finishTool fromStr e tb).1 ⟨h.calls, h.blocks⟩
      refine ⟨htools, hnext, hapart, ?_⟩
      rw [Transducer.run_cons, List.filterMap_append, notes_finishTool, hnotes]
      rfl

theorem closeOpenTools_told (h : Apart slots e) :
    (closeOpenTools fromStr e).1.tools = ∅ ∧
      (closeOpenTools fromStr e).1.nextIndex = e.nextIndex ∧
      Apart slots (closeOpenTools fromStr e).1 ∧
      (closeOpenTools fromStr e).2.filterMap ofAnthropic =
        e.tools.toList.map fun entry => .ended (asU32 entry.2.index) := by
  have hall : Apart slots { e with tools := ∅ } := ⟨h.calls, h.blocks⟩
  obtain ⟨htools, hnext, hapart, hnotes⟩ :=
    run_finishTool_told fromStr hall (e.tools.toList.map Prod.snd)
  refine ⟨htools, hnext, hapart, ?_⟩
  rw [closeOpenTools, hnotes, List.map_map]
  rfl

section Events

variable {s : Script} (h : OnScript slots e s)
include h

theorem OnScript.created (responseId model : String) :
    TellsNext (onEvent fromStr) ofAnthropic nextIndex OnScript slots e s
      (.created responseId model) := by
  have hnamed : OnScript slots { e with messageId := responseId, model } s :=
    ⟨h.told, h.usage, ⟨h.apart.calls, h.apart.blocks⟩⟩
  have hquiet := tellsNothing_start hnamed.apart
  intro hnext
  rw [onEvent, hquiet.notes hnext]
  exact ⟨hnamed.nothing hquiet, rfl⟩

theorem OnScript.reasoningDelta (piece : String) :
    TellsNext (onEvent fromStr) ofAnthropic nextIndex OnScript slots e s
      (.reasoningDelta piece) := by
  have hquiet := (tellsNothing_start h.apart).andThen fun e' h' =>
    tellsNothing_ensureThinkingOpen h'
  obtain ⟨index, hindex⟩ := Option.ne_none_iff_exists'.1
    (thinkingIndex_ensureThinkingOpen (start e).1)
  have hopen := h.nothing hquiet
  have hnotes : (onEvent fromStr e (.reasoningDelta piece)).2.filterMap ofAnthropic =
      (Transducer.andThen (start e) ensureThinkingOpen).2.filterMap ofAnthropic ++
        [.reasoning piece] := by
    rw [onEvent, Transducer.andThen_snd, List.filterMap_append]
    simp [hindex]
  intro hnext
  rw [hnotes, Transducer.run_append, hquiet.notes hnext]
  exact ⟨⟨hopen.told, hopen.usage, ⟨hopen.apart.calls, hopen.apart.blocks⟩⟩, rfl⟩

theorem OnScript.textDelta (piece : String) :
    TellsNext (onEvent fromStr) ofAnthropic nextIndex OnScript slots e s
      (.textDelta piece) := by
  have hquiet := ((tellsNothing_start h.apart).andThen fun e' h' =>
    tellsNothing_closeThinking h').andThen fun e' h' => tellsNothing_ensureTextOpen h'
  obtain ⟨index, hindex⟩ := Option.ne_none_iff_exists'.1
    (textIndex_ensureTextOpen (closeThinking (start e).1).1)
  have hopen := h.nothing hquiet
  have hnotes : (onEvent fromStr e (.textDelta piece)).2.filterMap ofAnthropic =
      (Transducer.andThen (Transducer.andThen (start e) closeThinking)
        ensureTextOpen).2.filterMap ofAnthropic ++ [.text piece] := by
    rw [onEvent, Transducer.andThen_snd, List.filterMap_append]
    simp [hindex]
  intro hnext
  rw [hnotes, Transducer.run_append, hquiet.notes hnext]
  exact ⟨⟨hopen.told, hopen.usage, ⟨hopen.apart.calls, hopen.apart.blocks⟩⟩, rfl⟩

theorem OnScript.toolCallStart (index : Nat) (callId name : String) :
    TellsNext (onEvent fromStr) ofAnthropic nextIndex OnScript slots e s
      (.toolCallStart index callId name) := by
  have hquiet := ((tellsNothing_start h.apart).andThen fun e' h' =>
    tellsNothing_closeThinking h').andThen fun e' h' => tellsNothing_closeText h'
  obtain ⟨e', he'⟩ : ∃ e', e' = (Transducer.andThen (Transducer.andThen (start e) closeThinking)
    closeText).1 := ⟨_, rfl⟩
  have h' : OnScript slots e' s := he' ▸ h.nothing hquiet
  have hstate : (onEvent fromStr e (.toolCallStart index callId name)).1 =
      { e' with
        nextIndex := e'.nextIndex + 1
        anyTool := true
        tools := e'.tools.insert index ⟨e'.nextIndex, callId, name, ""⟩ } := by
    rw [he']
    rfl
  intro hnext
  rw [hstate] at hnext
  have hfirst : e'.nextIndex ≤ 2 ^ 32 := (Nat.le_succ _).trans hnext
  have hnotes : (onEvent fromStr e (.toolCallStart index callId name)).2.filterMap ofAnthropic =
      (Transducer.andThen (Transducer.andThen (start e) closeThinking) closeText).2.filterMap
        ofAnthropic ++ [.started e'.nextIndex callId name] := by
    rw [onEvent, Transducer.andThen_snd, List.filterMap_append, ← he']
    -- the number of the new block is not the last one
    simp [asU32_of_lt hnext]
  rw [hnotes, hstate, Transducer.run_append, hquiet.notes (he' ▸ hfirst), Transducer.run_singleton,
    retell, h'.told.count]
  refine ⟨⟨?_, h'.usage, ⟨(h'.told.started index).fresh, ?_⟩⟩, rfl⟩
  · exact h'.told.inserted index rfl
  · -- the new call is filed behind the open blocks
    intro i hopen
    obtain ⟨hlt, hmem⟩ := h'.apart.blocks i hopen
    refine ⟨hlt.trans (Nat.lt_succ_self _), ?_⟩
    rw [List.mem_append, List.mem_singleton]
    rintro (hold | hnew)
    · exact hmem hold
    · exact Nat.ne_of_lt hlt hnew

theorem OnScript.toolCallArgsDelta (index : Nat) (piece : String) :
    TellsNext (onEvent fromStr) ofAnthropic nextIndex OnScript slots e s
      (.toolCallArgsDelta index piece) := by
  cases htool : e.tools[index]? with
  | none =>
      have hstep : onEvent fromStr e (.toolCallArgsDelta index piece) = (e, []) := by
        simp [onEvent, htool]
      rw [TellsNext, hstep, Script.next, h.told.unnumbered htool]
      exact fun hnext => ⟨h, rfl⟩
  | some tb =>
      obtain ⟨hslot, hnumber⟩ := h.told.numbered htool
      have hstate : (onEvent fromStr e (.toolCallArgsDelta index piece)).1 =
          { e with tools := e.tools.insert index { tb with args := tb.args ++ piece } } := by
        simp [onEvent, htool]
      intro hnext
      rw [hstate] at hnext
      have hnotes : (onEvent fromStr e (.toolCallArgsDelta index piece)).2.filterMap
          ofAnthropic = [.arguments tb.index piece] := by
        simp [onEvent, htool, h.told.asU32_slot hnext htool]
      rw [hnotes, hstate, Transducer.run_singleton, retell, if_pos hslot, Script.next,
        hnumber]
      exact ⟨⟨h.told.grown htool rfl, h.usage, ⟨h.apart.calls, h.apart.blocks⟩⟩, rfl⟩

theorem OnScript.toolCallDone (index : Nat) :
    TellsNext (onEvent fromStr) ofAnthropic nextIndex OnScript slots e s
      (.toolCallDone index) := by
  cases htool : e.tools[index]? with
  | none =>
      have hstep : onEvent fromStr e (.toolCallDone index) = (e, []) := by
        simp [onEvent, htool]
      rw [TellsNext, hstep, Script.next, h.told.unnumbered htool]
      exact fun hnext => ⟨⟨h.told.absent htool, h.usage, h.apart⟩, rfl⟩
  | some tb =>
      obtain ⟨hslot, hnumber⟩ := h.told.numbered htool
      have hstep : onEvent fromStr e (.toolCallDone index) =
          finishTool fromStr { e with tools := e.tools.erase index } tb := by
        simp [onEvent, htool]
      intro hnext
      rw [hstep] at hnext
      rw [hstep, notes_finishTool, h.told.asU32_slot hnext htool, Transducer.run_singleton, retell,
        if_pos hslot, Script.next, hnumber]
      exact ⟨⟨h.told.erased index, h.usage, ⟨h.apart.calls, h.apart.blocks⟩⟩, rfl⟩

theorem OnScript.completed :
    TellsNext (onEvent fromStr) ofAnthropic nextIndex OnScript slots e s .completed := by
  have hquiet := (tellsNothing_closeThinking h.apart).andThen fun e' h' =>
    tellsNothing_closeText h'
  obtain ⟨e', he'⟩ : ∃ e', e' = (Transducer.andThen (closeThinking e) closeText).1 := ⟨_, rfl⟩
  have h' : OnScript slots e' s := he' ▸ h.nothing hquiet
  obtain ⟨htools, hnext, hapart, hended⟩ := closeOpenTools_told fromStr h'.apart
  have hcounts : (closeOpenTools fromStr e').1.usage = s.usage := by simp [h'.usage]
  have hstate : (onEvent fromStr e .completed).1 = (closeOpenTools fromStr e').1 := by
    rw [he']
    rfl
  have hnotes : (onEvent fromStr e .completed).2.filterMap ofAnthropic =
      (Transducer.andThen (closeThinking e) closeText).2.filterMap ofAnthropic ++
        ((e'.tools.toList.map fun entry => .ended (asU32 entry.2.index)) ++ [s.finished]) := by
    rw [onEvent, Transducer.andThen_snd, List.filterMap_append, Transducer.andThen_snd,
      List.filterMap_append, ← he', hended, List.append_assoc]
    simp [h.usage, Script.finished, usageJson, anthropicUsage, StreamNote.ofAnthropicUsage]
  intro hsmall
  rw [hstate, hnext] at hsmall
  rw [hstate, hnotes, Transducer.run_append, hquiet.notes (he' ▸ hsmall), Transducer.run_append,
    h'.told.retell_closed hsmall]
  refine ⟨⟨?_, hcounts, hapart⟩, rfl⟩
  rw [htools, hnext]
  exact h'.told.emptied

end Events

/-- **One event.** -/
theorem tellsNext_onEvent {s : Script} (h : OnScript slots e s) (ev : CanonicalEvent) :
    TellsNext (onEvent fromStr) ofAnthropic nextIndex OnScript slots e s ev := by
  cases ev with
  | created responseId model => exact h.created fromStr responseId model
  | reasoningDelta piece => exact h.reasoningDelta fromStr piece
  | textDelta piece => exact h.textDelta fromStr piece
  | toolCallStart index callId name => exact h.toolCallStart fromStr index callId name
  | toolCallArgsDelta index piece => exact h.toolCallArgsDelta fromStr index piece
  | toolCallDone index => exact h.toolCallDone fromStr index
  | usage counts =>
    exact fun hnext => ⟨⟨h.told.reported counts, rfl, ⟨h.apart.calls, h.apart.blocks⟩⟩, rfl⟩
  | completed => exact h.completed fromStr
  | error message status =>
      have hnotes : (onEvent fromStr e (.error message status)).2.filterMap ofAnthropic =
          [.failed message] := by
        simp [onEvent]
      intro hnext
      rw [hnotes]
      exact ⟨⟨h.told, h.usage, h.apart⟩, rfl⟩

/-- **The Anthropic dialect tells the script.** -/
theorem tells : Tells (onEvent fromStr) ofAnthropic nextIndex OnScript where
  event := fun _ _ _ ev h => tellsNext_onEvent fromStr h ev
  mono := nextIndex_le_onEvent fromStr

end Frames

end AnthropicEmitter

/-! ## Streams -/

section Streams

variable (fromStr : String → Option Value) (track : Bool)

/-- The events of signals: of a stream with this parser, completed or not, that has read its end
mark or not. -/
def signalEvents (parser : ChatStreamParser) (completed done : Bool) :
    List Signal → List CanonicalEvent
  | [] => if completed then [] else [.completed]
  | .failure message :: _ => [.error message 502]
  | .item .done :: sigs =>
      .completed :: if track then signalEvents parser true true sigs else []
  | .item (.data d) :: sigs =>
      match fromStr d with
      | none => signalEvents parser completed done sigs
      | some json =>
          if done then signalEvents parser completed done sigs
          else (onChunk parser json).2 ++
            if (Chat.nonNull (json.get "error")).isSome then []
            else signalEvents (onChunk parser json).1 completed done sigs

/-- The events of an upstream stream. -/
def upstreamEvents (responseId : String) (chunks : List UpstreamChunk) : List CanonicalEvent :=
  signalEvents fromStr track (.new responseId) false false (signals chunks)

/-- The chunks that are translated: those before the end mark and before a failure. An error in
band makes its chunk the last one. -/
def translatedChunks : List Signal → List Value
  | [] => []
  | .failure _ :: _ => []
  | .item .done :: _ => []
  | .item (.data d) :: sigs =>
      match fromStr d with
      | none => translatedChunks sigs
      | some json =>
          json ::
            if (Chat.nonNull (json.get "error")).isSome then [] else translatedChunks sigs

/-- How many items an upstream stream opens. -/
def upstreamItems (chunks : List UpstreamChunk) : Nat :=
  Cue.itemsOpened [] (streamCues [] (translatedChunks fromStr (signals chunks)))

variable {σ : Type} (emit : Step σ CanonicalEvent SseFrame)

/-- A chunk is caught, and translated unless it comes behind the end mark. -/
theorem onSignal_data {s : StreamState σ} {d : String} {json : Value}
    (hjson : fromStr d = some json) :
    ∃ caught, onSignal emit fromStr track s (.item (.data d)) =
      if s.done then (({ s with caught }, []), false)
      else
        (({ s with
            parser := (onChunk s.parser json).1
            emitter := (runUntil (emitEvent emit) s.emitter (onChunk s.parser json).2).1.1
            completed := s.completed ||
              (runUntil (emitEvent emit) s.emitter (onChunk s.parser json).2).2
            caught }, (runUntil (emitEvent emit) s.emitter (onChunk s.parser json).2).1.2),
          (runUntil (emitEvent emit) s.emitter (onChunk s.parser json).2).2) := by
  refine ⟨if track then s.caught.read json else s.caught, ?_⟩
  cases track <;> simp [onSignal, onItem, hjson]

theorem signalFrames_chunk (s : StreamState σ) {d : String} {json : Value} {sigs : List Signal}
    (hjson : fromStr d = some json)
    (hrest : ∀ s : StreamState σ, signalFrames emit fromStr track s sigs =
      (run emit s.emitter (signalEvents fromStr track s.parser s.completed s.done sigs)).2) :
    signalFrames emit fromStr track s (.item (.data d) :: sigs) =
      (run emit s.emitter
        (if s.done then signalEvents fromStr track s.parser s.completed s.done sigs
        else (onChunk s.parser json).2 ++
          if (Chat.nonNull (json.get "error")).isSome then []
          else
            signalEvents fromStr track (onChunk s.parser json).1 s.completed s.done sigs)).2 := by
  obtain ⟨caught, hstep⟩ := onSignal_data fromStr track emit (s := s) hjson
  cases hdone : s.done with
  | true =>
      rw [if_pos hdone] at hstep
      rw [signalFrames_go emit fromStr track (by rw [hstep]), hstep, hrest]
      simp [hdone]
  | false =>
      rw [if_neg (by simp [hdone])] at hstep
      cases herror : Chat.nonNull (json.get "error") with
      | some err =>
          -- an error in band is the last event
          have hrun : runUntil (emitEvent emit) s.emitter (onChunk s.parser json).2 =
              (emit s.emitter (Chat.errorEvent err), true) := by
            rw [onChunk_error s.parser herror]
            rfl
          rw [signalFrames_stop emit fromStr track (by rw [hstep, hrun]), hstep, hrun]
          simp [closing, onChunk_error s.parser herror]
      | none =>
          have hrun : runUntil (emitEvent emit) s.emitter (onChunk s.parser json).2 =
              (run emit s.emitter (onChunk s.parser json).2, false) :=
            runUntil_emitEvent emit (fun ev hev => (quiet_onChunk herror hev).2) _
          rw [signalFrames_go emit fromStr track (by rw [hstep, hrun]), hstep, hrun, hrest]
          simp [Transducer.run_append_snd, hdone]

/-- **The frames of a stream are those of its events**, whatever the dialect. -/
theorem signalFrames_eq_run (sigs : List Signal) (s : StreamState σ) :
    signalFrames emit fromStr track s sigs =
      (run emit s.emitter (signalEvents fromStr track s.parser s.completed s.done sigs)).2 := by
  induction sigs generalizing s with
  | nil =>
      rw [signalFrames, closing, signalEvents]
      cases hc : s.completed <;> simp [runUntil, hc]
  | cons sig sigs ih =>
      cases sig with
      | failure message =>
          rw [signalFrames_stop emit fromStr track rfl, signalEvents]
          simp [onSignal, closing]
      | item i =>
          cases i with
          | done =>
              rw [signalEvents]
              cases ht : track with
              | true =>
                  -- a tracked stream reads on
                  rw [signalFrames_go emit fromStr true rfl, if_pos rfl, ← ht, ih, ht]
                  simp [onSignal, onItem, Transducer.run_cons]
              | false =>
                  rw [signalFrames_stop emit fromStr false rfl]
                  simp [onSignal, onItem, closing]
          | data d =>
              rw [signalEvents]
              cases hjson : fromStr d with
              | none =>
                  have hstep :
                      onSignal emit fromStr track s (.item (.data d)) = ((s, []), false) := by
                    simp [onSignal, onItem, hjson]
                  rw [signalFrames_go emit fromStr track (by rw [hstep]), hstep, ih]
                  rfl
              | some json => exact signalFrames_chunk fromStr track emit s hjson ih

/-- The script does not depend on the id of the response. -/
theorem script_onChunk (p : ChatStreamParser) (responseId : String) (json : Value) :
    (onChunk { p with responseId } json).1 = { (onChunk p json).1 with responseId } ∧
      ∀ s, run Script.next s (onChunk { p with responseId } json).2 =
        run Script.next s (onChunk p json).2 := by
  cases herror : Chat.nonNull (json.get "error") with
  | some err =>
      rw [onChunk_error _ herror, onChunk_error _ herror]
      exact ⟨rfl, fun s => rfl⟩
  | none =>
      rw [onChunk_eq _ herror, onChunk_eq _ herror]
      refine ⟨rfl, ?_⟩
      intro s
      have hopen : ∀ (p : ChatStreamParser) (evs : List CanonicalEvent),
          run Script.next s (openingEvents p json ++ evs) = run Script.next s evs := by
        intro p evs
        rw [openingEvents]
        cases p.created <;> simp [Transducer.run_cons, Script.next]
      simp only [List.append_assoc, hopen]

theorem script_signalEvents (responseId : String) (sigs : List Signal) (p : ChatStreamParser)
    (completed done : Bool) (s : Script) :
    run Script.next s (signalEvents fromStr track { p with responseId } completed done sigs) =
      run Script.next s (signalEvents fromStr track p completed done sigs) := by
  induction sigs generalizing p completed done s with
  | nil => rfl
  | cons sig sigs ih =>
      cases sig with
      | failure message => rfl
      | item i =>
          cases i with
          | done =>
              rw [signalEvents, signalEvents]
              cases track with
              | true => rw [if_pos rfl, if_pos rfl, Transducer.run_cons, Transducer.run_cons, ih]
              | false => rfl
          | data d =>
              rw [signalEvents, signalEvents]
              cases hjson : fromStr d with
              | none => exact ih p completed done s
              | some json =>
                  obtain ⟨hparser, hevents⟩ := script_onChunk p responseId json
                  cases done with
                  | true => exact ih p completed true s
                  | false =>
                      cases herror : Chat.nonNull (json.get "error") with
                      | some err => simp [herror, hevents]
                      | none => simp [herror, Transducer.run_append, hevents, hparser, ih]

/-- Behind the end mark no item is opened. -/
theorem quiet_signalEvents (p : ChatStreamParser) (completed : Bool) (sigs : List Signal) :
    ∀ ev ∈ signalEvents fromStr track p completed true sigs, cueOf ev = none := by
  induction sigs generalizing completed with
  | nil =>
      intro ev hev
      rw [signalEvents] at hev
      split at hev
      · cases hev
      · rw [List.mem_singleton.1 hev]
        rfl
  | cons sig sigs ih =>
      intro ev hev
      cases sig with
      | failure message =>
          rw [signalEvents, List.mem_singleton] at hev
          rw [hev]
          rfl
      | item i =>
          cases i with
          | done =>
              rw [signalEvents, List.mem_cons] at hev
              rcases hev with rfl | hev
              · rfl
              · split at hev
                · exact ih true ev hev
                · cases hev
          | data d =>
              rw [signalEvents] at hev
              cases hjson : fromStr d with
              | none =>
                  rw [hjson] at hev
                  exact ih completed ev hev
              | some json =>
                  rw [hjson] at hev
                  exact ih completed ev hev

/-- The events of a stream are those of the chunks that are translated, and its end. -/
theorem signalEvents_eq_append (p : ChatStreamParser) (completed : Bool) (sigs : List Signal) :
    ∃ rest, signalEvents fromStr track p completed false sigs =
        (run onChunk p (translatedChunks fromStr sigs)).2 ++ rest ∧
      ∀ ev ∈ rest, cueOf ev = none := by
  induction sigs generalizing p completed with
  | nil =>
      refine ⟨if completed then [] else [.completed], rfl, ?_⟩
      cases completed <;> simp [cueOf]
  | cons sig sigs ih =>
      cases sig with
      | failure message => exact ⟨[.error message 502], rfl, by simp [cueOf]⟩
      | item i =>
          cases i with
          | done =>
              refine ⟨_, rfl, ?_⟩
              intro ev hev
              rcases List.mem_cons.1 hev with rfl | hev
              · rfl
              · split at hev
                · exact quiet_signalEvents fromStr track p true sigs ev hev
                · cases hev
          | data d =>
              rw [signalEvents, translatedChunks]
              cases hjson : fromStr d with
              | none => exact ih p completed
              | some json =>
                  simp only [Bool.false_eq_true, if_false]
                  cases herror : (Chat.nonNull (json.get "error")).isSome with
                  | true => exact ⟨[], by simp [Transducer.run_cons], by simp⟩
                  | false =>
                      obtain ⟨rest, hrest, hquiet⟩ := ih (onChunk p json).1 completed
                      refine ⟨rest, ?_, hquiet⟩
                      simp [hrest, Transducer.run_cons]

/-- An emitter that counts its items counts those of the chunks that are translated. -/
theorem next_signalEvents {next : σ → Nat} {α : Type} {slots : σ → ItemSlot → Option (Nat × α)}
    (hc : CountsItems emit next slots) (hk : KeepsSlots emit next slots) {s : σ}
    (hnext : next s = 0) (hslots : ∀ k, slots s k = none) (responseId : String) (chunks : List UpstreamChunk) :
    next (run emit s (signalEvents fromStr track (.new responseId) false false
      (signals chunks))).1 = upstreamItems fromStr chunks := by
  obtain ⟨rest, hrest, hquiet⟩ :=
    signalEvents_eq_append fromStr track (.new responseId) false (signals chunks)
  rw [hrest, Transducer.run_append_fst, hc.next_quiet hquiet,
    hc.chunks hk hnext hslots responseId, upstreamItems]

/-- **Both clients are told the same story.** Whatever the upstream sends, in whatever pieces, and
wherever it fails, as long as it opens no more items than there are numbers for them: read off the
frames of the Responses dialect and off those of the Anthropic dialect, with the calls numbered in
the order of their starts, are the same notes, those that the script has for the events of the
upstream. The ids of the two answers make no difference. -/
theorem sameStory (uuid : Nat → String) (responseId messageId : String)
    (chunks : List UpstreamChunk) (hitems : upstreamItems fromStr chunks ≤ 2 ^ 32) :
    story ofResponses
        (runStream (ResponsesEmitter.onEvent uuid) fromStr track responseId .new chunks).1 =
      (run Script.next .new (upstreamEvents fromStr track responseId chunks)).2 ∧
    story ofAnthropic
        (runStream (AnthropicEmitter.onEvent fromStr) fromStr track messageId .new chunks).1 =
      (run Script.next .new (upstreamEvents fromStr track responseId chunks)).2 := by
  have hresponses := next_signalEvents fromStr track (ResponsesEmitter.onEvent uuid)
    (ResponsesEmitter.countsItems uuid) (ResponsesEmitter.keepsSlots uuid) rfl
    ResponsesEmitter.slots_new responseId chunks
  have hanthropic := next_signalEvents fromStr track (AnthropicEmitter.onEvent fromStr)
    (AnthropicEmitter.countsItems fromStr) (AnthropicEmitter.keepsSlots fromStr) rfl
    AnthropicEmitter.slots_new messageId chunks
  have hid := script_signalEvents fromStr track messageId (signals chunks) (.new responseId) false
    false .new
  rw [runStream_eq_signals, runStream_eq_signals, signalFrames_eq_run, signalFrames_eq_run,
    upstreamEvents]
  constructor
  · exact (ResponsesEmitter.tells uuid).run _ ResponsesEmitter.OnScript.new
      (hresponses.trans_le hitems)
  · rw [← hid]
    exact (AnthropicEmitter.tells fromStr).run _ AnthropicEmitter.OnScript.new
      (hanthropic.trans_le hitems)

end Streams

/-- A parser that knows a chunk with reasoning and a call. -/
def thoughtThenCall (d : String) : Option Value :=
  if d = "t" then
    some (Chat.deltaChunk [("reasoning", .string "a"), ("tool_calls", .array
      [.object [("index", .ofNat 0), ("id", .string "c"), ("function",
        .object [("name", .string "f"), ("arguments", .string "x")])]])])
  else none

/-- The connection is lost while the call is open. -/
theorem sameStory_lostConnection :
    let chunks : List UpstreamChunk :=
      [.ok [100, 97, 116, 97, 58, 32], .ok [116, 10, 10], .error "reset"]
    let told : List StreamNote :=
      [.reasoning "a", .started 0 "c" "f", .arguments 0 "x", .failed "reset"]
    story ofResponses (runStream (ResponsesEmitter.onEvent fun n => Nat.repr n) thoughtThenCall
        true "resp_1" .new chunks).1 = told ∧
      story ofAnthropic (runStream (AnthropicEmitter.onEvent thoughtThenCall) thoughtThenCall true
        "msg_1" .new chunks).1 = told := by
  intro chunks told
  have hscript : (run Script.next .new (upstreamEvents thoughtThenCall true "resp_1" chunks)).2 =
      told := by decide
  have hstory := sameStory thoughtThenCall true (fun n => Nat.repr n) "resp_1" "msg_1" chunks
    (by decide)
  rwa [hscript] at hstory

end AiApiBridge
