import AiApiBridge.Draft
import AiApiBridge.CallStream

/-!
# Completions, whole and fragmented

A Chat Completions message reaches the bridge as one response object
(`completionOf`) or fragmented into stream chunks (`Fragments`). The one translator
of `wire/chat.rs` turns the whole object into orderly canonical events that add up to
the draft of the message (`orderly_completionEvents`).
-/

set_option autoImplicit false

namespace AiApiBridge

open Chat ChatStreamParser

/-- What a completion says. -/
structure Completion where
  model : String
  reasoning : String
  content : String
  calls : List ToolCall
  usage : Option Value
  deriving DecidableEq, Repr

/-- The message of a whole response. -/
def messageOf (resp : Value) : Option Value := (firstChoice resp).bind fun c => c.get "message"

/-- A tool call of a whole message. -/
def wholeCall (tc : Value) : ToolCall :=
  ⟨strOr tc "id" "", (functionStr tc "name").getD "", (functionStr tc "arguments").getD ""⟩

/-- The tool calls of a whole message, as JSON. -/
def toolCallsOf (msg : Value) : List Value := ((msg.get "tool_calls").bind Value.asArray).getD []

/-- What a whole response says. -/
def completionOf (resp : Value) : Completion where
  model := strOr resp "model" ""
  reasoning := ((messageOf resp).bind reasoningText).getD ""
  content := ((messageOf resp).bind fun msg => nonEmptyStr (msg.get "content")).getD ""
  calls := (((messageOf resp).map toolCallsOf).getD []).map wholeCall
  usage := chunkUsage resp

/-- The draft that a completion adds up to: everything said, every call closed. -/
structure Drafted (responseId : String) (m : Completion) (d : Draft) : Prop where
  opened : d.opened = true
  responseId_eq : d.responseId = responseId
  model_eq : d.model = m.model
  reasoning_eq : d.reasoning = m.reasoning
  content_eq : d.content = m.content
  dead : ∀ c ∈ d.calls, c.live = false
  closed_eq : d.closed = m.calls
  usage_eq : d.usage = m.usage.map usageCounts

/-! ## The whole response -/

/-- The events of one whole call. -/
def callEvents (i : Nat) (c : ToolCall) : List CanonicalEvent :=
  [.toolCallStart i c.callId c.name] ++
    (if c.arguments = "" then [] else [.toolCallArgsDelta i c.arguments]) ++ [.toolCallDone i]

/-- A piece of text as events: none when it is empty. -/
def textEvents (event : String → CanonicalEvent) (t : String) : List CanonicalEvent :=
  if t = "" then [] else [event t]

/-- The events of the calls of a whole message, numbered from `n` on. -/
def callsEvents (n : Nat) : List ToolCall → List CanonicalEvent
  | [] => []
  | c :: cs => callEvents (asU32 n) c ++ callsEvents (n + 1) cs

/-- The events of a completion, in terms of what it says, before the last one. -/
def completionEvents (responseId : String) (m : Completion) : List CanonicalEvent :=
  [.created responseId m.model] ++ textEvents .reasoningDelta m.reasoning ++
    textEvents .textDelta m.content ++ callsEvents 0 m.calls ++
    (m.usage.map usageEvent).toList

theorem textEvents_getD (event : String → CanonicalEvent) {o : Option String}
    (h : ∀ s, o = some s → s ≠ "") : textEvents event (o.getD "") = (o.map event).toList := by
  cases o with
  | none => simp [textEvents]
  | some s => simp [textEvents, h s rfl]

theorem flatten_mapIdx_completedCallEvents (tcs : List Value) (n : Nat) :
    (tcs.mapIdx fun i tc => completedCallEvents (i + n) tc).flatten =
      callsEvents n (tcs.map wholeCall) := by
  induction tcs generalizing n with
  | nil => rfl
  | cons tc tcs ih =>
      have hshift : (fun (i : Nat) tc => completedCallEvents (i + 1 + n) tc) =
          fun i tc => completedCallEvents (i + (n + 1)) tc := by
        funext i tc
        rw [Nat.add_assoc, Nat.add_comm 1 n]
      rw [List.mapIdx_cons, List.flatten_cons, hshift, ih (n + 1)]
      simp [callsEvents, callEvents, completedCallEvents, wholeCall]

/-- **The whole-response translator.** -/
theorem completionToEvents_eq (resp : Value) (responseId : String) :
    completionToEvents resp responseId =
      completionEvents responseId (completionOf resp) ++ [.completed] := by
  have hcalls : ∀ tcs : List Value, (tcs.mapIdx completedCallEvents).flatten =
      callsEvents 0 (tcs.map wholeCall) := fun tcs => flatten_mapIdx_completedCallEvents tcs 0
  have hmsg : (firstChoice resp).bind (fun c => c.get "message") = messageOf resp := rfl
  -- a text is one delta, and an empty one is none
  have hreasoning : textEvents .reasoningDelta (completionOf resp).reasoning =
      (((messageOf resp).bind reasoningText).map CanonicalEvent.reasoningDelta).toList := by
    apply textEvents_getD _
    intro s hs
    obtain ⟨msg, -, hm⟩ := Option.bind_eq_some_iff.1 hs
    exact nonEmptyStr_ne_empty hm
  have hcontent : textEvents .textDelta (completionOf resp).content =
      (((messageOf resp).bind fun msg => nonEmptyStr (msg.get "content")).map
        CanonicalEvent.textDelta).toList := by
    apply textEvents_getD _
    intro s hs
    obtain ⟨msg, -, hm⟩ := Option.bind_eq_some_iff.1 hs
    exact nonEmptyStr_ne_empty hm
  rw [completionEvents, hreasoning, hcontent, completionToEvents, hmsg]
  cases hm : messageOf resp with
  | none => simp [completionOf, hm, callsEvents, chunkUsage]
  | some msg => simp [completionOf, hm, messageEvents, hcalls, toolCallsOf, chunkUsage]

namespace Draft

theorem openCall_eq_none_of_dead {d : Draft} (h : ∀ c ∈ d.calls, c.live = false) (i : Nat) :
    d.openCall i = none := by
  simp only [openCall, Option.map_eq_none_iff, List.find?_eq_none, Bool.and_eq_true,
    decide_eq_true_eq, not_and]
  intro c hc _
  simp [h c hc]

/-- One whole call. -/
theorem orderly_callEvents {d : Draft} (ho : d.opened = true)
    (hdead : ∀ c ∈ d.calls, c.live = false) (i : Nat) (c : ToolCall) :
    d.Orderly (callEvents i c) ∧
      d.after (callEvents i c) =
        { d with calls := d.calls ++ [⟨i, c, false⟩], closed := d.closed ++ [c] } := by
  have hnone : d.openCall i = none := openCall_eq_none_of_dead hdead i
  -- fragments and ends of this index reach no earlier call, since none of them is live
  have hold : ∀ args, d.calls.map (DraftCall.append i args) = d.calls := fun args =>
    (List.map_congr_left fun c hc => by simp [DraftCall.append, hdead c hc]).trans (List.map_id _)
  have hfin : d.calls.map (DraftCall.finish i) = d.calls := by
    refine (List.map_congr_left fun c hc => ?_).trans (List.map_id _)
    have := hdead c hc
    rcases c with ⟨index, call, live⟩
    by_cases hi : index = i <;> simp_all [DraftCall.finish]
  have hfind : d.calls.find? (fun c => decide (c.index = i) && c.live) = none := by
    simpa [openCall] using hnone
  rcases c with ⟨callId, name, args⟩
  by_cases ha : args = ""
  · subst ha
    constructor
    · simp [callEvents, Allows, ho, hnone, step]
    · simp [callEvents, step, hfin, openCall, hfind, DraftCall.finish]
  · constructor
    · simp [callEvents, Allows, ho, hnone, step, ha]
    · simp [callEvents, step, ha, hold, hfin, openCall, hfind, DraftCall.append, DraftCall.finish]

/-- The calls of a whole message. -/
theorem orderly_callsEvents {d : Draft} (ho : d.opened = true)
    (hdead : ∀ c ∈ d.calls, c.live = false) (n : Nat) (cs : List ToolCall) :
    d.Orderly (callsEvents n cs) ∧
      ∃ calls, (∀ c ∈ calls, c.live = false) ∧ calls.map DraftCall.call =
          d.calls.map DraftCall.call ++ cs ∧
        d.after (callsEvents n cs) = { d with calls, closed := d.closed ++ cs } := by
  induction cs generalizing d n with
  | nil => exact ⟨trivial, d.calls, hdead, by simp, by simp [callsEvents]⟩
  | cons c cs ih =>
      obtain ⟨horder, hafter⟩ := orderly_callEvents ho hdead (asU32 n) c
      -- every call is closed before the next one comes
      have hdead' : ∀ c' ∈ d.calls ++ [⟨asU32 n, c, false⟩], c'.live = false := by
        intro c' hc'
        rcases List.mem_append.1 hc' with hc' | hc'
        · exact hdead c' hc'
        · rw [List.mem_singleton.1 hc']
      obtain ⟨horder', calls, h1, h2, h3⟩ := ih (d := { d with
        calls := d.calls ++ [⟨asU32 n, c, false⟩], closed := d.closed ++ [c] }) ho hdead' (n + 1)
      refine ⟨?_, calls, h1, by simpa using h2, ?_⟩
      · rw [callsEvents, orderly_append, hafter]
        exact ⟨horder, horder'⟩
      · rw [callsEvents, after_append, hafter, h3]
        simp

end Draft

/-- **The events of a whole response are orderly and add up to what it says.** -/
theorem orderly_completionEvents (responseId : String) (m : Completion) :
    Draft.new.Orderly (completionEvents responseId m) ∧
      Drafted responseId m (Draft.new.after (completionEvents responseId m)) ∧
      (Draft.new.after (completionEvents responseId m)).calls.map DraftCall.call = m.calls := by
  -- the draft behind the two texts
  let d : Draft := { Draft.new with
    opened := true, responseId, model := m.model, reasoning := m.reasoning, content := m.content }
  obtain ⟨texts, htexts⟩ : ∃ texts, texts = [.created responseId m.model] ++
      textEvents .reasoningDelta m.reasoning ++ textEvents .textDelta m.content := ⟨_, rfl⟩
  have hsplit : completionEvents responseId m =
      texts ++ callsEvents 0 m.calls ++ (m.usage.map usageEvent).toList := by
    rw [htexts, completionEvents]
  have htextsOrderly : Draft.new.Orderly texts := by
    by_cases hr : m.reasoning = "" <;> by_cases hc : m.content = "" <;>
      simp [htexts, textEvents, hr, hc, Draft.Allows, Draft.step, Draft.new]
  have htextsAfter : Draft.new.after texts = d := by
    by_cases hr : m.reasoning = "" <;> by_cases hc : m.content = "" <;>
      simp [htexts, textEvents, hr, hc, Draft.step, Draft.new, d]
  obtain ⟨hcalls, calls, hdead, hmap, hafter⟩ := Draft.orderly_callsEvents (d := d) rfl
    (by simp [d, Draft.new]) 0 m.calls
  have husageOrderly : ∀ d : Draft, d.opened = true →
      d.Orderly (m.usage.map usageEvent).toList := by
    intro d ho
    cases m.usage <;> simp [usageEvent, Draft.Allows, ho]
  have husageAfter : ∀ d : Draft, d.after (m.usage.map usageEvent).toList =
      { d with usage := (m.usage.map usageCounts).or d.usage } := by
    intro d
    cases m.usage <;> simp [usageEvent, Draft.step]
  have hfinal : Draft.new.after (completionEvents responseId m) =
      { d with calls, closed := m.calls, usage := m.usage.map usageCounts } := by
    rw [hsplit, Draft.after_append, Draft.after_append, htextsAfter, hafter, husageAfter]
    simp [d, Draft.new]
  refine ⟨?_, ?_, ?_⟩
  · rw [hsplit, Draft.orderly_append, Draft.orderly_append, Draft.after_append, htextsAfter, hafter]
    exact ⟨⟨htextsOrderly, hcalls⟩, husageOrderly _ rfl⟩
  · rw [hfinal]
    exact ⟨rfl, rfl, rfl, rfl, rfl, hdead, rfl, rfl⟩
  · rw [hfinal]
    simpa [d, Draft.new] using hmap

/-! ## Fragmentations -/

/-- What a chunk can carry, in the order in which a message is streamed. -/
inductive Phase where
  | reasoning
  | content
  | call
  | finish
  deriving DecidableEq, Repr

def Phase.rank : Phase → Nat
  | reasoning => 0
  | content => 1
  | call => 2
  | finish => 3

/-- What a chunk carries. Empty pieces of text count for nothing. -/
def chunkPhases (c : Value) : List Phase :=
  (chunkReasoning c).toList.map (fun _ => .reasoning) ++
    (chunkContent c).toList.map (fun _ => .content) ++
    (chunkFragments c).map (fun _ => .call) ++ if finishes c then [.finish] else []

/-- The call that the fragments of an index make up: the id and the name of the
first one, the arguments of all of them. -/
def callAt (i : Nat) (fs : List Value) : Option ToolCall :=
  match fs.filter fun f => carriedIndex f = some i with
  | [] => none
  | f :: rest => some ⟨strOr f "id" "", (functionStr f "name").getD "",
      String.join ((f :: rest).map fun f => (fragmentArgs f).getD "")⟩

/-- The tool fragments of a stream. -/
def streamFragments (chunks : List Value) : List Value := chunks.flatMap chunkFragments

/-- The chunks are a fragmentation of the completion: the first one names the
model, reasoning comes before content, content before tool calls, one finish
reason ends the choice, and the pieces make up the message. -/
structure Fragments (chunks : List Value) (m : Completion) : Prop where
  noError : ∀ c ∈ chunks, NoError c
  first : chunks.head?.map (fun c => strOr c "model" "") = some m.model
  ordered : (chunks.flatMap chunkPhases).Pairwise fun a b => a.rank ≤ b.rank
  single : (chunks.filter fun c => finishes c).length = 1
  reasoning : String.join (chunks.filterMap chunkReasoning) = m.reasoning
  content : String.join (chunks.filterMap chunkContent) = m.content
  indexed : ∀ f ∈ streamFragments chunks, (carriedIndex f).isSome
  calls : ∀ i, callAt i (streamFragments chunks) = m.calls[i]?
  usage : (chunks.filterMap chunkUsage).getLast? = m.usage

/-- Calls are looked up among those there are. -/
theorem callAt_eq_getElem? {fs : List Value} {calls : List ToolCall}
    (hcalls : ∀ i < calls.length, callAt i fs = calls[i]?)
    (hidx : ∀ f ∈ fs, (carriedIndex f).any (fun n => n < calls.length) = true) (i : Nat) :
    callAt i fs = calls[i]? := by
  by_cases hi : i < calls.length
  · exact hcalls i hi
  · have hnone : fs.filter (fun f => carriedIndex f = some i) = [] := by
      apply List.filter_eq_nil_iff.2
      intro f hf heq
      have := hidx f hf
      rw [of_decide_eq_true heq] at this
      exact hi (by simpa using this)
    rw [callAt, hnone, List.getElem?_eq_none (Nat.not_lt.1 hi)]

@[simp] theorem callAt_nil (i : Nat) : callAt i [] = none := rfl

/-- One more fragment. -/
theorem callAt_snoc (i : Nat) (fs : List Value) (f : Value) :
    callAt i (fs ++ [f]) =
      if carriedIndex f = some i then
        some (match callAt i fs with
          | none => ⟨strOr f "id" "", (functionStr f "name").getD "", (fragmentArgs f).getD ""⟩
          | some c => { c with arguments := c.arguments ++ (fragmentArgs f).getD "" })
      else callAt i fs := by
  simp only [callAt]
  rw [List.filter_append]
  by_cases hf : carriedIndex f = some i
  · cases hfs : fs.filter fun f => carriedIndex f = some i with
    | nil => simp [hf]
    | cons g rest => simp [hf, String.append_assoc]
  · simp [hf]

end AiApiBridge
