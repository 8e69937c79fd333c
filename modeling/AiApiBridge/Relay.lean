import AiApiBridge.ChatRoundTrip
import AiApiBridge.SchemaRepair
import AiApiBridge.TokenCounts
import AiApiBridge.Lib.Representable

/-!
# Bridges in a row

An upstream of a bridge may be a bridge itself: its chat endpoint parses the body it gets and
builds it again. What the last of a row of bridges sends is what a single one in between would
send, whatever the length of the row (`relayAll_buildRequest`), with one exception: each bridge
puts one more parent in front of every tool result without an id, as such a parent announces
nothing.

The text of a body between two bridges is left out: `serde_json` reads back what it writes.
-/

set_option autoImplicit false

namespace AiApiBridge

open Chat

/-! ## Parents again -/

namespace Chat

/-- Every result with an id has been announced. -/
def AllAnnounced (announced : List String) : List Message → Prop
  | [] => True
  | .user _ :: ms => AllAnnounced announced ms
  | .assistant _ _ calls :: ms => AllAnnounced (announced ++ announcedBy calls) ms
  | .tool callId _ :: ms => (callId = "" ∨ callId ∈ announced) ∧ AllAnnounced announced ms

/-- What stands for a message after more passes: a result without an id gets a parent from
each. -/
def withParents (passes : Nat) : Message → List Message
  | .tool callId output =>
      if callId = "" then List.replicate passes (synthesizedParent "") ++ [.tool "" output]
      else [.tool callId output]
  | m => [m]

/-- A transcript after more passes. -/
def moreParents (passes : Nat) (msgs : List Message) : List Message :=
  msgs.flatMap (withParents passes)

theorem announcedBy_synthesized {callId : String} (h : callId ≠ "") :
    announcedBy [⟨callId, "_", "{}"⟩] = [callId] := by
  simp [announcedBy, h]

theorem announcedBy_unnamed : announcedBy [⟨"", "_", "{}"⟩] = [] := rfl

/-- **One pass announces every result that has an id.** -/
theorem allAnnounced_normalizeLoop (msgs : List Message) (announced : List String) :
    AllAnnounced announced (normalizeLoop announced msgs) := by
  induction msgs generalizing announced with
  | nil => trivial
  | cons m msgs ih =>
      cases m with
      | user text => exact ih announced
      | assistant text reasoning calls => exact ih _
      | tool callId output =>
          rw [normalizeLoop]
          by_cases hid : callId = ""
          · subst hid
            rw [if_pos (Or.inl rfl), if_pos rfl]
            -- the parent announces nothing, and nothing is asked for
            simpa [AllAnnounced, synthesizedParent, announcedBy_unnamed] using ih announced
          by_cases hann : callId ∈ announced
          · rw [if_neg (by simp [hid, hann])]
            exact ⟨Or.inr hann, ih announced⟩
          · rw [if_pos (Or.inr hann), if_neg hid]
            simpa [AllAnnounced, synthesizedParent, announcedBy_synthesized hid] using ih _

/-- **A further pass** adds nothing but the parents of results without an id. -/
theorem normalizeLoop_of_allAnnounced {msgs : List Message} {announced : List String}
    (h : AllAnnounced announced msgs) : normalizeLoop announced msgs = moreParents 1 msgs := by
  induction msgs generalizing announced with
  | nil => rfl
  | cons m msgs ih =>
      rw [moreParents, List.flatMap_cons]
      cases m with
      | user text => exact congrArg (_ :: ·) (ih h)
      | assistant text reasoning calls => exact congrArg (_ :: ·) (ih h)
      | tool callId output =>
          obtain ⟨hid, hrest⟩ := h
          rw [normalizeLoop, withParents]
          by_cases hempty : callId = ""
          · subst hempty
            rw [if_pos (Or.inl rfl), if_pos rfl, if_pos rfl, ih hrest]
            rfl
          · have hann : callId ∈ announced := hid.resolve_left hempty
            rw [if_neg (by simp [hempty, hann]), if_neg hempty, ih hrest]
            rfl

/-- Parents of results without an id announce nothing. -/
theorem allAnnounced_replicate (passes : Nat) (announced : List String) (msgs : List Message) :
    AllAnnounced announced (List.replicate passes (synthesizedParent "") ++ msgs) ↔
      AllAnnounced announced msgs := by
  induction passes with
  | zero => exact Iff.rfl
  | succ passes ih =>
      rw [List.replicate_succ, List.cons_append, ← ih]
      simp [AllAnnounced, synthesizedParent, announcedBy_unnamed]

theorem AllAnnounced.moreParents {msgs : List Message} {announced : List String}
    (h : AllAnnounced announced msgs) (passes : Nat) :
    AllAnnounced announced (moreParents passes msgs) := by
  induction msgs generalizing announced with
  | nil => trivial
  | cons m msgs ih =>
      rw [Chat.moreParents, List.flatMap_cons]
      cases m with
      | user text => exact ih h
      | assistant text reasoning calls => exact ih h
      | tool callId output =>
          obtain ⟨hid, hrest⟩ := h
          rw [withParents]
          split
          · rw [List.append_assoc, allAnnounced_replicate]
            exact ⟨Or.inl rfl, ih hrest⟩
          · exact ⟨hid, ih hrest⟩

theorem flatMap_withParents (passes : Nat) (m : Message) :
    (withParents passes m).flatMap (withParents 1) = withParents (passes + 1) m := by
  cases m with
  | user text => rfl
  | assistant text reasoning calls => rfl
  | tool callId output =>
      rw [withParents, withParents]
      split
      · rw [List.flatMap_append, List.flatMap_replicate, List.replicate_succ']
        simp [withParents, synthesizedParent]
      · simp [withParents, *]

theorem moreParents_moreParents (passes : Nat) (msgs : List Message) :
    moreParents 1 (moreParents passes msgs) = moreParents (passes + 1) msgs := by
  rw [moreParents, moreParents, moreParents, List.flatMap_assoc]
  exact congrArg msgs.flatMap (funext (flatMap_withParents passes))

/-- **A pass over what passes have left.** -/
theorem normalizeToolParents_moreParents (passes : Nat) (msgs : List Message) :
    normalizeToolParents (moreParents passes (normalizeToolParents msgs)) =
      moreParents (passes + 1) (normalizeToolParents msgs) := by
  rw [normalizeToolParents_eq, normalizeToolParents_eq,
    normalizeLoop_of_allAnnounced ((allAnnounced_normalizeLoop msgs []).moreParents passes),
    moreParents_moreParents]

theorem withParents_zero (m : Message) : withParents 0 m = [m] := by
  cases m with
  | user text => rfl
  | assistant text reasoning calls => rfl
  | tool callId output =>
      rw [withParents]
      split
      · rename_i h
        rw [h]
        rfl
      · rfl

theorem moreParents_zero (msgs : List Message) : moreParents 0 msgs = msgs := by
  rw [moreParents, funext withParents_zero]
  exact List.flatMap_singleton' msgs

/-- Reading a body back does not change who announces what. -/
theorem normalizeLoop_readBack (msgs : List Message) (announced : List String) :
    normalizeLoop announced (msgs.map readBack) = (normalizeLoop announced msgs).map readBack := by
  induction msgs generalizing announced with
  | nil => rfl
  | cons m msgs ih =>
      rw [List.map_cons]
      cases m with
      | user text => exact congrArg (_ :: ·) (ih announced)
      | assistant text reasoning calls => exact congrArg (_ :: ·) (ih _)
      | tool callId output =>
          change normalizeLoop announced (.tool callId output :: msgs.map readBack) = _
          rw [normalizeLoop, normalizeLoop, ih, ih]
          split <;> rfl

theorem normalizeToolParents_readBack (msgs : List Message) :
    normalizeToolParents (msgs.map readBack) = (normalizeToolParents msgs).map readBack := by
  rw [normalizeToolParents_eq, normalizeToolParents_eq, normalizeLoop_readBack]

theorem readBack_readBack (m : Message) : readBack (readBack m) = readBack m := by
  cases m with
  | user text => rfl
  | tool callId output => rfl
  | assistant text reasoning calls =>
      rw [readBack, readBack, Option.filter_filter]
      simp

/-- A schema that has been repaired stays as it is. -/
theorem sanitizedTool_sanitizedTool (t : ToolDef) :
    sanitizedTool (sanitizedTool t) = sanitizedTool t := by
  obtain ⟨m, type, hobject, htype, -⟩ := sanitizeParameters_typed t.parameters
  have hfree := nullTypeFree_sanitizeParameters t.parameters
  have hfixed : sanitizeParameters (sanitizeParameters t.parameters) =
      sanitizeParameters t.parameters := by
    rw [hobject] at hfree ⊢
    exact sanitizeParameters_eq_self htype hfree
  rw [sanitizedTool, sanitizedTool, hfixed]

/-! ## The body of another field for the cap -/

/-- The members that the parser reads besides the cap. -/
def readMembers : List String :=
  ["model", "messages", "tools", "tool_choice", "temperature", "parallel_tool_calls", "stream"]

/-- The cap the parser reads: the one that is where it looks for it. -/
def capRead (provider : Provider) (cap : Option Nat) : Option Nat :=
  if provider.maxTokensField = "max_tokens" then cap else none

section Members

variable (req : CanonicalRequest) (upstreamModel : String) {provider : Provider}
  (hfield : provider.maxTokensField ∉ readMembers)

include hfield

/-- **The members that the parser reads**, wherever the provider has its cap. -/
theorem get_read_buildRequest :
    (buildRequest req upstreamModel provider).get "model" = some (.string upstreamModel) ∧
    (buildRequest req upstreamModel provider).get "messages" = some (.array (messagesJson req)) ∧
    (buildRequest req upstreamModel provider).get "tools" =
      (if req.tools = [] then none else some (.array (req.tools.map toolJson))) ∧
    (buildRequest req upstreamModel provider).get "tool_choice" =
      (if req.tools = [] then none else some (toolChoiceJson req.toolChoice)) ∧
    (buildRequest req upstreamModel provider).get "temperature" = req.temperature.map floatJson ∧
    (buildRequest req upstreamModel provider).get "max_tokens" =
      (capRead provider req.maxOutputTokens).map Value.ofNat ∧
    (buildRequest req upstreamModel provider).get "parallel_tool_calls" =
      req.parallelToolCalls.map Value.bool ∧
    (buildRequest req upstreamModel provider).get "stream" =
      (if req.stream then some (.bool true) else none) := by
  have hne : ∀ key ∈ readMembers, key ≠ provider.maxTokensField := by
    rintro key hkey rfl
    exact hfield hkey
  simp only [readMembers, List.forall_mem_cons] at hne
  obtain ⟨hmodel, hmessages, htools, hchoice, htemperature, hparallel, hstream, -⟩ := hne
  rcases eq_or_ne provider.maxTokensField "max_tokens" with hcap | hcap
  · by_cases ht : req.tools = [] <;> by_cases hs : req.stream = true <;>
      simp [buildRequest, lookup_insertSome, capRead, hcap, ht, hs]
  · by_cases ht : req.tools = [] <;> by_cases hs : req.stream = true <;>
      simp [buildRequest, lookup_insertSome, capRead, hmodel, hmessages, htools, hchoice,
        htemperature, hparallel, hstream, hcap, hcap.symm, ht, hs]

end Members

/-! ## One bridge -/

/-- The numbers of a request are ones a parser makes: a finite temperature is an `f32`, and the
cap is a `u32`. -/
structure Narrowed (req : CanonicalRequest) : Prop where
  temperature : ∀ q, req.temperature = some (.finite q) → FloatValue.toBinary32 q = .finite q
  cap : ∀ n, req.maxOutputTokens = some n → n < 2 ^ 32

/-- A temperature as it comes through a body: only a finite one is a number in JSON. -/
def finiteOnly (temperature : Option FloatValue) : Option FloatValue :=
  temperature.filter FloatValue.isFinite

/-- What the next bridge reads of the body for a provider. -/
def passedOn (model : String) (provider : Provider) (req : CanonicalRequest) : CanonicalRequest :=
  { req with
    model
    messages := (normalizeToolParents req.messages).map readBack
    tools := req.tools.map sanitizedTool
    toolChoice := if req.tools = [] then .auto else req.toolChoice
    temperature := finiteOnly req.temperature
    topP := none
    maxOutputTokens := capRead provider req.maxOutputTokens
    reasoningEffort := none }

theorem bind_asF32_floatJson {req : CanonicalRequest} (hreq : Narrowed req) :
    (req.temperature.map floatJson).bind asF32 = finiteOnly req.temperature := by
  rw [finiteOnly]
  cases h : req.temperature with
  | none => rfl
  | some v =>
      cases v with
      | finite q => exact asF32_floatJson ⟨q, rfl, hreq.temperature q h⟩
      | infinite negative => rfl
      | nan => rfl

/-- **What the next bridge reads.** -/
theorem parseRequest_passedOn {req : CanonicalRequest} (hreq : Narrowed req) (model : String)
    {provider : Provider} (hfield : provider.maxTokensField ∉ readMembers) :
    parseRequest (buildRequest req model provider) = .ok (passedOn model provider req) := by
  obtain ⟨hmodel, hmessages, htools, hchoice, htemperature, hmax, hparallel, hstream⟩ :=
    get_read_buildRequest req model hfield
  obtain ⟨obj, hobj⟩ : ∃ obj, buildRequest req model provider = .object obj := ⟨_, rfl⟩
  rw [hobj] at hmodel htools hchoice htemperature hmax hparallel hstream hmessages ⊢
  rw [Value.get_object] at hmodel htools hchoice htemperature hmax hparallel hstream hmessages
  have hmax' : ((obj.lookup "max_tokens").bind Value.asU64).map asU32 =
      capRead provider req.maxOutputTokens := by
    rw [hmax, capRead]
    split
    · cases h : req.maxOutputTokens with
      | none => rfl
      | some n => exact congrArg some (asU32_of_lt (hreq.cap n h))
    · rfl
  have htools' : parseChatTools (obj.lookup "tools") = req.tools.map sanitizedTool := by
    rw [htools]
    split
    · rename_i hnil
      rw [hnil]
      rfl
    · exact parseChatTools_map req.tools
  have hchoice' : parseChatToolChoice (obj.lookup "tool_choice") =
      if req.tools = [] then .auto else req.toolChoice := by
    rw [hchoice]
    split
    · rfl
    · exact parseChatToolChoice_json req.toolChoice
  have hparallel' : (obj.lookup "parallel_tool_calls").bind Value.asBool =
      req.parallelToolCalls := by
    rw [hparallel]
    cases req.parallelToolCalls <;> rfl
  have hstream' : ((obj.lookup "stream").bind Value.asBool).getD false = req.stream := by
    rw [hstream]
    cases req.stream <;> rfl
  have hparse : parseModel (.object obj) = .ok (obj, model) := by
    simp [parseModel, hmodel]
  have htemperature' : (obj.lookup "temperature").bind asF32 = finiteOnly req.temperature := by
    rw [htemperature, bind_asF32_floatJson hreq]
  rw [parseRequest, hparse]
  simp only [bind, Except.bind, pure, Except.pure, hmessages, Option.bind_some,
    Value.asArray_array, Option.getD_some, foldl_messagesJson, htools', hchoice', htemperature',
    hmax', hparallel', hstream']
  rfl

theorem Narrowed.passedOn {req : CanonicalRequest} (h : Narrowed req) (model : String)
    (provider : Provider) : Narrowed (passedOn model provider req) where
  temperature := by
    intro q hq
    exact h.temperature q (Option.filter_eq_some_iff.1 hq).1
  cap := by
    intro n hn
    change capRead provider req.maxOutputTokens = some n at hn
    rw [capRead] at hn
    split at hn
    · exact h.cap n hn
    · cases hn

end Chat

/-- **The numbers of a parsed request** are narrow, in every dialect. -/
theorem RequestDialect.narrowed {d : RequestDialect} {toString : Value → String} {body : Value}
    {req : CanonicalRequest} (h : d.parseRequest toString body = .ok req) : Narrowed req := by
  have hcap := (parseRequest_cap h).1
  have htemperature : ∃ v : Option Value, req.temperature = v.bind asF32 := by
    cases d with
    | responses =>
        rw [parseRequest, Responses.parseRequest] at h
        obtain ⟨⟨obj, model⟩, -, hrest⟩ := exists_of_bind_ok h
        obtain ⟨st, -, htools⟩ := exists_of_bind_ok hrest
        obtain ⟨tools, -, hreq⟩ := exists_of_bind_ok htools
        cases hreq
        exact ⟨_, rfl⟩
    | anthropic =>
        rw [parseRequest, Anthropic.parseRequest] at h
        obtain ⟨⟨obj, model⟩, -, hrest⟩ := exists_of_bind_ok h
        cases hrest
        exact ⟨_, rfl⟩
    | chat =>
        rw [parseRequest, Chat.parseRequest] at h
        obtain ⟨⟨obj, model⟩, -, hrest⟩ := exists_of_bind_ok h
        cases hrest
        exact ⟨_, rfl⟩
  constructor
  · intro q hq
    obtain ⟨v, hv⟩ := htemperature
    rw [hv, Option.bind_eq_some_iff] at hq
    obtain ⟨w, -, hw⟩ := hq
    obtain ⟨r, -, hr⟩ := Option.map_eq_some_iff.1 hw
    exact FloatValue.toBinary32_of_narrow hr
  · intro n hn
    rw [hcap, Option.map_eq_some_iff] at hn
    obtain ⟨m, -, rfl⟩ := hn
    exact Nat.mod_lt _ (by decide)

/-! ## A row of bridges -/

/-- What a bridge resolves a model to. -/
structure Hop where
  model : String
  provider : Provider

/-- The chat endpoint of a bridge: the body it gets, and the one it sends. -/
def relay (hop : Hop) (body : Value) : Except BridgeError Value := do
  let req ← Chat.parseRequest body
  return buildRequest req hop.model hop.provider

/-- A row of bridges. -/
def relayAll (hops : List Hop) (body : Value) : Except BridgeError Value :=
  hops.foldlM (fun body hop => relay hop body) body

/-- The body each bridge of a row sends the next. -/
def passedAll (hops : List Hop) (req : CanonicalRequest) : CanonicalRequest :=
  hops.foldl (fun req hop => passedOn hop.model hop.provider req) req

/-- What is left of a request behind a bridge and a number of further ones. -/
def settled (further : Nat) (cap : Option Nat) (req : CanonicalRequest) : CanonicalRequest :=
  { req with
    messages := (moreParents further (normalizeToolParents req.messages)).map readBack
    tools := req.tools.map sanitizedTool
    toolChoice := if req.tools = [] then .auto else req.toolChoice
    temperature := finiteOnly req.temperature
    topP := none
    maxOutputTokens := cap
    reasoningEffort := none }

/-- The cap behind a row of bridges: gone, if one of them has it where the next does not look
for it. -/
def capBehind (hops : List Hop) (cap : Option Nat) : Option Nat :=
  hops.foldl (fun cap hop => capRead hop.provider cap) cap

theorem map_readBack_readBack (msgs : List Message) :
    (msgs.map readBack).map readBack = msgs.map readBack := by
  rw [List.map_map]
  exact List.map_congr_left fun m _ => readBack_readBack m

/-- **A further bridge.** -/
theorem passedOn_settled (model : String) (provider : Provider) (further : Nat)
    (cap : Option Nat) (req : CanonicalRequest) :
    passedOn model provider (settled further cap req) =
      { settled (further + 1) (capRead provider cap) req with model } := by
  have hmessages : (normalizeToolParents (settled further cap req).messages).map readBack =
      (settled (further + 1) (capRead provider cap) req).messages := by
    rw [settled, settled, normalizeToolParents_readBack, normalizeToolParents_moreParents,
      map_readBack_readBack]
  have htools : (settled further cap req).tools.map sanitizedTool =
      req.tools.map sanitizedTool := by
    rw [settled, List.map_map]
    exact List.map_congr_left fun t _ => sanitizedTool_sanitizedTool t
  have hchoice : (if (settled further cap req).tools = [] then .auto
      else (settled further cap req).toolChoice) =
        if req.tools = [] then ToolChoice.auto else req.toolChoice := by
    simp only [settled, List.map_eq_nil_iff]
    split <;> rfl
  have htemperature : finiteOnly (settled further cap req).temperature =
      finiteOnly req.temperature := by
    rw [settled, finiteOnly, finiteOnly, Option.filter_filter]
    simp
  rw [passedOn, hmessages, htools, hchoice, htemperature]
  rfl

theorem passedOn_eq_settled (model : String) (provider : Provider) (req : CanonicalRequest) :
    passedOn model provider req =
      { settled 0 (capRead provider req.maxOutputTokens) req with model } := by
  rw [settled, moreParents_zero]
  rfl

/-- The model of a request has no part in what is sent. -/
theorem buildRequest_model (req : CanonicalRequest) (name upstreamModel : String)
    (provider : Provider) :
    buildRequest { req with model := name } upstreamModel provider =
      buildRequest req upstreamModel provider := rfl

theorem passedOn_model (req : CanonicalRequest) (name model : String) (provider : Provider) :
    passedOn model provider { req with model := name } = passedOn model provider req := rfl

/-- **All that a row of bridges passes on.** -/
theorem passedAll_settled (hops : List Hop) (further : Nat) (cap : Option Nat) (model : String)
    (req : CanonicalRequest) :
    ∃ name, passedAll hops { settled further cap req with model } =
      { settled (further + hops.length) (capBehind hops cap) req with model := name } := by
  induction hops generalizing further cap model with
  | nil => exact ⟨model, rfl⟩
  | cons hop hops ih =>
      obtain ⟨name, hrest⟩ := ih (further + 1) (capRead hop.provider cap) hop.model
      refine ⟨name, ?_⟩
      change passedAll hops (passedOn hop.model hop.provider { settled further cap req with model })
        = _
      rw [passedOn_model, passedOn_settled, hrest, List.length_cons, Nat.add_right_comm,
        Nat.add_assoc]
      rfl

/-- The bridges of a row read, one after the other, what the ones before pass on. -/
theorem relayAll_passedAll {req : CanonicalRequest} (hreq : Narrowed req) (first last : Hop)
    (hops : List Hop)
    (hfields : ∀ hop ∈ first :: hops, hop.provider.maxTokensField ∉ readMembers) :
    relayAll (hops ++ [last]) (buildRequest req first.model first.provider) =
      .ok (buildRequest (passedAll (first :: hops) req) last.model last.provider) := by
  have hparse := parseRequest_passedOn hreq first.model (hfields first List.mem_cons_self)
  induction hops generalizing first req with
  | nil =>
      rw [relayAll, List.nil_append, List.foldlM_cons, relay, hparse]
      rfl
  | cons hop hops ih =>
      have hstep : relay hop (buildRequest req first.model first.provider) =
          .ok (buildRequest (passedOn first.model first.provider req) hop.model hop.provider) := by
        rw [relay, hparse]
        rfl
      have hnext := ih (hreq.passedOn first.model first.provider) hop
        (fun h hh => hfields h (List.mem_cons_of_mem _ hh))
        (parseRequest_passedOn (hreq.passedOn first.model first.provider) hop.model
          (hfields hop (List.mem_cons_of_mem _ List.mem_cons_self)))
      rw [relayAll, List.cons_append, List.foldlM_cons, hstep]
      exact hnext

/-- Every tool result has an id. -/
def Identified (msgs : List Message) : Prop :=
  ∀ callId output, .tool callId output ∈ msgs → callId ≠ ""

/-- A pass inserts no results. -/
theorem mem_of_mem_normalizeLoop {msgs : List Message} {announced : List String}
    {callId output : String} (h : .tool callId output ∈ normalizeLoop announced msgs) :
    .tool callId output ∈ msgs := by
  induction msgs generalizing announced with
  | nil => exact h
  | cons m msgs ih =>
      have hskip : ∀ {announced}, .tool callId output ∈ normalizeLoop announced msgs →
          .tool callId output ∈ m :: msgs := fun hmem => List.mem_cons_of_mem m (ih hmem)
      cases m with
      | user text => exact hskip ((List.mem_cons.1 h).resolve_left (by simp))
      | assistant text reasoning calls => exact hskip ((List.mem_cons.1 h).resolve_left (by simp))
      | tool id out =>
          rw [normalizeLoop] at h
          split at h
          · rcases List.mem_cons.1 ((List.mem_cons.1 h).resolve_left (by simp [synthesizedParent]))
              with heq | hrest
            · rw [heq]
              exact List.mem_cons_self
            · exact hskip hrest
          · rcases List.mem_cons.1 h with heq | hrest
            · rw [heq]
              exact List.mem_cons_self
            · exact hskip hrest

theorem moreParents_of_identified {msgs : List Message} (h : Identified msgs) (passes : Nat) :
    moreParents passes msgs = msgs := by
  induction msgs with
  | nil => rfl
  | cons m msgs ih =>
      have hrest := ih fun callId output hmem => h callId output (List.mem_cons_of_mem m hmem)
      rw [moreParents, List.flatMap_cons]
      have hm : withParents passes m = [m] := by
        cases m with
        | user text => rfl
        | assistant text reasoning calls => rfl
        | tool callId output => exact if_neg (h callId output List.mem_cons_self)
      rw [hm]
      exact congrArg (m :: ·) hrest

/-- **A row of bridges is one bridge.** Whatever request a client has sent a first bridge, behind
any number of further ones the last sends what is left of it behind the first: the transcript
with every result paired, the tools with their schemas repaired, a finite temperature, the cap
if all have it where it is looked for, and neither `top_p` nor an effort. The length of the row
shows in the parents of results without an id alone, one for each bridge. -/
theorem relayAll_buildRequest {d : RequestDialect} {toString : Value → String} {body : Value}
    {req : CanonicalRequest} (h : d.parseRequest toString body = .ok req) (first last : Hop)
    (hops : List Hop)
    (hfields : ∀ hop ∈ first :: hops, hop.provider.maxTokensField ∉ readMembers) :
    relayAll (hops ++ [last]) (buildRequest req first.model first.provider) =
        .ok (buildRequest (settled hops.length (capBehind (first :: hops) req.maxOutputTokens) req)
          last.model last.provider) ∧
      messagesJson (settled hops.length (capBehind (first :: hops) req.maxOutputTokens) req) =
        systemJson req.system ++ ((moreParents (hops.length + 1)
          (normalizeToolParents req.messages)).map readBack).map messageJson ∧
      (Identified req.messages → ∀ passes,
        moreParents passes (normalizeToolParents req.messages) =
          normalizeToolParents req.messages) := by
  refine ⟨?_, ?_, ?_⟩
  · obtain ⟨name, hpassed⟩ := passedAll_settled hops 0
      (capRead first.provider req.maxOutputTokens) first.model req
    rw [relayAll_passedAll (RequestDialect.narrowed h) first last hops hfields]
    change Except.ok (buildRequest (passedAll hops (passedOn first.model first.provider req))
      last.model last.provider) = _
    rw [passedOn_eq_settled, hpassed, buildRequest_model, Nat.zero_add]
    rfl
  · rw [messagesJson]
    change systemJson req.system ++ (normalizeToolParents ((moreParents hops.length
      (normalizeToolParents req.messages)).map readBack)).map messageJson = _
    rw [normalizeToolParents_readBack, normalizeToolParents_moreParents]
  · intro hids passes
    apply moreParents_of_identified
    intro callId output hmem
    rw [normalizeToolParents_eq] at hmem
    exact hids callId output (mem_of_mem_normalizeLoop hmem)

/-- A result without an id behind three bridges. -/
theorem relayAll_buildRequest_unnamed :
    let hop : Hop := ⟨"m", plainProvider⟩
    let sent := relayAll [hop, hop]
      (buildRequest (Chat.plainRequest [.tool "" "42"]) "m" plainProvider)
    (sent.toOption.bind fun body => body.get "messages") =
      some (.array ((List.replicate 3 (synthesizedParent "") ++
        [Message.tool "" "42"]).map messageJson)) := by
  intro hop sent
  have hparse : RequestDialect.chat.parseRequest (fun _ => "") (.object [("model", .string "m"),
      ("messages", .array [.object [("role", .string "tool"), ("content", .string "42")]])]) =
        .ok (Chat.plainRequest [.tool "" "42"]) := rfl
  have hfields : ∀ h ∈ [hop, hop], h.provider.maxTokensField ∉ readMembers := by decide
  have hsent : sent = _ := (relayAll_buildRequest hparse hop hop [hop] hfields).1
  rw [hsent]
  rfl

end AiApiBridge
