import AiApiBridge.ReasoningOwners

/-!
# Calls without reasoning

An assistant message takes the reasoning in front of it, so a second one behind the same
reasoning gets none, and a call that is merged into the second one has no reasoning
although its turn has some. Cut a turn at its assistant messages: whether a call is
answered for (`Fed`) shows in the stretches (`callsReasoned_iff_fed`).
-/

set_option autoImplicit false

namespace AiApiBridge.Responses

/-! ## Stretches of a turn -/

/-- What an item is, whatever its reasoning says. -/
abbrev Kind : Type := Cue Unit

def InputItem.kind (x : InputItem) : Kind := x.cue.map fun _ => ()

/-- A turn as far as it has come: what lies behind its last assistant message, and the
stretches before it, the nearest first. -/
structure TurnView where
  current : List Kind
  earlier : List (List Kind)
  deriving DecidableEq

def TurnView.add (v : TurnView) : Kind → TurnView
  | .prompt => ⟨[], []⟩
  | .assistant => ⟨[], v.current :: v.earlier⟩
  | c => ⟨v.current ++ [c], v.earlier⟩

def viewOf (kinds : List Kind) : TurnView := kinds.foldl TurnView.add ⟨[], []⟩

/-- Behind these stretches nothing is left for an assistant message: going back over
those whose reasoning a call of their own follows, with none behind it, one comes to a
stretch without reasoning or to the start of the turn. -/
def Starved : List (List Kind) → Prop
  | [] => True
  | s :: earlier => .reasoning () ∉ s ∨
      [.reasoning (), .call].Sublist s ∧ ¬ [.reasoning (), .call, .reasoning ()].Sublist s ∧
        Starved earlier

/-- What follows in the same stretch. -/
def restOfStretch (kinds : List Kind) : List Kind :=
  kinds.takeWhile fun c => c ≠ .prompt ∧ c ≠ .assistant

/-- A call between these items gets reasoning: from its own stretch before it, from its own
stretch at a later call, or through the assistant message in front. -/
def Fed (before behind : List Kind) : Prop :=
  .reasoning () ∈ (viewOf before).current ∨
    [.reasoning (), .call].Sublist (restOfStretch behind) ∨ ¬ Starved (viewOf before).earlier

instance decidableStarved : (stretches : List (List Kind)) → Decidable (Starved stretches)
  | [] => .isTrue trivial
  | s :: earlier =>
      have := decidableStarved earlier
      inferInstanceAs (Decidable (.reasoning () ∉ s ∨
        [.reasoning (), .call].Sublist s ∧ ¬ [.reasoning (), .call, .reasoning ()].Sublist s ∧
          Starved earlier))

instance (before behind : List Kind) : Decidable (Fed before behind) :=
  inferInstanceAs (Decidable (_ ∨ _ ∨ _))

/-! ## Sublists -/

theorem concat_sublist_concat {α : Type} {pre l : List α} {a x : α} :
    (pre ++ [a]).Sublist (l ++ [x]) ↔ (pre ++ [a]).Sublist l ∨ a = x ∧ pre.Sublist l := by
  rw [← @List.reverse_sublist _ (pre ++ [a]) (l ++ [x]), ← @List.reverse_sublist _ (pre ++ [a]) l,
    List.reverse_append, List.reverse_append, ← @List.reverse_sublist _ pre l]
  exact List.cons_sublist_cons'

/-- A call follows reasoning. -/
theorem answered_concat {s : List Kind} {c : Kind} :
    [.reasoning (), .call].Sublist (s ++ [c]) ↔
      [.reasoning (), .call].Sublist s ∨ .call = c ∧ .reasoning () ∈ s := by
  rw [← List.singleton_sublist]
  exact @concat_sublist_concat Kind [.reasoning ()] s .call c

/-- Reasoning follows such a call. -/
theorem renewed_concat {s : List Kind} {c : Kind} :
    [.reasoning (), .call, .reasoning ()].Sublist (s ++ [c]) ↔
      [.reasoning (), .call, .reasoning ()].Sublist s ∨
        .reasoning () = c ∧ [.reasoning (), .call].Sublist s :=
  @concat_sublist_concat Kind [.reasoning (), .call] s (.reasoning ()) c

theorem answered_cons_reasoning {s : List Kind} :
    [.reasoning (), .call].Sublist (.reasoning () :: s) ↔ .call ∈ s := by
  rw [List.cons_sublist_cons, List.singleton_sublist]

theorem answered_cons_of_ne {s : List Kind} {c : Kind} (hc : c ≠ .reasoning ()) :
    [.reasoning (), .call].Sublist (c :: s) ↔ [.reasoning (), .call].Sublist s := by
  rw [List.cons_sublist_cons']
  constructor
  · rintro (h | ⟨heq, -⟩)
    · exact h
    · exact absurd heq.symm hc
  · exact .inl

theorem mem_of_answered {s : List Kind} (h : [.reasoning (), .call].Sublist s) :
    .reasoning () ∈ s ∧ .call ∈ s :=
  ⟨h.subset (by simp), h.subset (by simp)⟩

theorem answered_of_renewed {s : List Kind}
    (h : [.reasoning (), .call, .reasoning ()].Sublist s) : [.reasoning (), .call].Sublist s := by
  have hfront : [.reasoning (), .call].Sublist ([.reasoning (), .call] ++ [Cue.reasoning ()]) :=
    List.sublist_append_left _ _
  exact hfront.trans h

/-! ## The desk by the stretches -/

/-- What the stretches say of the desk. -/
structure Shows (v : TurnView) (d : Desk Unit) : Prop where
  pending : d.pending.isSome ↔ .reasoning () ∈ v.current ∧ (¬ Starved v.earlier ∨
    ¬ [.reasoning (), .call].Sublist v.current ∨
      [.reasoning (), .call, .reasoning ()].Sublist v.current)
  opened : ∀ r, d.slots.getLast? = some (.assistant r) →
    (r.isSome ↔ ¬ Starved v.earlier ∨ [.reasoning (), .call].Sublist v.current)
  unopened : (∀ r, d.slots.getLast? ≠ some (.assistant r)) → v.earlier = [] ∧ .call ∉ v.current

theorem shows_empty : Shows ⟨[], []⟩ Desk.empty where
  pending := by simp [Desk.empty]
  opened r h := by simp [Desk.empty] at h
  unopened _ := by simp

/-- An assistant message starts a stretch. -/
theorem Shows.assistant {v : TurnView} {d : Desk Unit} (h : Shows v d) :
    Shows (v.add .assistant) d.openAssistant where
  pending := by simp [TurnView.add, Desk.openAssistant]
  opened r hlast := by
    have hr : d.pending = r := by simpa [Desk.openAssistant] using hlast
    rw [← hr, h.pending]
    simp only [TurnView.add, Starved, List.sublist_nil, reduceCtorEq, or_false]
    tauto
  unopened hnone := absurd (by simp [Desk.openAssistant]) (hnone d.pending)

theorem Shows.reasoning {v : TurnView} {d : Desk Unit} (h : Shows v d) :
    Shows (v.add (.reasoning ())) { d with pending := some () } where
  pending := by
    simp only [TurnView.add, List.mem_append, List.mem_singleton, answered_concat, renewed_concat,
      Option.isSome_some]
    simp
    tauto
  opened r hlast := by
    rw [h.opened r hlast]
    simp [TurnView.add, answered_concat]
  unopened hnone := by simpa [TurnView.add] using h.unopened hnone

theorem Shows.skip {v : TurnView} {d : Desk Unit} (h : Shows v d) : Shows (v.add .skip) d where
  pending := by simpa [TurnView.add, answered_concat, renewed_concat] using h.pending
  opened r hlast := by simpa [TurnView.add, answered_concat] using h.opened r hlast
  unopened hnone := by simpa [TurnView.add] using h.unopened hnone

/-- The stretch behind a call. -/
theorem shows_call {v : TurnView} {d : Desk Unit}
    (hpending : d.pending.isSome ↔ .reasoning () ∈ v.current ∧ (¬ Starved v.earlier ∨
      ¬ ([.reasoning (), .call].Sublist v.current ∨ .reasoning () ∈ v.current) ∨
        [.reasoning (), .call, .reasoning ()].Sublist v.current))
    {r : Option Unit} (hlast : d.slots.getLast? = some (.assistant r))
    (hr : r.isSome ↔ ¬ Starved v.earlier ∨ [.reasoning (), .call].Sublist v.current ∨
      .reasoning () ∈ v.current) : Shows (v.add .call) d where
  pending := by simpa [TurnView.add, answered_concat, renewed_concat] using hpending
  opened r' hlast' := by
    obtain rfl : r = r' := by simpa [hlast] using hlast'
    simpa [TurnView.add, answered_concat] using hr
  unopened hnone := absurd hlast (hnone r)

/-- A message takes what is pending at a call, when none that came before has reasoning to
show for its stretch. -/
theorem Shows.takes {v : TurnView} {d : Desk Unit} (h : Shows v d)
    (hnone : ¬ (¬ Starved v.earlier ∨ [.reasoning (), .call].Sublist v.current))
    (front : List (Slot Unit)) : Shows (v.add .call) (Desk.openAssistant ⟨front, d.pending⟩) := by
  refine shows_call (iff_of_false (by simp [Desk.openAssistant]) ?_) List.getLast?_concat ?_
  · -- nothing is left behind the call
    rintro ⟨hmem, hfed | hcall | hrenewed⟩
    · exact hnone (.inl hfed)
    · exact hcall (.inr hmem)
    · exact hnone (.inr (answered_of_renewed hrenewed))
  · rw [h.pending]
    constructor
    · rintro ⟨hmem, -⟩
      exact .inr (.inr hmem)
    · rintro (hfed | hcall | hmem)
      · exact absurd (.inl hfed) hnone
      · exact absurd (.inr hcall) hnone
      · exact ⟨hmem, .inr (.inl fun hcall => hnone (.inr hcall))⟩

/-- **A call** keeps to the message that is open, or opens one. -/
theorem Shows.call {v : TurnView} {d : Desk Unit} (h : Shows v d) :
    Shows (v.add .call) (d.step .call) := by
  rcases d.step_call with ⟨front, r, hslots, hstep⟩ | ⟨front, hslots, hstep⟩ | ⟨hnone, hstep⟩ <;>
    rw [hstep]
  · have hlast : d.slots.getLast? = some (.assistant (some r)) := by
      rw [hslots]
      exact List.getLast?_concat
    have hfed := (h.opened (some r) hlast).1 rfl
    refine shows_call ?_ hlast (iff_of_true rfl (hfed.imp_right .inl))
    rw [h.pending]
    apply and_congr_right
    intro hmem
    constructor
    · rintro (hfront | hcall | hrenewed)
      · exact .inl hfront
      · exact .inl (hfed.resolve_right hcall)
      · exact .inr (.inr hrenewed)
    · rintro (hfront | hcall | hrenewed)
      · exact .inl hfront
      · exact absurd (.inr hmem) hcall
      · exact .inr (.inr hrenewed)
  · -- the open message has none, and adopts what is pending
    apply h.takes
    rw [← h.opened none (by rw [hslots]; exact List.getLast?_concat)]
    simp
  · obtain ⟨hearlier, hcall⟩ := h.unopened hnone
    refine h.takes ?_ d.slots
    rintro (hfront | hanswered)
    · rw [hearlier] at hfront
      exact hfront trivial
    · exact hcall (mem_of_answered hanswered).2

/-- **Every item** keeps the stretches and the desk together. -/
theorem Shows.step {v : TurnView} {d : Desk Unit} (h : Shows v d) (c : Kind) :
    Shows (v.add c) (d.step c) := by
  cases c with
  | prompt =>
      refine ⟨by simp [TurnView.add, Desk.step], fun r hlast => ?_, fun _ => by simp [TurnView.add]⟩
      simp [Desk.step] at hlast
  | assistant => exact h.assistant
  | call => exact h.call
  | reasoning r => exact h.reasoning
  | skip => exact h.skip

theorem shows_run (kinds : List Kind) : Shows (viewOf kinds) (Desk.run kinds) := by
  induction kinds using List.reverseRecOn with
  | nil => exact shows_empty
  | append_singleton kinds c ih =>
      rw [Desk.run_concat, viewOf, List.foldl_append]
      exact ih.step c

/-! ## The slot of a call to the end -/

/-- A slot that is not the last one stays as it is. -/
theorem slots_step {d : Desk Unit} {j : Nat} (hj : j + 1 < d.slots.length) (c : Kind) :
    (d.step c).slots[j]? = d.slots[j]? ∧ d.slots.length ≤ (d.step c).slots.length := by
  have hconcat : ∀ s, (d.slots ++ [s])[j]? = d.slots[j]? ∧
      d.slots.length ≤ (d.slots ++ [s]).length := by
    intro s
    refine ⟨List.getElem?_append_left (by omega), ?_⟩
    rw [List.length_append]
    exact Nat.le_add_right _ _
  cases c with
  | prompt => exact hconcat _
  | assistant => exact hconcat _
  | call =>
      rcases d.step_call with ⟨-, -, -, hstep⟩ | ⟨front, hslots, hstep⟩ | ⟨-, hstep⟩ <;> rw [hstep]
      · exact ⟨rfl, le_rfl⟩
      · -- only the last slot is replaced
        rw [hslots, List.length_append, List.length_singleton] at hj
        have hfront : j < front.length := Nat.lt_of_succ_lt_succ hj
        simp [Desk.openAssistant, hslots, List.getElem?_append_left hfront]
      · exact hconcat _
  | reasoning r => exact ⟨rfl, le_rfl⟩
  | skip => exact ⟨rfl, le_rfl⟩

theorem slots_foldl {d : Desk Unit} {j : Nat} (hj : j + 1 < d.slots.length) (kinds : List Kind) :
    (kinds.foldl Desk.step d).slots[j]? = d.slots[j]? := by
  induction kinds generalizing d with
  | nil => rfl
  | cons c kinds ih =>
      obtain ⟨hslot, hlen⟩ := slots_step hj c
      rw [List.foldl_cons, ih (Nat.lt_of_lt_of_le hj hlen), hslot]

/-- A stretch goes on until the turn ends or an assistant message starts the next one. -/
theorem restOfStretch_cons {c : Kind} (hprompt : c ≠ .prompt) (hassistant : c ≠ .assistant)
    (kinds : List Kind) : restOfStretch (c :: kinds) = c :: restOfStretch kinds :=
  List.takeWhile_cons_of_pos (by simp [hprompt, hassistant])

/-- **What the last slot has in the end**: its own reasoning, or what a call of its stretch
adopts. -/
theorem last_slot_foldl {d : Desk Unit} {front : List (Slot Unit)} {r : Option Unit}
    (hslots : d.slots = front ++ [.assistant r]) (kinds : List Kind) :
    ∃ r', (kinds.foldl Desk.step d).slots[front.length]? = some (.assistant r') ∧
      (r'.isSome ↔ r.isSome ∨ d.pending.isSome ∧ .call ∈ restOfStretch kinds ∨
        [.reasoning (), .call].Sublist (restOfStretch kinds)) := by
  induction kinds generalizing d r with
  | nil =>
      refine ⟨r, ?_, by simp [restOfStretch]⟩
      rw [List.foldl_nil, hslots, List.getElem?_concat_length]
  | cons c kinds ih =>
      -- a new slot ends the stretch
      have hclosed : ∀ s p, d.step c = ⟨d.slots ++ [s], p⟩ →
          ((c :: kinds).foldl Desk.step d).slots[front.length]? = some (.assistant r) := by
        intro s p hstep
        rw [List.foldl_cons, hstep, slots_foldl (by simp [hslots]), hslots]
        simp
      rw [List.foldl_cons]
      cases c with
      | prompt => exact ⟨r, hclosed _ _ rfl, by simp [restOfStretch]⟩
      | assistant => exact ⟨r, hclosed _ _ rfl, by simp [restOfStretch]⟩
      | call =>
          rw [restOfStretch_cons (by simp) (by simp), answered_cons_of_ne (by simp)]
          cases r with
          | some u =>
              -- the open message keeps what it has
              have hstep : d.step .call = d := by simp [Desk.step, hslots]
              rw [hstep]
              obtain ⟨r', hslot, hr'⟩ := ih hslots
              exact ⟨r', hslot, by rw [hr']; simp⟩
          | none =>
              -- it takes what is pending, and may still take later reasoning if that is nothing
              have hstep : d.step .call = ⟨front ++ [.assistant d.pending], none⟩ := by
                simp [Desk.step, hslots, Desk.openAssistant]
              obtain ⟨r', hslot, hr'⟩ := @ih ⟨front ++ [.assistant d.pending], none⟩ d.pending rfl
              rw [hstep]
              exact ⟨r', hslot, by rw [hr']; simp⟩
      | reasoning u =>
          have hcall := fun h => (@mem_of_answered (restOfStretch kinds) h).2
          rw [restOfStretch_cons (by simp) (by simp), answered_cons_reasoning]
          obtain ⟨r', hslot, hr'⟩ := @ih { d with pending := some u } r hslots
          refine ⟨r', hslot, ?_⟩
          rw [hr']
          simp only [Option.isSome_some, List.mem_cons, reduceCtorEq, false_or, true_and]
          tauto
      | skip =>
          rw [restOfStretch_cons (by simp) (by simp), answered_cons_of_ne (by simp)]
          obtain ⟨r', hslot, hr'⟩ := ih hslots
          exact ⟨r', hslot, by rw [hr']; simp⟩

/-- **Whether the slot of a call has reasoning in the end** shows around the call. -/
theorem slot_of_call_iff (before behind : List Kind) :
    (Desk.run (before ++ .call :: behind)).slots[(Desk.run (before ++ [.call])).slots.length - 1]? =
      some (.assistant (some ())) ↔ Fed before behind := by
  have hshows := shows_run (before ++ [.call])
  have hview : viewOf (before ++ [.call]) = (viewOf before).add .call := List.foldl_append
  have hrun : Desk.run (before ++ .call :: behind) =
      behind.foldl Desk.step (Desk.run (before ++ [.call])) := by
    rw [← List.singleton_append, ← List.append_assoc]
    exact List.foldl_append
  rw [hview] at hshows
  rw [hrun]
  generalize Desk.run (before ++ [.call]) = d at hshows
  -- behind a call a message is open
  obtain ⟨r, hlast⟩ : ∃ r, d.slots.getLast? = some (.assistant r) := by
    by_contra hnone
    exact (hshows.unopened (not_exists.1 hnone)).2 (by simp [TurnView.add])
  obtain ⟨front, hslots⟩ := List.getLast?_eq_some_iff.1 hlast
  obtain ⟨r', hslot, hr'⟩ := last_slot_foldl hslots behind
  have hindex : d.slots.length - 1 = front.length := by simp [hslots]
  have hsome : some (Slot.assistant r') = some (.assistant (some ())) ↔ r'.isSome := by
    cases r' <;> simp
  -- what it has by then, by the stretches before the call
  have hopened : r.isSome ↔ ¬ Starved (viewOf before).earlier ∨
      [.reasoning (), .call].Sublist (viewOf before).current ∨
        .reasoning () ∈ (viewOf before).current := by
    rw [hshows.opened r hlast]
    simp [TurnView.add, answered_concat]
  have hpending : d.pending.isSome → .reasoning () ∈ (viewOf before).current := by
    intro h
    simpa [TurnView.add] using (hshows.pending.1 h).1
  rw [hindex, hslot, hsome, hr', hopened, Fed]
  constructor
  · rintro ((hfront | hanswered | hmem) | ⟨hp, -⟩ | hbehind)
    · exact .inr (.inr hfront)
    · exact .inl (mem_of_answered hanswered).1
    · exact .inl hmem
    · exact .inl (hpending hp)
    · exact .inr (.inl hbehind)
  · rintro (hmem | hbehind | hfront)
    · exact .inl (.inr (.inr hmem))
    · exact .inr (.inr hbehind)
    · exact .inl (.inl hfront)

/-! ## Calls of a request -/

/-- The message that a call goes to: the last one once the call has been read. -/
def carrier (system : Option String) (items : List InputItem) (i : Nat) : Nat :=
  (readItems system (items.take (i + 1))).messages.length - 1

/-- A call with reasoning in front of it in its turn. -/
def ReasonedCall (items : List InputItem) (i : Nat) : Prop :=
  (∃ call, items[i]? = some (.functionCall call)) ∧
    ∃ k s, k < i ∧ items[k]? = some (.reasoning s) ∧ s ≠ "" ∧ SameTurn items k i

theorem map_kind (items : List InputItem) :
    (items.map InputItem.cue).map (Cue.map fun _ => ()) = items.map InputItem.kind := by
  rw [List.map_map]
  rfl

theorem slot_of_hasReasoning_iff {system : Option String} {items : List InputItem} {j : Nat} :
    (∃ s, HasReasoning (readItems system items).messages j s) ↔
      (Desk.run (items.map InputItem.kind)).slots[j]? = some (.assistant (some ())) := by
  rw [← map_kind, ← Desk.map_run, ← deskOf_readItems system]
  simp only [Desk.map, deskOf, List.getElem?_map, Option.map_map, Option.map_eq_some_iff,
    Function.comp_apply]
  constructor
  · rintro ⟨s, text, calls, hmessage⟩
    exact ⟨_, hmessage, rfl⟩
  · rintro ⟨m, hmessage, hslot⟩
    cases m with
    | user text => cases hslot
    | tool callId output => cases hslot
    | assistant text reasoning calls =>
        cases reasoning with
        | none => cases hslot
        | some s => exact ⟨s, text, calls, hmessage⟩

/-- **A call has reasoning** exactly when it is fed. -/
theorem hasReasoning_carrier_iff (system : Option String) {items : List InputItem} {i : Nat}
    {call : ToolCall} (h : items[i]? = some (.functionCall call)) :
    (∃ s, HasReasoning (readItems system items).messages (carrier system items i) s) ↔
      Fed ((items.take i).map InputItem.kind) ((items.drop (i + 1)).map InputItem.kind) := by
  obtain ⟨hi, hget⟩ := List.getElem?_eq_some_iff.1 h
  have htake : (items.take (i + 1)).map InputItem.kind =
      (items.take i).map InputItem.kind ++ [.call] := by
    rw [List.take_succ_eq_append_getElem hi, hget, List.map_append]
    rfl
  have hsplit : items.map InputItem.kind = (items.take i).map InputItem.kind ++
      .call :: (items.drop (i + 1)).map InputItem.kind := by
    rw [← List.take_append_drop (i + 1) items, List.map_append, htake]
    simp
  have hcarrier : carrier system items i =
      (Desk.run ((items.take i).map InputItem.kind ++ [.call])).slots.length - 1 := by
    rw [carrier, length_messages_readItems, ← htake, ← map_kind, ← Desk.map_run]
    exact congrArg (· - 1) (List.length_map _).symm
  rw [slot_of_hasReasoning_iff, hcarrier, hsplit]
  exact slot_of_call_iff _ _

/-- **When every call has the reasoning of its turn.** -/
theorem callsReasoned_iff_fed {toString : Value → String} {obj : Map} {values : List Value}
    {req : CanonicalRequest} (hinput : obj.lookup "input" = some (.array values))
    (h : parseRequest toString (.object obj) = .ok req) :
    (∀ i, ReasonedCall (values.map (readItem toString)) i → ∃ s, HasReasoning req.messages
        (carrier ((obj.lookup "instructions").bind Value.asStr)
          (values.map (readItem toString)) i) s) ↔
      ∀ i, ReasonedCall (values.map (readItem toString)) i →
        Fed (((values.map (readItem toString)).take i).map InputItem.kind)
          (((values.map (readItem toString)).drop (i + 1)).map InputItem.kind) := by
  obtain ⟨hmessages, -⟩ := readItems_of_parseRequest hinput h
  rw [hmessages]
  refine forall_congr' fun i => forall_congr' fun hcall => ?_
  -- call by call
  rcases hcall with ⟨⟨call, hget⟩, -⟩
  exact hasReasoning_carrier_iff _ hget

/-- Both calls of one assistant message have its reasoning. -/
theorem callsReasoned_weather :
    ∃ req, parseRequest (fun _ => "") (.object weatherBody) = .ok req ∧
      ∀ i, ReasonedCall (weatherItems.map (readItem fun _ => "")) i → ∃ s,
        HasReasoning req.messages
          (carrier (some "be brief") (weatherItems.map (readItem fun _ => "")) i) s := by
  refine ⟨_, rfl, ?_⟩
  apply (@callsReasoned_iff_fed (fun _ => "") weatherBody weatherItems _ rfl rfl).2
  intro i hcall
  rcases hcall with ⟨⟨call, hget⟩, -⟩
  -- the calls are the fourth and the sixth item
  have hcalls : i = 3 ∨ i = 5 := by
    have hi := lt_of_getElem? hget
    rcases i with _ | _ | _ | _ | _ | _ | _ | _ | i
    all_goals first | exact .inl rfl | exact .inr rfl | cases hget
  rcases hcalls with rfl | rfl <;> decide

/-- Two assistant texts behind the reasoning, and the call merged into the second. -/
def preambleItems : List Value :=
  [.object [("type", .string "reasoning"), ("summary", .array [.object [("text", .string "hm")]])],
    .object [("role", .string "assistant"), ("content", .string "let me look")],
    .object [("role", .string "assistant"), ("content", .string "one moment")],
    .object [("type", .string "function_call"), ("call_id", .string "c1"), ("name",
      .string "rain"), ("arguments", .string "")]]

def preambleBody : Map := [("model", .string "m"), ("input", .array preambleItems)]

theorem not_callsReasoned_preamble :
    ∃ req, parseRequest (fun _ => "") (.object preambleBody) = .ok req ∧
      ReasonedCall (preambleItems.map (readItem fun _ => "")) 3 ∧
      req.messages[carrier none (preambleItems.map (readItem fun _ => "")) 3]? =
        some (.assistant (some "one moment") none [⟨"c1", "rain", ""⟩]) := by
  refine ⟨_, rfl, ⟨⟨_, rfl⟩, 0, "hm", by decide, rfl, by decide, ?_⟩, rfl⟩
  intro n x _ hn hx
  have hn : n ≤ 3 := hn
  rcases n with _ | _ | _ | _ | n
  all_goals first | omega | (cases hx; rfl)

end AiApiBridge.Responses
