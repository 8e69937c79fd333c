import AiApiBridge.InputItems

/-!
# Whose reasoning it is

For the reasoning of a parsed conversation only a little matters of an item: whether it
ends the turn, opens an assistant message, calls, or brings reasoning. A `Desk` holds what
that leaves of the parser's state, over any type of reasoning. Run on reasoning that
carries its position, it shows which item an assistant message has its reasoning from:
one of its own turn, and no other message has it (`reasoning_parseRequest`).
-/

set_option autoImplicit false

namespace AiApiBridge.Responses

universe u v

/-! ## The desk -/

/-- What an item means for the reasoning. -/
inductive Cue (ρ : Type u) where
  /-- Ends the turn. -/
  | prompt
  | assistant
  | call
  | reasoning (r : ρ)
  | skip
  deriving DecidableEq, Repr

/-- A message, as far as the reasoning goes. -/
inductive Slot (ρ : Type u) where
  | prompt
  | assistant (reasoning : Option ρ)
  deriving DecidableEq, Repr

/-- The messages so far and the reasoning that waits for one. -/
structure Desk (ρ : Type u) where
  slots : List (Slot ρ)
  pending : Option ρ
  deriving DecidableEq, Repr

def Slot.reasoning {ρ : Type u} : Slot ρ → Option ρ
  | prompt => none
  | assistant r => r

namespace Desk

variable {ρ : Type u} {σ : Type v}

def empty : Desk ρ := ⟨[], none⟩

/-- Open an assistant message, which takes what is pending. -/
def openAssistant (d : Desk ρ) : Desk ρ := ⟨d.slots ++ [.assistant d.pending], none⟩

def step (d : Desk ρ) : Cue ρ → Desk ρ
  | .prompt => ⟨d.slots ++ [.prompt], none⟩
  | .assistant => d.openAssistant
  | .call =>
      match d.slots.getLast? with
      | some (.assistant (some _)) => d
      -- the message that is open adopts what is pending
      | some (.assistant none) => openAssistant ⟨d.slots.dropLast, d.pending⟩
      | _ => d.openAssistant
  | .reasoning r => { d with pending := some r }
  | .skip => d

def run (cues : List (Cue ρ)) : Desk ρ := cues.foldl step empty

theorem run_concat (cues : List (Cue ρ)) (c : Cue ρ) : run (cues ++ [c]) = (run cues).step c :=
  List.foldl_append

/-- **What a call does**: the message that is open has reasoning and nothing changes, or it
has none and takes what is pending, or a message is opened. -/
theorem step_call (d : Desk ρ) :
    (∃ front r, d.slots = front ++ [.assistant (some r)] ∧ d.step .call = d) ∨
      (∃ front, d.slots = front ++ [.assistant none] ∧
        d.step .call = openAssistant ⟨front, d.pending⟩) ∨
      (∀ r, d.slots.getLast? ≠ some (.assistant r)) ∧ d.step .call = d.openAssistant := by
  rw [step]
  rcases hlast : d.slots.getLast? with _ | (_ | (_ | r))
  · exact .inr (.inr ⟨by simp, rfl⟩)
  · exact .inr (.inr ⟨by simp, rfl⟩)
  · obtain ⟨front, hslots⟩ := List.getLast?_eq_some_iff.1 hlast
    exact .inr (.inl ⟨front, hslots, by simp [hslots]⟩)
  · obtain ⟨front, hslots⟩ := List.getLast?_eq_some_iff.1 hlast
    exact .inl ⟨front, r, hslots, rfl⟩

end Desk

/-! ## Tags -/

section Tags

variable {ρ : Type u} {σ : Type v}

def Cue.map (f : ρ → σ) : Cue ρ → Cue σ
  | prompt => prompt
  | assistant => assistant
  | call => call
  | reasoning r => reasoning (f r)
  | skip => skip

def Slot.map (f : ρ → σ) : Slot ρ → Slot σ
  | prompt => prompt
  | assistant r => assistant (r.map f)

def Desk.map (f : ρ → σ) (d : Desk ρ) : Desk σ := ⟨d.slots.map (Slot.map f), d.pending.map f⟩

/-- The desk does not look into the reasoning. -/
theorem Desk.map_step (f : ρ → σ) (d : Desk ρ) (c : Cue ρ) :
    (d.map f).step (c.map f) = (d.step c).map f := by
  have hopen : ∀ d : Desk ρ, (d.map f).openAssistant = d.openAssistant.map f := by
    intro d
    simp [openAssistant, Desk.map, Slot.map]
  cases c with
  | prompt => simp [Cue.map, step, Desk.map, Slot.map]
  | assistant => exact hopen d
  | call =>
      -- which kind of slot is last does not depend on the tags
      have hlast : (d.map f).slots.getLast? = d.slots.getLast?.map (Slot.map f) :=
        List.getLast?_map
      rw [Cue.map, step, step, hlast]
      rcases d.slots.getLast? with _ | (_ | (_ | r))
      · exact hopen d
      · exact hopen d
      · rw [← hopen]
        simp [Slot.map, Desk.map]
      · rfl
  | reasoning r => rfl
  | skip => rfl

theorem Desk.map_run (f : ρ → σ) (cues : List (Cue ρ)) :
    (run cues).map f = run (cues.map (Cue.map f)) := by
  induction cues using List.reverseRecOn with
  | nil => rfl
  | append_singleton cues c ih =>
      rw [run_concat, List.map_append, List.map_singleton, run_concat, ← ih, map_step]

/-- The cues, their reasoning tagged with its position. -/
def tagged (cues : List (Cue ρ)) : List (Cue (ρ × Nat)) :=
  cues.mapIdx fun i c => c.map fun r => (r, i)

theorem tagged_concat (cues : List (Cue ρ)) (c : Cue ρ) :
    tagged (cues ++ [c]) = tagged cues ++ [c.map fun r => (r, cues.length)] :=
  List.mapIdx_concat

theorem map_fst_tagged (cues : List (Cue ρ)) : (tagged cues).map (Cue.map Prod.fst) = cues := by
  induction cues using List.reverseRecOn with
  | nil => rfl
  | append_singleton cues c ih =>
      have hc : (c.map fun r => (r, cues.length)).map Prod.fst = c := by cases c <;> rfl
      rw [tagged_concat, List.map_append, List.map_singleton, ih, hc]

/-- Tags do not show. -/
theorem map_fst_run_tagged (cues : List (Cue ρ)) :
    (Desk.run (tagged cues)).map Prod.fst = Desk.run cues := by
  rw [Desk.map_run, map_fst_tagged]

end Tags

/-! ## Where reasoning comes from -/

section Sources

variable {ρ : Type u}

/-- The cue that opens a message: with it there is one message more. -/
structure OpensAt (cues : List (Cue ρ)) (o j : Nat) : Prop where
  lt : o < cues.length
  before : (Desk.run (cues.take o)).slots.length = j
  behind : (Desk.run (cues.take (o + 1))).slots.length = j + 1

/-- No turn ends between two positions. -/
def WithinTurn (cues : List (Cue ρ)) (i k : Nat) : Prop :=
  ∀ n, min i k ≤ n → n ≤ max i k → cues[n]? ≠ some .prompt

/-- The turn of a position goes on. -/
def Ongoing (cues : List (Cue ρ)) (i : Nat) : Prop := ∀ n, i ≤ n → cues[n]? ≠ some .prompt

/-- What is known of a desk behind tagged cues. -/
structure Sourced (cues : List (Cue ρ)) (d : Desk (ρ × Nat)) : Prop where
  slots : ∀ j r k, d.slots[j]? = some (.assistant (some (r, k))) →
    cues[k]? = some (.reasoning r) ∧ ∃ o, OpensAt cues o j ∧ WithinTurn cues o k
  pending : ∀ r k, d.pending = some (r, k) → cues[k]? = some (.reasoning r) ∧ Ongoing cues k
  last : ∀ r, d.slots.getLast? = some (.assistant r) →
    ∃ o, OpensAt cues o (d.slots.length - 1) ∧ Ongoing cues o

theorem lt_of_getElem? {α : Type v} {l : List α} {i : Nat} {x : α} (h : l[i]? = some x) :
    i < l.length :=
  (List.getElem?_eq_some_iff.1 h).1

theorem getElem?_concat {α : Type v} {l : List α} {i : Nat} {x : α} (h : l[i]? = some x) (y : α) :
    (l ++ [y])[i]? = some x := by
  rw [List.getElem?_append_left (lt_of_getElem? h), h]

theorem OpensAt.concat {cues : List (Cue ρ)} {o j : Nat} (h : OpensAt cues o j) (c : Cue ρ) :
    OpensAt (cues ++ [c]) o j where
  lt := by
    rw [List.length_append]
    exact Nat.lt_add_right _ h.lt
  before := by
    rw [List.take_append_of_le_length h.lt.le]
    exact h.before
  behind := by
    rw [List.take_append_of_le_length h.lt]
    exact h.behind

theorem WithinTurn.concat {cues : List (Cue ρ)} {i k : Nat} (h : WithinTurn cues i k)
    (hi : i < cues.length) (hk : k < cues.length) (c : Cue ρ) : WithinTurn (cues ++ [c]) i k := by
  intro n hmin hmax
  rw [List.getElem?_append_left (Nat.lt_of_le_of_lt hmax (max_lt hi hk))]
  exact h n hmin hmax

theorem Ongoing.concat {cues : List (Cue ρ)} {i : Nat} (h : Ongoing cues i) {c : Cue ρ}
    (hc : c ≠ .prompt) : Ongoing (cues ++ [c]) i := by
  intro n hn
  rw [List.getElem?_append]
  split
  · exact h n hn
  · rw [List.getElem?_singleton]
    split
    · simpa using hc
    · simp

theorem ongoing_length {cues : List (Cue ρ)} {c : Cue ρ} (hc : c ≠ .prompt) :
    Ongoing (cues ++ [c]) cues.length := by
  intro n hn
  rw [List.getElem?_append_right hn, List.getElem?_singleton]
  split
  · simpa using hc
  · simp

/-- Two positions whose turn goes on are in one turn. -/
theorem Ongoing.withinTurn {cues : List (Cue ρ)} {i k : Nat} (hi : Ongoing cues i)
    (hk : Ongoing cues k) : WithinTurn cues i k := by
  intro n hmin _
  have hn : i ≤ n ∨ k ≤ n := by omega
  rcases hn with h | h
  · exact hi n h
  · exact hk n h

namespace Sourced

variable {cues : List (Cue ρ)} {d : Desk (ρ × Nat)} {c : Cue ρ}

/-- What is in a slot stays as it is. -/
theorem slots_concat (h : Sourced cues d) (c : Cue ρ) {j k : Nat} {r : ρ}
    (hslot : d.slots[j]? = some (.assistant (some (r, k)))) :
    (cues ++ [c])[k]? = some (.reasoning r) ∧
      ∃ o, OpensAt (cues ++ [c]) o j ∧ WithinTurn (cues ++ [c]) o k := by
  obtain ⟨hreasoning, o, hopens, hturn⟩ := h.slots j r k hslot
  exact ⟨getElem?_concat hreasoning c, o, hopens.concat c,
    hturn.concat hopens.lt (lt_of_getElem? hreasoning) c⟩

theorem pending_concat (h : Sourced cues d) (hc : c ≠ .prompt) {k : Nat} {r : ρ}
    (hpending : d.pending = some (r, k)) :
    (cues ++ [c])[k]? = some (.reasoning r) ∧ Ongoing (cues ++ [c]) k := by
  obtain ⟨hreasoning, hturn⟩ := h.pending r k hpending
  exact ⟨getElem?_concat hreasoning c, hturn.concat hc⟩

theorem last_concat (h : Sourced cues d) (hc : c ≠ .prompt) {r : Option (ρ × Nat)}
    (hlast : d.slots.getLast? = some (.assistant r)) :
    ∃ o, OpensAt (cues ++ [c]) o (d.slots.length - 1) ∧ Ongoing (cues ++ [c]) o := by
  obtain ⟨o, hopens, hturn⟩ := h.last r hlast
  exact ⟨o, hopens.concat c, hturn.concat hc⟩

/-- A cue that changes nothing. -/
theorem idle (h : Sourced cues d) (hc : c ≠ .prompt) : Sourced (cues ++ [c]) d where
  slots _ _ _ := h.slots_concat c
  pending _ _ := h.pending_concat hc
  last _ := h.last_concat hc

theorem prompt (h : Sourced cues d) :
    Sourced (cues ++ [.prompt]) ⟨d.slots ++ [.prompt], none⟩ where
  slots j r k hslot := by
    rw [List.getElem?_append] at hslot
    split at hslot
    · exact h.slots_concat _ hslot
    · rw [List.getElem?_singleton] at hslot
      split at hslot <;> cases hslot
  pending r k hpending := by cases hpending
  last r hlast := by
    rw [List.getLast?_concat] at hlast
    cases hlast

theorem reasoning (h : Sourced cues d) (r : ρ) :
    Sourced (cues ++ [.reasoning r]) { d with pending := some (r, cues.length) } where
  slots _ _ _ := h.slots_concat _
  pending r' k hpending := by
    cases hpending
    exact ⟨List.getElem?_concat_length, ongoing_length (by simp)⟩
  last _ := h.last_concat (by simp)

/-- **A slot takes what is pending**: a last one, whose message was opened in this turn. -/
theorem take (h : Sourced cues d) (hc : c ≠ .prompt) {front : List (Slot (ρ × Nat))}
    (hfront : ∀ (j : Nat) (s : Slot (ρ × Nat)), front[j]? = some s → d.slots[j]? = some s) {o : Nat}
    (hopens : OpensAt (cues ++ [c]) o front.length) (hturn : Ongoing (cues ++ [c]) o) :
    Sourced (cues ++ [c]) (Desk.openAssistant ⟨front, d.pending⟩) where
  slots j r k hslot := by
    simp only [Desk.openAssistant, List.getElem?_append] at hslot
    split at hslot
    · exact h.slots_concat c (hfront _ _ hslot)
    · rename_i hj
      rw [List.getElem?_singleton] at hslot
      split at hslot
      · rename_i hlast
        -- the new slot: its reasoning was pending, and its turn is still going on
        obtain rfl : j = front.length := by omega
        have hpending : d.pending = some (r, k) := by simpa using hslot
        obtain ⟨hreasoning, hk⟩ := h.pending_concat hc hpending
        exact ⟨hreasoning, o, hopens, hturn.withinTurn hk⟩
      · cases hslot
  pending r k hpending := by cases hpending
  last r _ := by
    refine ⟨o, ?_, hturn⟩
    simpa [Desk.openAssistant] using hopens

end Sourced

theorem length_slots_tagged (cues : List (Cue ρ)) :
    (Desk.run (tagged cues)).slots.length = (Desk.run cues).slots.length := by
  have hmap := congrArg (fun d => d.slots.length) (map_fst_run_tagged cues)
  exact (List.length_map _).symm.trans hmap

/-- **Where the reasoning of every slot comes from.** -/
theorem sourced_run (cues : List (Cue ρ)) : Sourced cues (Desk.run (tagged cues)) := by
  induction cues using List.reverseRecOn with
  | nil => exact ⟨by simp [tagged, Desk.run, Desk.empty], by simp [tagged, Desk.run, Desk.empty],
      by simp [tagged, Desk.run, Desk.empty]⟩
  | append_singleton cues c ih =>
      rw [tagged_concat, Desk.run_concat]
      -- a message that the cue opens
      have hopen : c ≠ .prompt → (Desk.run (tagged cues)).step (c.map fun r => (r, cues.length)) =
          (Desk.run (tagged cues)).openAssistant →
          Sourced (cues ++ [c]) (Desk.run (tagged cues)).openAssistant := by
        intro hc hstep
        have hopens : OpensAt (cues ++ [c]) cues.length (Desk.run (tagged cues)).slots.length := by
          refine ⟨by simp, ?_, ?_⟩
          · rw [List.take_left, length_slots_tagged]
          · rw [List.take_of_length_le (by simp), ← length_slots_tagged, tagged_concat,
              Desk.run_concat, hstep]
            simp [Desk.openAssistant]
        exact ih.take hc (fun j s hj => hj) hopens (ongoing_length hc)
      cases c with
      | prompt => exact ih.prompt
      | assistant => exact hopen (by simp) rfl
      | call =>
          rw [Cue.map]
          rcases (Desk.run (tagged cues)).step_call with
            ⟨front, r, -, hstep⟩ | ⟨front, hfront, hstep⟩ | ⟨hnone, hstep⟩ <;> rw [hstep]
          · exact ih.idle (by simp)
          · -- the message that is open was opened in this turn
            obtain ⟨o, hopens, hturn⟩ := ih.last_concat (c := .call) (by simp)
              (by rw [hfront]; exact List.getLast?_concat)
            rw [hfront, List.length_append, List.length_singleton, Nat.add_sub_cancel] at hopens
            refine ih.take (by simp) (fun j s hj => ?_) hopens hturn
            rw [hfront]
            exact getElem?_concat hj _
          · exact hopen (by simp) hstep
      | reasoning r => exact ih.reasoning r
      | skip => exact ih.idle (by simp)

/-! ## Nothing is taken twice -/

/-- The reasoning that slots have taken, and what is pending behind it. -/
def Desk.taken (d : Desk ρ) : List ρ := d.slots.filterMap Slot.reasoning ++ d.pending.toList

theorem Desk.taken_openAssistant (d : Desk ρ) : d.openAssistant.taken = d.taken := by
  cases h : d.pending <;> simp [taken, openAssistant, Slot.reasoning, h]

/-- The positions of what is taken grow. -/
structure Growing (n : Nat) (taken : List (ρ × Nat)) : Prop where
  sorted : taken.Pairwise fun a b => a.2 < b.2
  below : ∀ a ∈ taken, a.2 < n

theorem Growing.succ {n : Nat} {taken : List (ρ × Nat)} (h : Growing n taken) :
    Growing (n + 1) taken :=
  ⟨h.sorted, fun a ha => Nat.lt_succ_of_lt (h.below a ha)⟩

theorem Growing.sublist {n : Nat} {taken taken' : List (ρ × Nat)} (h : Growing n taken)
    (hsub : taken'.Sublist taken) : Growing n taken' :=
  ⟨h.sorted.sublist hsub, fun a ha => h.below a (hsub.subset ha)⟩

theorem Growing.concat {n : Nat} {taken : List (ρ × Nat)} (h : Growing n taken) (r : ρ) :
    Growing (n + 1) (taken ++ [(r, n)]) := by
  refine ⟨?_, ?_⟩
  · rw [List.pairwise_append]
    refine ⟨h.sorted, List.pairwise_singleton _ _, fun a ha b hb => ?_⟩
    rw [List.mem_singleton.1 hb]
    exact h.below a ha
  · intro a ha
    rcases List.mem_append.1 ha with ha | ha
    · exact Nat.lt_succ_of_lt (h.below a ha)
    · rw [List.mem_singleton.1 ha]
      exact Nat.lt_succ_self n

/-- **Reasoning is taken in the order it comes**, and once. -/
theorem growing_run (cues : List (Cue ρ)) :
    Growing cues.length (Desk.run (tagged cues)).taken := by
  induction cues using List.reverseRecOn with
  | nil => exact ⟨List.Pairwise.nil, by simp [tagged, Desk.run, Desk.taken, Desk.empty]⟩
  | append_singleton cues c ih =>
      rw [tagged_concat, Desk.run_concat, List.length_append, List.length_singleton]
      generalize Desk.run (tagged cues) = d at ih
      have hslots : Growing cues.length (d.slots.filterMap Slot.reasoning) :=
        ih.sublist (List.sublist_append_left _ _)
      have hopen : Growing (cues.length + 1) d.openAssistant.taken := by
        rw [Desk.taken_openAssistant]
        exact ih.succ
      cases c with
      | prompt =>
          apply Growing.succ
          simpa [Cue.map, Desk.step, Desk.taken, List.filterMap_cons, Slot.reasoning] using hslots
      | assistant => exact hopen
      | call =>
          rw [Cue.map]
          rcases d.step_call with ⟨-, -, -, hstep⟩ | ⟨front, hfront, hstep⟩ | ⟨-, hstep⟩ <;>
            rw [hstep]
          · exact ih.succ
          · -- the slot that adopts held nothing
            have htaken : Desk.taken ⟨front, d.pending⟩ = d.taken := by
              simp [Desk.taken, hfront, Slot.reasoning]
            rw [Desk.taken_openAssistant, htaken]
            exact ih.succ
          · exact hopen
      | reasoning r => exact hslots.concat r
      | skip => exact ih.succ

theorem lt_of_slots {cues : List (Cue ρ)} {j j' k k' : Nat} {r r' : ρ}
    (hj : (Desk.run (tagged cues)).slots[j]? = some (.assistant (some (r, k))))
    (hj' : (Desk.run (tagged cues)).slots[j']? = some (.assistant (some (r', k'))))
    (hlt : j < j') : k < k' := by
  have hsorted := (growing_run cues).sorted.sublist (List.sublist_append_left _ _)
  -- the slots with reasoning, in order
  rw [List.pairwise_filterMap, List.pairwise_iff_getElem] at hsorted
  obtain ⟨hlen, hget⟩ := List.getElem?_eq_some_iff.1 hj
  obtain ⟨hlen', hget'⟩ := List.getElem?_eq_some_iff.1 hj'
  exact hsorted j j' hlen hlen' hlt (r, k) (by rw [hget]; rfl) (r', k') (by rw [hget']; rfl)

end Sources

/-! ## The parser at the desk -/

def InputItem.cue : InputItem → Cue String
  | .user _ | .functionCallOutput _ _ => .prompt
  | .assistant _ => .assistant
  | .functionCall _ => .call
  | .reasoning summary => if summary = "" then .skip else .reasoning summary
  | .system _ | .unknown => .skip

def slotOf : Message → Slot String
  | .user _ | .tool _ _ => .prompt
  | .assistant _ reasoning _ => .assistant reasoning

def deskOf (st : InputState) : Desk String := ⟨st.messages.map slotOf, st.pendingReasoning⟩

theorem deskOf_addCall (st : InputState) (call : ToolCall) :
    deskOf (addCall st call) = (deskOf st).step .call := by
  have hlast : (deskOf st).slots.getLast? = st.messages.getLast?.map slotOf := List.getLast?_map
  rw [Desk.step, hlast]
  cases h : st.messages.getLast? with
  | none => simp [addCall, h, deskOf, slotOf, Desk.openAssistant]
  | some m =>
      have hsplit := dropLast_append_of_getLast? h
      cases m with
      | user text => simp [addCall, h, deskOf, slotOf, Desk.openAssistant]
      | tool callId output => simp [addCall, h, deskOf, slotOf, Desk.openAssistant]
      | assistant text reasoning calls =>
          cases reasoning with
          | none => simp [addCall, h, deskOf, slotOf, Desk.openAssistant]
          | some r =>
              -- the call leaves the slot of its message as it is
              have hslots := congrArg (List.map slotOf) hsplit
              rw [List.map_append, List.map_singleton] at hslots
              simp only [addCall, h, deskOf, slotOf, List.map_append, List.map_singleton,
                Option.map_some]
              rw [hslots]
              rfl

/-- **The parser keeps the desk.** -/
theorem deskOf_read (st : InputState) (x : InputItem) :
    deskOf (st.read x) = (deskOf st).step x.cue := by
  cases x with
  | functionCall call => exact deskOf_addCall st call
  | reasoning summary =>
      rw [InputState.read, InputItem.cue]
      split <;> rfl
  | user text => simp [InputState.read, InputItem.cue, deskOf, Desk.step, slotOf]
  | assistant text =>
      simp [InputState.read, InputItem.cue, deskOf, Desk.step, Desk.openAssistant, slotOf]
  | functionCallOutput callId output =>
      simp [InputState.read, InputItem.cue, deskOf, Desk.step, slotOf]
  | system text => rfl
  | unknown => rfl

theorem deskOf_readItems (system : Option String) (items : List InputItem) :
    deskOf (readItems system items) = Desk.run (items.map InputItem.cue) := by
  induction items using List.reverseRecOn with
  | nil => rfl
  | append_singleton items x ih =>
      have hsnoc : readItems system (items ++ [x]) = (readItems system items).read x :=
        List.foldl_append
      rw [hsnoc, deskOf_read, ih, List.map_append, List.map_singleton, Desk.run_concat]

/-- Messages and slots are one for one. -/
theorem length_messages_readItems (system : Option String) (items : List InputItem) :
    (readItems system items).messages.length =
      (Desk.run (items.map InputItem.cue)).slots.length := by
  rw [← deskOf_readItems system]
  exact (List.length_map _).symm

/-! ## Turns -/

/-- The items that turns lie between: user messages and function call outputs. -/
def InputItem.endsTurn : InputItem → Bool
  | .user _ | .functionCallOutput _ _ => true
  | _ => false

/-- Two positions with no item that ends a turn from one to the other. -/
def SameTurn (items : List InputItem) (i k : Nat) : Prop :=
  ∀ n x, min i k ≤ n → n ≤ max i k → items[n]? = some x → x.endsTurn = false

/-- The item that opens a message: with it there is one message more. -/
structure Opens (system : Option String) (items : List InputItem) (o j : Nat) : Prop where
  before : (readItems system (items.take o)).messages.length = j
  behind : (readItems system (items.take (o + 1))).messages.length = j + 1

/-- An assistant message with this reasoning. -/
def HasReasoning (messages : List Message) (j : Nat) (s : String) : Prop :=
  ∃ text calls, messages[j]? = some (.assistant text (some s) calls)

theorem cue_eq_prompt {x : InputItem} : x.cue = .prompt ↔ x.endsTurn = true := by
  cases x with
  | reasoning summary =>
      rw [InputItem.cue]
      split <;> simp [InputItem.endsTurn]
  | _ => simp [InputItem.cue, InputItem.endsTurn]

theorem cue_eq_reasoning {x : InputItem} {s : String} (h : x.cue = .reasoning s) :
    x = .reasoning s := by
  cases x with
  | reasoning summary =>
      rw [InputItem.cue] at h
      split at h
      · cases h
      · cases h
        rfl
  | _ => cases h

theorem SameTurn.of_cues {items : List InputItem} {i k : Nat}
    (h : WithinTurn (items.map InputItem.cue) i k) : SameTurn items i k := by
  intro n x hmin hmax hx
  have hcue := h n hmin hmax
  rw [List.getElem?_map, hx, Option.map_some, ne_eq, Option.some.injEq, cue_eq_prompt] at hcue
  simpa using hcue

theorem Opens.of_cues (system : Option String) {items : List InputItem} {o j : Nat}
    (h : OpensAt (items.map InputItem.cue) o j) : Opens system items o j where
  before := by
    rw [length_messages_readItems, List.map_take]
    exact h.before
  behind := by
    rw [length_messages_readItems, List.map_take]
    exact h.behind

/-- The position of the reasoning in a slot. -/
def sourceOf (d : Desk (String × Nat)) (j : Nat) : Nat :=
  match d.slots[j]? with
  | some (.assistant (some (_, k))) => k
  | _ => 0

/-- A message with reasoning has it from the slot with its number. -/
theorem slot_of_hasReasoning {system : Option String} {items : List InputItem} {j : Nat}
    {s : String} (h : HasReasoning (readItems system items).messages j s) :
    (Desk.run (tagged (items.map InputItem.cue))).slots[j]? = some (.assistant (some (s,
      sourceOf (Desk.run (tagged (items.map InputItem.cue))) j))) := by
  rcases h with ⟨text, calls, hmessage⟩
  have hslot : (Desk.run (items.map InputItem.cue)).slots[j]? = some (.assistant (some s)) := by
    rw [← deskOf_readItems system]
    simp [deskOf, hmessage, slotOf]
  rw [← map_fst_run_tagged] at hslot
  generalize Desk.run (tagged (items.map InputItem.cue)) = d at hslot
  simp only [Desk.map, List.getElem?_map, Option.map_eq_some_iff] at hslot
  rcases hslot with ⟨slot, hget, hslot⟩
  rcases slot with _ | (_ | ⟨r, k⟩)
  · cases hslot
  · cases hslot
  · obtain rfl : r = s := by simpa [Slot.map] using hslot
    rw [sourceOf, hget]

/-- **Reasoning stays in its turn and is attached once**: every reasoning of a parsed
request is that of a reasoning item of the turn in which its message was opened, and each
message has its own. -/
theorem reasoning_parseRequest {toString : Value → String} {obj : Map} {values : List Value}
    {req : CanonicalRequest} (hinput : obj.lookup "input" = some (.array values))
    (h : parseRequest toString (.object obj) = .ok req) :
    ∃ source : Nat → Nat,
      (∀ j s, HasReasoning req.messages j s →
        (values.map (readItem toString))[source j]? = some (.reasoning s) ∧
          ∃ o, Opens ((obj.lookup "instructions").bind Value.asStr)
              (values.map (readItem toString)) o j ∧
            SameTurn (values.map (readItem toString)) o (source j)) ∧
      ∀ j j' s s', HasReasoning req.messages j s → HasReasoning req.messages j' s' → j ≠ j' →
        source j ≠ source j' := by
  obtain ⟨hmessages, -⟩ := readItems_of_parseRequest hinput h
  rw [hmessages]
  generalize values.map (readItem toString) = items
  refine ⟨sourceOf (Desk.run (tagged (items.map InputItem.cue))), fun j s hj => ?_,
    fun j j' s s' hj hj' hne => ?_⟩
  · obtain ⟨hreasoning, o, hopens, hturn⟩ := (sourced_run _).slots j s _ (slot_of_hasReasoning hj)
    -- the cue at the source is that of a reasoning item
    rw [List.getElem?_map, Option.map_eq_some_iff] at hreasoning
    rcases hreasoning with ⟨x, hx, hcue⟩
    refine ⟨?_, o, .of_cues _ hopens, .of_cues hturn⟩
    rw [hx, cue_eq_reasoning hcue]
  · -- later slots have later sources
    have hslot := slot_of_hasReasoning hj
    have hslot' := slot_of_hasReasoning hj'
    rcases Nat.lt_or_gt_of_ne hne with hlt | hgt
    · exact (lt_of_slots hslot hslot' hlt).ne
    · exact (lt_of_slots hslot' hslot hgt).ne'

/-- The assistant text and its calls have the reasoning in front of them. -/
theorem reasoning_parseRequest_weather :
    ∃ req, parseRequest (fun _ => "") (.object weatherBody) = .ok req ∧
      HasReasoning req.messages 1 "hm" ∧
      ∃ k o, (weatherItems.map (readItem fun _ => ""))[k]? = some (.reasoning "hm") ∧
        Opens (some "be brief") (weatherItems.map (readItem fun _ => "")) o 1 ∧
        SameTurn (weatherItems.map (readItem fun _ => "")) o k := by
  refine ⟨_, rfl, ⟨_, _, rfl⟩, ?_⟩
  obtain ⟨source, hsource, -⟩ :=
    @reasoning_parseRequest (fun _ => "") weatherBody weatherItems _ rfl rfl
  obtain ⟨hreasoning, o, hopens, hturn⟩ := hsource 1 "hm" ⟨_, _, rfl⟩
  exact ⟨_, o, hreasoning, hopens, hturn⟩

end AiApiBridge.Responses
