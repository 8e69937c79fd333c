import Mathlib.Data.List.Nodup
import Mathlib.Data.List.Perm.Subperm
import Mathlib.Data.List.Range
import Mathlib.Logic.Function.Basic

/-!
# Numbered brackets

A word of brackets opens numbered items, refers to them and closes them. `Bracketed`
says that the items are numbered in order of appearance, that each is closed once,
and that nothing refers to an item which is not open. `InSlots` is the invariant by
which a program that keeps its open items in slots writes such words: one lemma for
opening, referring and closing, and `InSlots.bracketed` at the end. A program whose
counter wraps writes such a word under other numbers (`renumber`): what is counted
stays as it is, and the numbers are right as long as the counter has not wrapped.
-/

set_option autoImplicit false

namespace AiApiBridge.Brackets

universe u v

variable {α : Type u}

/-- One bracket: the number of an item and what else names it. -/
inductive Bracket (α : Type u) where
  | opened (n : Nat) (a : α)
  | touched (n : Nat) (a : α)
  | closed (n : Nat) (a : α)
  deriving DecidableEq, Repr

namespace Bracket

/-- The item that is opened. -/
def opening : Bracket α → Option (Nat × α)
  | opened n a => some (n, a)
  | _ => none

/-- The item that is closed. -/
def closing : Bracket α → Option (Nat × α)
  | closed n a => some (n, a)
  | _ => none

/-- The item that has to be open. -/
def subject : Bracket α → Option (Nat × α)
  | opened _ _ => none
  | touched n a => some (n, a)
  | closed n a => some (n, a)

/-- The same bracket under another number. -/
def renumber (f : Nat → Nat) : Bracket α → Bracket α
  | opened n a => opened (f n) a
  | touched n a => touched (f n) a
  | closed n a => closed (f n) a

@[simp] theorem renumber_opened (f : Nat → Nat) (n : Nat) (a : α) :
    (opened n a).renumber f = opened (f n) a := rfl
@[simp] theorem renumber_touched (f : Nat → Nat) (n : Nat) (a : α) :
    (touched n a).renumber f = touched (f n) a := rfl
@[simp] theorem renumber_closed (f : Nat → Nat) (n : Nat) (a : α) :
    (closed n a).renumber f = closed (f n) a := rfl
@[simp] theorem opening_opened (n : Nat) (a : α) : (opened n a).opening = some (n, a) := rfl
@[simp] theorem opening_touched (n : Nat) (a : α) : (touched n a).opening = none := rfl
@[simp] theorem opening_closed (n : Nat) (a : α) : (closed n a).opening = none := rfl
@[simp] theorem closing_opened (n : Nat) (a : α) : (opened n a).closing = none := rfl
@[simp] theorem closing_touched (n : Nat) (a : α) : (touched n a).closing = none := rfl
@[simp] theorem closing_closed (n : Nat) (a : α) : (closed n a).closing = some (n, a) := rfl

end Bracket

open AiApiBridge.Brackets.Bracket

/-- The items opened in a word, in order. -/
def opens (w : List (Bracket α)) : List (Nat × α) := w.filterMap opening

/-- The items closed in a word, in order. -/
def closes (w : List (Bracket α)) : List (Nat × α) := w.filterMap closing

@[simp] theorem opens_nil : opens ([] : List (Bracket α)) = [] := rfl
@[simp] theorem closes_nil : closes ([] : List (Bracket α)) = [] := rfl

theorem opens_cons (b : Bracket α) (w : List (Bracket α)) :
    opens (b :: w) = b.opening.toList ++ opens w := by
  cases b <;> rfl

theorem closes_cons (b : Bracket α) (w : List (Bracket α)) :
    closes (b :: w) = b.closing.toList ++ closes w := by
  cases b <;> rfl

@[simp] theorem opens_append (w w' : List (Bracket α)) : opens (w ++ w') = opens w ++ opens w' :=
  List.filterMap_append

@[simp] theorem closes_append (w w' : List (Bracket α)) :
    closes (w ++ w') = closes w ++ closes w' :=
  List.filterMap_append

@[simp] theorem opens_singleton (b : Bracket α) : opens [b] = b.opening.toList := by
  cases b <;> rfl

@[simp] theorem closes_singleton (b : Bracket α) : closes [b] = b.closing.toList := by
  cases b <;> rfl

/-- Every bracket is about an item that is open there. -/
def Within (w : List (Bracket α)) : Prop :=
  ∀ before b after, w = before ++ b :: after → ∀ x, b.subject = some x →
    x ∈ opens before ∧ x ∉ closes before

/-- Items numbered in order of appearance, each closed once and left alone outside. -/
structure Bracketed (w : List (Bracket α)) : Prop where
  numbered : (opens w).map Prod.fst = List.range (opens w).length
  closedOnce : (closes w).Perm (opens w)
  within : Within w

theorem within_snoc {w : List (Bracket α)} {b : Bracket α} (h : Within w)
    (hb : ∀ x, b.subject = some x → x ∈ opens w ∧ x ∉ closes w) : Within (w ++ [b]) := by
  intro before c after hsplit x hx
  rcases List.eq_nil_or_concat after with rfl | ⟨after, d, rfl⟩
  · obtain ⟨rfl, hbc⟩ := List.append_inj' hsplit rfl
    cases hbc
    exact hb x hx
  · rw [List.concat_eq_append, ← List.cons_append, ← List.append_assoc] at hsplit
    exact h before c after (List.append_inj' hsplit rfl).1 x hx

/-! ## One item at a time -/

/-- At most one item is open at the end of the word: all that have been opened are
closed, but for one. -/
def AtMostOne (w : List (Bracket α)) : Prop := (opens w).length ≤ (closes w).length + 1

/-- At every point at most one item is open. -/
def OneOpen (w : List (Bracket α)) : Prop := ∀ before, before <+: w → AtMostOne before

/-- Items strictly one after the other: at most one is open, an item is opened after
the ones before it are closed, and what is referred to was opened last. -/
structure Sequential (w : List (Bracket α)) : Prop where
  oneOpen : OneOpen w
  afterStop : ∀ before n a after, w = before ++ .opened n a :: after →
    (closes before).Perm (opens before)
  mostRecent : ∀ before n a after, w = before ++ .touched n a :: after →
    (opens before).getLast? = some (n, a)

/-- What is closed has been opened. -/
theorem Within.closes_subset {w : List (Bracket α)} (h : Within w) : closes w ⊆ opens w := by
  intro x hx
  obtain ⟨b, hb, hclosing⟩ := List.mem_filterMap.1 hx
  obtain ⟨before, after, rfl⟩ := List.append_of_mem hb
  have hsubject : b.subject = some x := by cases b <;> simp_all [closing, subject]
  rw [opens_append]
  exact List.mem_append_left _ (h before b after rfl x hsubject).1

theorem Within.of_append {w w' : List (Bracket α)} (h : Within (w ++ w')) : Within w := by
  rintro before b after rfl x hx
  exact h before b (after ++ w') (by simp) x hx

theorem Bracketed.nodup_opens {w : List (Bracket α)} (h : Bracketed w) : (opens w).Nodup := by
  have : ((opens w).map Prod.fst).Nodup := by
    rw [h.numbered]
    exact List.nodup_range
  exact this.of_map

/-- With one item open at a time, all items before an opening are closed. -/
theorem Bracketed.afterStop {w before after : List (Bracket α)} {n : Nat} {a : α} (h : Bracketed w)
    (hone : OneOpen w) (hw : w = before ++ .opened n a :: after) :
    (closes before).Perm (opens before) := by
  subst hw
  have hsplit : before ++ .opened n a :: after = (before ++ [.opened n a]) ++ after := by simp
  have hnodup : (closes before).Nodup := by
    have hall := h.closedOnce.nodup_iff.2 h.nodup_opens
    rw [closes_append] at hall
    exact (List.nodup_append.1 hall).1
  -- behind the opening one more has been opened than closed, so before it none has
  have hlength := hone (before ++ [.opened n a]) ⟨after, hsplit.symm⟩
  simp only [AtMostOne, opens_append, opens_singleton, opening_opened, Option.toList_some,
    List.length_append, List.length_singleton, closes_append, closes_singleton, closing_opened,
    Option.toList_none, List.length_nil, Nat.add_zero] at hlength
  exact (List.subperm_of_subset hnodup h.within.of_append.closes_subset).perm_of_length_le
    (Nat.le_of_add_le_add_right hlength)

/-- When items are opened with all before them closed, what is referred to was opened
last. -/
theorem Within.mostRecent {w before after : List (Bracket α)} {n : Nat} {a : α} (h : Within w)
    (hafter : ∀ before n a after, w = before ++ .opened n a :: after →
      (closes before).Perm (opens before))
    (hw : w = before ++ .touched n a :: after) : (opens before).getLast? = some (n, a) := by
  subst hw
  obtain ⟨hopened, hopen⟩ := h before _ after rfl (n, a) rfl
  rcases List.eq_nil_or_concat (opens before) with hnil | ⟨earlier, z, hz⟩
  · rw [hnil] at hopened
    cases hopened
  rw [List.concat_eq_append] at hz
  rw [hz, List.getLast?_concat]
  rw [hz, List.mem_append] at hopened
  rcases hopened with hearlier | hlast
  · -- the last opening comes after that of the item, so the item was closed by then
    exfalso
    obtain ⟨b₁, rest, hbefore, hfirst, hsecond⟩ := List.filterMap_eq_append_iff.1 hz
    obtain ⟨skipped, b, b₂, rfl, hskipped, hb, -⟩ := List.filterMap_eq_cons_iff.1 hsecond
    cases b with
    | touched m c => cases hb
    | closed m c => cases hb
    | opened m c =>
        have hclosed := hafter (b₁ ++ skipped) m c (b₂ ++ .touched n a :: after)
          (by rw [hbefore]; simp)
        have hmem : (n, a) ∈ opens (b₁ ++ skipped) := by
          rw [opens_append, List.mem_append]
          exact Or.inl (by rwa [opens, hfirst])
        apply hopen
        rw [hbefore, ← List.append_assoc, closes_append]
        exact List.mem_append_left _ (hclosed.mem_iff.2 hmem)
  · rw [List.mem_singleton.1 hlast]

/-- **With one item open at a time the items follow each other.** -/
theorem Bracketed.sequential_iff {w : List (Bracket α)} (h : Bracketed w) :
    Sequential w ↔ OneOpen w := by
  constructor
  · exact Sequential.oneOpen
  · intro hone
    have hafter : ∀ before n a after, w = before ++ .opened n a :: after →
        (closes before).Perm (opens before) := fun before n a after hw => h.afterStop hone hw
    exact ⟨hone, hafter, fun before n a after hw => h.within.mostRecent hafter hw⟩

/-- A word that closes first and opens afterwards. -/
def ClosingFirst (v : List (Bracket α)) : Prop :=
  ∃ closing opening, v = closing ++ opening ∧ opens closing = [] ∧ closes opening = []

theorem closingFirst_of_opens {v : List (Bracket α)} (h : opens v = []) : ClosingFirst v :=
  ⟨v, [], (List.append_nil v).symm, h, rfl⟩

theorem closingFirst_of_closes {v : List (Bracket α)} (h : closes v = []) : ClosingFirst v :=
  ⟨[], v, rfl, rfl, h⟩

theorem ClosingFirst.append {v v' : List (Bracket α)} (hv : opens v = []) (hv' : closes v' = []) :
    ClosingFirst (v ++ v') :=
  ⟨v, v', rfl, hv, hv'⟩

/-- A word that closes first and opens afterwards adds no point at which more is open
than at its ends. -/
theorem oneOpen_append_iff {w v : List (Bracket α)} (hv : ClosingFirst v) :
    OneOpen (w ++ v) ↔ OneOpen w ∧ AtMostOne (w ++ v) := by
  rcases hv with ⟨closing, opening, rfl, hclosing, hopening⟩
  constructor
  · intro h
    exact ⟨fun before hbefore => h before (hbefore.trans (List.prefix_append _ _)),
      h _ (List.prefix_refl _)⟩
  · rintro ⟨hone, hend⟩ before hbefore
    rcases List.prefix_or_prefix_of_prefix hbefore (List.prefix_append w _) with hw | ⟨t, rfl⟩
    · exact hone before hw
    · rw [List.prefix_append_right_inj] at hbefore
      rcases List.prefix_or_prefix_of_prefix hbefore (List.prefix_append closing _) with
        ⟨rest, hrest⟩ | ⟨t', rfl⟩
      · -- while items are closed, no more have been opened than before
        have hnone : opens t = [] := by
          rw [← hrest, opens_append] at hclosing
          exact (List.append_eq_nil_iff.1 hclosing).1
        have hw := hone w (List.prefix_refl _)
        simp only [AtMostOne, opens_append, closes_append, hnone, List.append_nil,
          List.length_append] at hw ⊢
        omega
      · -- while items are opened, all are closed that will be
        rw [List.prefix_append_right_inj] at hbefore
        rcases hbefore with ⟨rest, rfl⟩
        rw [closes_append] at hopening
        have hclosed : closes t' = [] := (List.append_eq_nil_iff.1 hopening).1
        have hrest : closes rest = [] := (List.append_eq_nil_iff.1 hopening).2
        simp only [AtMostOne, opens_append, closes_append, hclosed, hrest, List.append_nil,
          List.length_append] at hend ⊢
        omega

/-! ## In turn -/

/-- Items are closed in the order in which they were opened. -/
def InTurn (w : List (Bracket α)) : Prop := closes w <+: opens w

/-- With all items closed, each in its turn, the closings repeat the openings. -/
theorem Bracketed.inTurn_iff {w : List (Bracket α)} (h : Bracketed w) :
    InTurn w ↔ closes w = opens w := by
  constructor
  · intro hturn
    exact hturn.eq_of_length h.closedOnce.length_eq
  · intro heq
    exact ⟨[], by rw [List.append_nil, heq]⟩

/-- A selection of a strictly increasing list is a prefix of it exactly when it is
increasing itself and everything left out is larger. -/
theorem prefix_iff_of_pairwise_lt {β : Type v} (f : β → Nat) {l cl : List β}
    (hl : l.Pairwise fun x y => f x < f y) (hcl : cl ⊆ l) (hnd : cl.Nodup) :
    cl <+: l ↔ (cl.Pairwise fun x y => f x < f y) ∧ ∀ y ∈ l, y ∉ cl → ∀ x ∈ cl, f x < f y := by
  constructor
  · rintro ⟨rest, rfl⟩
    obtain ⟨hsorted, -, hcross⟩ := List.pairwise_append.1 hl
    refine ⟨hsorted, ?_⟩
    intro y hy hnot x hx
    exact hcross x hx y ((List.mem_append.1 hy).resolve_left hnot)
  · rintro ⟨hsorted, hrest⟩
    induction cl generalizing l with
    | nil => exact List.nil_prefix
    | cons c cl ih =>
        cases l with
        | nil => exact absurd (hcl List.mem_cons_self) List.not_mem_nil
        | cons a l =>
            rw [List.pairwise_cons] at hl hsorted
            rw [List.nodup_cons] at hnd
            -- the first of the selection is the least, so it is the first of the list
            have hhead : c = a := by
              by_contra hne
              have hca : c ∈ l := (List.mem_cons.1 (hcl List.mem_cons_self)).resolve_left hne
              have hac : f a < f c := hl.1 c hca
              by_cases ha : a ∈ cl
              · exact Nat.lt_asymm hac (hsorted.1 a ha)
              · have hnot : a ∉ c :: cl := by
                  rw [List.mem_cons, not_or]
                  exact ⟨fun heq => hne heq.symm, ha⟩
                exact Nat.lt_asymm hac (hrest a List.mem_cons_self hnot c List.mem_cons_self)
            subst hhead
            rw [List.prefix_cons_inj]
            apply ih hl.2 _ hnd.2 hsorted.2
            · intro y hy hnot x hx
              have hyc : y ∉ c :: cl := by
                rw [List.mem_cons, not_or]
                refine ⟨?_, hnot⟩
                rintro rfl
                exact absurd (hl.1 y hy) (Nat.lt_irrefl _)
              exact hrest y (List.mem_cons_of_mem c hy) hyc x (List.mem_cons_of_mem c hx)
            · intro x hx
              have hxc : x ≠ c := by
                rintro rfl
                exact hnd.1 hx
              exact (List.mem_cons.1 (hcl (List.mem_cons_of_mem c hx))).resolve_left hxc

/-! ## Other numbers

A program that counts in a register of limited size writes its brackets under the numbers
that the register holds. -/

section Renumbering

variable (f : Nat → Nat)

theorem opens_map_renumber (w : List (Bracket α)) :
    opens (w.map (renumber f)) = (opens w).map (Prod.map f id) := by
  induction w with
  | nil => rfl
  | cons b w ih =>
      rw [List.map_cons, opens_cons, opens_cons, ih, List.map_append]
      cases b <;> rfl

theorem closes_map_renumber (w : List (Bracket α)) :
    closes (w.map (renumber f)) = (closes w).map (Prod.map f id) := by
  induction w with
  | nil => rfl
  | cons b w ih =>
      rw [List.map_cons, closes_cons, closes_cons, ih, List.map_append]
      cases b <;> rfl

variable {f}

/-- Where all items keep their numbers, so does the word. -/
theorem Within.map_renumber {w : List (Bracket α)} (h : Within w)
    (hf : ∀ x ∈ opens w, f x.1 = x.1) : w.map (renumber f) = w := by
  apply (List.map_congr_left fun b hb => ?_).trans (List.map_id w)
  obtain ⟨before, after, rfl⟩ := List.append_of_mem hb
  have hsubject : ∀ x, b.subject = some x → f x.1 = x.1 := by
    intro x hx
    apply hf x
    rw [opens_append]
    exact List.mem_append_left _ (h before b after rfl x hx).1
  cases b with
  | opened n a =>
      have hn : f n = n := hf (n, a) (by simp [opens_cons])
      rw [renumber_opened, hn, id]
  | touched n a => rw [renumber_touched, hsubject (n, a) rfl, id]
  | closed n a => rw [renumber_closed, hsubject (n, a) rfl, id]

variable (f)

theorem atMostOne_map_renumber (w : List (Bracket α)) :
    AtMostOne (w.map (renumber f)) ↔ AtMostOne w := by
  rw [AtMostOne, AtMostOne, opens_map_renumber, closes_map_renumber, List.length_map,
    List.length_map]

theorem oneOpen_map_renumber (w : List (Bracket α)) :
    OneOpen (w.map (renumber f)) ↔ OneOpen w := by
  constructor
  · intro h before hbefore
    exact (atMostOne_map_renumber f before).1 (h _ (hbefore.map _))
  · intro h before hbefore
    obtain ⟨before, hw, rfl⟩ := List.prefix_map_iff.1 hbefore
    exact (atMostOne_map_renumber f before).2 (h before hw)

/-- **One item at a time, under any numbers.** -/
theorem Bracketed.sequential_renumber_iff {w : List (Bracket α)} (h : Bracketed w) :
    Sequential (w.map (renumber f)) ↔ OneOpen w := by
  constructor
  · intro hseq
    exact (oneOpen_map_renumber f w).1 hseq.oneOpen
  · intro hone
    have hw := h.sequential_iff.2 hone
    refine ⟨(oneOpen_map_renumber f w).2 hone, ?_, ?_⟩
    · intro before n a after hsplit
      obtain ⟨before, rest, rfl, rfl, hrest⟩ := List.map_eq_append_iff.1 hsplit
      obtain ⟨b, after, rfl, hb, -⟩ := List.map_eq_cons_iff.1 hrest
      cases b with
      | opened m c =>
          rw [closes_map_renumber, opens_map_renumber]
          exact (hw.afterStop before m c after rfl).map _
      | touched m c => cases hb
      | closed m c => cases hb
    · intro before n a after hsplit
      obtain ⟨before, rest, rfl, rfl, hrest⟩ := List.map_eq_append_iff.1 hsplit
      obtain ⟨b, after, rfl, hb, -⟩ := List.map_eq_cons_iff.1 hrest
      cases b with
      | opened m c => cases hb
      | touched m c =>
          cases hb
          rw [opens_map_renumber, List.getLast?_map, hw.mostRecent before m a after rfl]
          rfl
      | closed m c => cases hb

end Renumbering

/-! ## Slots -/

/-- A program that has written the word `w` has `next` as its next number and its open
items in these slots. -/
structure InSlots {κ : Type v} (w : List (Bracket α)) (next : Nat) (slots : κ → Option (Nat × α)) :
    Prop where
  numbered : (opens w).map Prod.fst = List.range next
  within : Within w
  nodup : (closes w).Nodup
  subset : ∀ x ∈ closes w, x ∈ opens w
  held : ∀ x, x ∈ opens w ∧ x ∉ closes w ↔ ∃ k, slots k = some x
  distinct : ∀ k k' x, slots k = some x → slots k' = some x → k = k'

/-- The items of two slots, if there are both, are numbered in this order. -/
def Precedes {κ : Type v} (slots : κ → Option (Nat × α)) (k k' : κ) : Prop :=
  ∀ x y, slots k = some x → slots k' = some y → x.1 < y.1

/-- Against the order of the numbers, one of the two slots has to be empty. -/
theorem Precedes.reverse_iff {κ : Type v} {slots : κ → Option (Nat × α)} {k k' : κ}
    (h : Precedes slots k' k) :
    Precedes slots k k' ↔ ¬ (slots k ≠ none ∧ slots k' ≠ none) := by
  constructor
  · rintro hkk ⟨hk, hk'⟩
    obtain ⟨x, hx⟩ := Option.ne_none_iff_exists'.1 hk
    obtain ⟨y, hy⟩ := Option.ne_none_iff_exists'.1 hk'
    exact Nat.lt_asymm (hkk x y hx hy) (h y x hy hx)
  · intro hnot x y hx hy
    exact absurd ⟨by simp [hx], by simp [hy]⟩ hnot

theorem precedes_of_none_left {κ : Type v} {slots : κ → Option (Nat × α)} {k k' : κ}
    (h : slots k = none) : Precedes slots k k' := by
  intro x y hx
  rw [h] at hx
  cases hx

theorem precedes_of_none_right {κ : Type v} {slots : κ → Option (Nat × α)} {k k' : κ}
    (h : slots k' = none) : Precedes slots k k' := by
  intro x y _ hy
  rw [h] at hy
  cases hy

namespace InSlots

variable {κ : Type v} {w : List (Bracket α)} {next : Nat} {slots : κ → Option (Nat × α)}

theorem nil : InSlots ([] : List (Bracket α)) 0 fun _ : κ => none where
  numbered := rfl
  within := by
    intro before b after h
    cases before <;> cases h
  nodup := List.nodup_nil
  subset := by simp
  held := by simp
  distinct := by simp

theorem congr (h : InSlots w next slots) {slots' : κ → Option (Nat × α)}
    (heq : ∀ k, slots' k = slots k) : InSlots w next slots' := by
  rwa [funext heq]

/-- The next number is new. -/
theorem fresh (h : InSlots w next slots) (a : α) : (next, a) ∉ opens w := by
  intro hmem
  have := List.mem_map_of_mem (f := Prod.fst) hmem
  rw [h.numbered, List.mem_range] at this
  exact Nat.lt_irrefl _ this

/-- Items are opened with increasing numbers. -/
theorem pairwise_opens (h : InSlots w next slots) :
    (opens w).Pairwise fun x y => x.1 < y.1 := by
  have hsorted := List.pairwise_lt_range (n := next)
  rw [← h.numbered, List.pairwise_map] at hsorted
  exact hsorted

theorem nodup_opens (h : InSlots w next slots) : (opens w).Nodup := by
  apply h.pairwise_opens.imp
  rintro x y hlt rfl
  exact Nat.lt_irrefl _ hlt

theorem length_closes_le (h : InSlots w next slots) : (closes w).length ≤ (opens w).length :=
  h.nodup.length_le_of_subset h.subset

theorem length_opens (h : InSlots w next slots) : (opens w).length = next := by
  rw [← List.length_map (f := Prod.fst), h.numbered, List.length_range]

/-- What has been opened is what has been closed and what the slots hold. -/
theorem exists_held (h : InSlots w next slots) :
    ∃ held, (opens w).Perm (closes w ++ held) ∧ held.Nodup ∧
      ∀ x, x ∈ held ↔ ∃ k, slots k = some x := by
  obtain ⟨closings, hclosings, hsub⟩ := List.subperm_of_subset h.nodup h.subset
  obtain ⟨held, hheld⟩ := hsub.exists_perm_append
  have hperm := hheld.trans (hclosings.append_right held)
  have hnodup := hperm.nodup_iff.1 h.nodup_opens
  refine ⟨held, hperm, (List.nodup_append.1 hnodup).2.1, fun x => ?_⟩
  rw [← h.held x, hperm.mem_iff, List.mem_append]
  constructor
  · intro hx
    exact ⟨Or.inr hx, fun hclosed => (List.nodup_append.1 hnodup).2.2 x hclosed x hx rfl⟩
  · rintro ⟨hclosed | hx, hnot⟩
    · exact absurd hclosed hnot
    · exact hx

/-- At most one item is open exactly when at most one slot is filled. -/
theorem atMostOne_iff (h : InSlots w next slots) :
    AtMostOne w ↔ ∀ k k', slots k ≠ none → slots k' ≠ none → k = k' := by
  obtain ⟨held, hperm, hnodup, hmem⟩ := h.exists_held
  have hcount : AtMostOne w ↔ held.length ≤ 1 := by
    rw [AtMostOne, hperm.length_eq, List.length_append]
    omega
  rw [hcount]
  constructor
  · intro hone k k' hk hk'
    obtain ⟨x, hx⟩ := Option.ne_none_iff_exists'.1 hk
    obtain ⟨y, hy⟩ := Option.ne_none_iff_exists'.1 hk'
    -- a list of at most one item has no second one
    have hxy : x = y := by
      obtain ⟨i, hi, rfl⟩ := List.getElem_of_mem ((hmem x).2 ⟨k, hx⟩)
      obtain ⟨j, hj, rfl⟩ := List.getElem_of_mem ((hmem y).2 ⟨k', hy⟩)
      congr 1
      omega
    exact h.distinct k k' x hx (hxy ▸ hy)
  · intro hone
    match held, hnodup, hmem with
    | [], _, _ => exact Nat.zero_le _
    | [_], _, _ => exact Nat.le_refl _
    | x :: y :: _, hnodup, hmem =>
        exfalso
        obtain ⟨k, hk⟩ := (hmem x).1 (by simp)
        obtain ⟨k', hk'⟩ := (hmem y).1 (by simp)
        have hkk := hone k k' (by simp [hk]) (by simp [hk'])
        rw [hkk, hk'] at hk
        exact (List.nodup_cons.1 hnodup).1 (by simp [Option.some.inj hk])

/-- **Closing items in turn.** When some open items are closed the order of closings
stays right exactly when these are closed in the order of their numbers and the items
left open have larger ones. -/
theorem inTurn_append_iff (h : InSlots w next slots) {v : List (Bracket α)}
    (hopen : ∀ x ∈ closes v, ∃ k, slots k = some x) (hnd : (closes v).Nodup) :
    InTurn (w ++ v) ↔ InTurn w ∧ ((closes v).Pairwise fun x y => x.1 < y.1) ∧
      ∀ k y, slots k = some y → y ∉ closes v → ∀ x ∈ closes v, x.1 < y.1 := by
  have hbefore : InTurn (w ++ v) → InTurn w := by
    intro hturn
    rw [InTurn, closes_append, opens_append] at hturn
    exact List.prefix_of_prefix_length_le ((List.prefix_append _ _).trans hturn)
      (List.prefix_append _ _) h.length_closes_le
  rw [← and_iff_right_of_imp hbefore, and_congr_right_iff]
  rintro ⟨rest, hrest⟩
  -- what is left of the openings are the open items, in the order of their numbers
  have hpairwise := h.pairwise_opens
  rw [← hrest] at hpairwise
  have hmem : ∀ x, x ∈ rest ↔ ∃ k, slots k = some x := by
    intro x
    have hnodup := h.nodup_opens
    rw [← hrest] at hnodup
    rw [← h.held x, ← hrest, List.mem_append]
    constructor
    · intro hx
      exact ⟨Or.inr hx, fun hc => (List.nodup_append.1 hnodup).2.2 x hc x hx rfl⟩
    · rintro ⟨hc | hx, hnot⟩
      · exact absurd hc hnot
      · exact hx
  have hsubset : closes v ⊆ rest := fun x hx => (hmem x).2 (hopen x hx)
  have hturn : InTurn (w ++ v) ↔ closes v <+: rest := by
    rw [InTurn, closes_append, opens_append, ← hrest, List.append_assoc,
      List.prefix_append_right_inj]
    constructor
    · intro hv
      exact List.prefix_of_prefix_length_le hv (List.prefix_append _ _)
        (hnd.length_le_of_subset hsubset)
    · intro hv
      exact hv.trans (List.prefix_append _ _)
  rw [hturn, prefix_iff_of_pairwise_lt Prod.fst (List.pairwise_append.1 hpairwise).2.1 hsubset hnd]
  apply and_congr_right
  intro _
  constructor
  · intro hlarger k y hk
    exact hlarger y ((hmem y).2 ⟨k, hk⟩)
  · intro hlarger y hy
    obtain ⟨k, hk⟩ := (hmem y).1 hy
    exact hlarger k y hk

/-- An item in a slot has a number that is in use. -/
theorem lt_next (h : InSlots w next slots) {k : κ} {x : Nat × α} (hk : slots k = some x) :
    x.1 < next := by
  have hmem := List.mem_map_of_mem (f := Prod.fst) ((h.held x).2 ⟨k, hk⟩).1
  rwa [h.numbered, List.mem_range] at hmem

/-- **Closing slots in turn.** When the items of some slots are closed one by one, the
order of closings stays right exactly when these slots, and all others after them, are
in the order of the numbers of their items. -/
theorem inTurn_append_slots_iff (h : InSlots w next slots) {v : List (Bracket α)} {ks : List κ}
    (hv : closes v = ks.flatMap fun k => (slots k).toList) (hks : ks.Nodup) :
    InTurn (w ++ v) ↔ InTurn w ∧ ks.Pairwise (Precedes slots) ∧
      ∀ k ∈ ks, ∀ k', k' ∉ ks → Precedes slots k k' := by
  have hmem : ∀ x, x ∈ closes v ↔ ∃ k ∈ ks, slots k = some x := by
    intro x
    rw [hv, List.mem_flatMap]
    simp only [Option.mem_toList]
  -- different slots hold different brackets
  have hnodup : (closes v).Nodup := by
    rw [hv, List.nodup_flatMap]
    refine ⟨fun k _ => by cases slots k <;> simp, hks.imp ?_⟩
    intro k k' hne x hx hx'
    rw [Option.mem_toList] at hx hx'
    exact hne (h.distinct k k' x hx hx')
  rw [h.inTurn_append_iff (fun x hx => ((hmem x).1 hx).imp fun k hk => hk.2) hnodup]
  apply and_congr_right
  intro _
  -- the closings are in order when their slots are
  have hpairwise : ((closes v).Pairwise fun x y => x.1 < y.1) ↔ ks.Pairwise (Precedes slots) := by
    rw [hv, List.pairwise_flatMap, and_iff_right (fun k _ => by cases slots k <;> simp)]
    simp only [Option.mem_toList]
    constructor <;> intro hp <;> refine hp.imp ?_
    · intro k k' hkk x y hx hy
      exact hkk x hx y hy
    · intro k k' hkk x hx y hy
      exact hkk x y hx hy
  rw [hpairwise]
  apply and_congr_right
  intro _
  constructor
  · intro hlarger k hk k' hk' x y hx hy
    apply hlarger k' y hy _ x ((hmem x).2 ⟨k, hk, hx⟩)
    intro hclosed
    obtain ⟨k'', hk'', hy'⟩ := (hmem y).1 hclosed
    exact hk' (h.distinct k'' k' y hy' hy ▸ hk'')
  · intro hlarger k' y hy hopen x hx
    obtain ⟨k, hk, hx'⟩ := (hmem x).1 hx
    apply hlarger k hk k' _ x y hx' hy
    intro hk'
    exact hopen ((hmem y).2 ⟨k', hk', hy⟩)

variable [DecidableEq κ]

/-- A slot that is emptied, or filled with a new item, leaves the items distinct. -/
theorem distinct_update (h : InSlots w next slots) (k : κ) {item : Option (Nat × α)}
    (hitem : ∀ x, item = some x → ∀ k', slots k' ≠ some x) (k₁ k₂ : κ) (x : Nat × α)
    (h₁ : Function.update slots k item k₁ = some x)
    (h₂ : Function.update slots k item k₂ = some x) : k₁ = k₂ := by
  by_cases hk₁ : k₁ = k
  · rw [hk₁, Function.update_self] at h₁
    by_cases hk₂ : k₂ = k
    · rw [hk₁, hk₂]
    · rw [Function.update_of_ne hk₂] at h₂
      exact absurd h₂ (hitem x h₁ k₂)
  · rw [Function.update_of_ne hk₁] at h₁
    by_cases hk₂ : k₂ = k
    · rw [hk₂, Function.update_self] at h₂
      exact absurd h₁ (hitem x h₂ k₁)
    · rw [Function.update_of_ne hk₂] at h₂
      exact h.distinct k₁ k₂ x h₁ h₂

/-- Opening an item in an empty slot. -/
theorem opened (h : InSlots w next slots) {k : κ} (hk : slots k = none) (a : α) :
    InSlots (w ++ [.opened next a]) (next + 1) (Function.update slots k (some (next, a))) := by
  -- the number has not been used, neither in the word nor in a slot
  have hfresh := h.fresh a
  have hnotClosed : (next, a) ∉ closes w := fun hc => hfresh (h.subset _ hc)
  have hslot : ∀ k', slots k' ≠ some (next, a) :=
    fun k' hk' => hfresh ((h.held _).2 ⟨k', hk'⟩).1
  refine ⟨?_, within_snoc h.within (by simp [subject]), ?_, ?_, ?_, ?_⟩
  · simp [h.numbered, List.range_succ]
  · simpa using h.nodup
  · intro x hx
    simp only [closes_append, closes_singleton, closing_opened, Option.toList_none,
      List.append_nil] at hx
    rw [opens_append]
    exact List.mem_append_left _ (h.subset x hx)
  · intro x
    simp only [opens_append, opens_singleton, opening_opened, Option.toList_some, closes_append,
      closes_singleton, closing_opened, Option.toList_none, List.append_nil, List.mem_append,
      List.mem_singleton]
    constructor
    · rintro ⟨hx | rfl, hclosed⟩
      · obtain ⟨k', hk'⟩ := (h.held x).1 ⟨hx, hclosed⟩
        refine ⟨k', ?_⟩
        rwa [Function.update_of_ne]
        rintro rfl
        rw [hk] at hk'
        cases hk'
      · exact ⟨k, Function.update_self ..⟩
    · rintro ⟨k', hk'⟩
      by_cases hkk : k' = k
      · subst hkk
        rw [Function.update_self] at hk'
        cases hk'
        exact ⟨Or.inr rfl, hnotClosed⟩
      · rw [Function.update_of_ne hkk] at hk'
        obtain ⟨hx, hclosed⟩ := (h.held x).2 ⟨k', hk'⟩
        exact ⟨Or.inl hx, hclosed⟩
  · apply h.distinct_update
    rintro x ⟨⟩
    exact hslot

omit [DecidableEq κ] in
/-- Referring to an item in its slot. -/
theorem touched (h : InSlots w next slots) {k : κ} {n : Nat} {a : α} (hk : slots k = some (n, a)) :
    InSlots (w ++ [.touched n a]) next slots := by
  have hopen := (h.held _).2 ⟨k, hk⟩
  refine ⟨?_, within_snoc h.within ?_, ?_, ?_, ?_, h.distinct⟩
  · simpa using h.numbered
  · rintro x ⟨⟩
    exact hopen
  · simpa using h.nodup
  · simpa using h.subset
  · simpa using h.held

/-- Closing an item empties its slot. -/
theorem closed (h : InSlots w next slots) {k : κ} {n : Nat} {a : α} (hk : slots k = some (n, a)) :
    InSlots (w ++ [.closed n a]) next (Function.update slots k none) := by
  -- what a slot holds is open: opened and not yet closed
  have hopen := (h.held _).2 ⟨k, hk⟩
  refine ⟨?_, within_snoc h.within ?_, ?_, ?_, ?_, ?_⟩
  · simpa using h.numbered
  · rintro x ⟨⟩
    exact hopen
  · simp only [closes_append, closes_singleton, closing_closed, Option.toList_some]
    exact List.nodup_append.2 ⟨h.nodup, List.nodup_singleton _, by
      rintro x hx y hy rfl
      rw [List.mem_singleton.1 hy] at hx
      exact hopen.2 hx⟩
  · intro x hx
    simp only [closes_append, closes_singleton, closing_closed, Option.toList_some,
      List.mem_append, List.mem_singleton] at hx
    simp only [opens_append, opens_singleton, opening_closed, Option.toList_none, List.append_nil]
    rcases hx with hx | rfl
    · exact h.subset x hx
    · exact hopen.1
  · intro x
    simp only [opens_append, opens_singleton, opening_closed, Option.toList_none, List.append_nil,
      closes_append, closes_singleton, closing_closed, Option.toList_some, List.mem_append,
      List.mem_singleton, not_or]
    constructor
    · rintro ⟨hx, hclosed, hne⟩
      obtain ⟨k', hk'⟩ := (h.held x).1 ⟨hx, hclosed⟩
      refine ⟨k', ?_⟩
      rwa [Function.update_of_ne]
      rintro rfl
      rw [hk] at hk'
      cases hk'
      exact hne rfl
    · rintro ⟨k', hk'⟩
      by_cases hkk : k' = k
      · rw [hkk, Function.update_self] at hk'
        cases hk'
      · rw [Function.update_of_ne hkk] at hk'
        obtain ⟨hx, hclosed⟩ := (h.held x).2 ⟨k', hk'⟩
        refine ⟨hx, hclosed, ?_⟩
        rintro rfl
        exact hkk (h.distinct k' k _ hk' hk)
  · apply h.distinct_update
    nofun

omit [DecidableEq κ] in
/-- **With all slots empty the word is bracketed.** -/
theorem bracketed (h : InSlots w next slots) (hnone : ∀ k, slots k = none) : Bracketed w := by
  refine ⟨?_, (List.perm_ext_iff_of_nodup h.nodup h.nodup_opens).2 fun x =>
    ⟨h.subset x, fun hx => ?_⟩, h.within⟩
  · have hlength := congrArg List.length h.numbered
    rw [List.length_map, List.length_range] at hlength
    rw [h.numbered, hlength]
  · -- an item that is not closed would be in a slot
    by_contra hclosed
    obtain ⟨k, hk⟩ := (h.held x).1 ⟨hx, hclosed⟩
    rw [hnone k] at hk
    cases hk

end InSlots

/-! ## Slots and a register

A program with slots that writes its brackets under the numbers in its register. -/

/-- The word of a program with these slots, which writes `f n` for the number `n`. -/
def InSlotsAs {κ : Type v} (f : Nat → Nat) (w : List (Bracket α)) (next : Nat)
    (slots : κ → Option (Nat × α)) : Prop :=
  ∃ v, v.map (renumber f) = w ∧ InSlots v next slots

namespace InSlotsAs

variable {κ : Type v} {f : Nat → Nat} {w : List (Bracket α)} {next : Nat}
  {slots : κ → Option (Nat × α)}

theorem nil : InSlotsAs f ([] : List (Bracket α)) 0 fun _ : κ => none := ⟨[], rfl, InSlots.nil⟩

theorem congr (h : InSlotsAs f w next slots) {slots' : κ → Option (Nat × α)}
    (heq : ∀ k, slots' k = slots k) : InSlotsAs f w next slots' := by
  rwa [funext heq]

theorem length_opens (h : InSlotsAs f w next slots) : (opens w).length = next := by
  obtain ⟨v, rfl, hv⟩ := h
  rw [opens_map_renumber, List.length_map, hv.length_opens]

/-- The items are numbered as the register counts. -/
theorem numbers (h : InSlotsAs f w next slots) :
    (opens w).map Prod.fst = (List.range next).map f := by
  obtain ⟨v, rfl, hv⟩ := h
  rw [opens_map_renumber, List.map_map, ← hv.numbered, List.map_map]
  rfl

theorem lt_next (h : InSlotsAs f w next slots) {k : κ} {x : Nat × α} (hk : slots k = some x) :
    x.1 < next := by
  obtain ⟨v, -, hv⟩ := h
  exact hv.lt_next hk

/-- **Before the register wraps** the word is that of the slots. -/
theorem inSlots (h : InSlotsAs f w next slots) (hf : ∀ n < next, f n = n) :
    InSlots w next slots := by
  obtain ⟨v, rfl, hv⟩ := h
  rwa [hv.within.map_renumber fun x hx => hf x.1 ?_]
  have hmem := List.mem_map_of_mem (f := Prod.fst) hx
  rwa [hv.numbered, List.mem_range] at hmem

/-- At most one item is open exactly when at most one slot is filled. -/
theorem atMostOne_iff (h : InSlotsAs f w next slots) :
    AtMostOne w ↔ ∀ k k', slots k ≠ none → slots k' ≠ none → k = k' := by
  obtain ⟨v, rfl, hv⟩ := h
  rw [atMostOne_map_renumber, hv.atMostOne_iff]

/-- With all slots empty, items follow each other when one is open at a time. -/
theorem sequential_iff (h : InSlotsAs f w next slots) (hnone : ∀ k, slots k = none) :
    Sequential w ↔ OneOpen w := by
  obtain ⟨v, rfl, hv⟩ := h
  rw [(hv.bracketed hnone).sequential_renumber_iff, oneOpen_map_renumber]

/-- **With all slots empty the word is bracketed** exactly when the register has not
wrapped. -/
theorem bracketed_iff (h : InSlotsAs f w next slots) (hnone : ∀ k, slots k = none) :
    Bracketed w ↔ ∀ n < next, f n = n := by
  constructor
  · intro hw n hn
    have hnumbered := hw.numbered
    rw [h.numbers, h.length_opens] at hnumbered
    have hget := congrArg (fun l : List Nat => l[n]?) hnumbered
    simpa [List.getElem?_range hn] using hget
  · intro hf
    exact (h.inSlots hf).bracketed hnone

variable [DecidableEq κ]

/-- Opening an item in an empty slot. -/
theorem opened (h : InSlotsAs f w next slots) {k : κ} (hk : slots k = none) (a : α) :
    InSlotsAs f (w ++ [.opened (f next) a]) (next + 1)
      (Function.update slots k (some (next, a))) := by
  obtain ⟨v, rfl, hv⟩ := h
  exact ⟨v ++ [.opened next a], List.map_append, hv.opened hk a⟩

omit [DecidableEq κ] in
/-- Referring to an item in its slot. -/
theorem touched (h : InSlotsAs f w next slots) {k : κ} {n : Nat} {a : α}
    (hk : slots k = some (n, a)) : InSlotsAs f (w ++ [.touched (f n) a]) next slots := by
  obtain ⟨v, rfl, hv⟩ := h
  exact ⟨v ++ [.touched n a], List.map_append, hv.touched hk⟩

/-- Closing an item empties its slot. -/
theorem closed (h : InSlotsAs f w next slots) {k : κ} {n : Nat} {a : α}
    (hk : slots k = some (n, a)) :
    InSlotsAs f (w ++ [.closed (f n) a]) next (Function.update slots k none) := by
  obtain ⟨v, rfl, hv⟩ := h
  exact ⟨v ++ [.closed n a], List.map_append, hv.closed hk⟩

end InSlotsAs

end AiApiBridge.Brackets
