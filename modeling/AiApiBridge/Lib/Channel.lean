import AiApiBridge.Lib.Splits

/-!
# Text channels with a shared buffer

A channel delivers text in segments. A piece of text opens a segment when none
is open and goes into the open one otherwise; a break closes the open segment.
Every segment is closed under the text of one buffer which the channel never
clears, so a later segment closes with the text of the earlier ones in front of
its own.

`Channel.closings_agree_iff` says that closings are right exactly when there is
at most one segment, and `count_le_one_iff` reads the number of segments off the
input word.
-/

set_option autoImplicit false

namespace AiApiBridge

universe u v

/-! ## Counting segments -/

/-- What an input symbol is to a channel. -/
inductive Role where
  | text
  | brk
  | idle
  deriving DecidableEq, Repr

/-- The segments opened so far, and whether the last one is open. -/
structure SegmentCount where
  segments : Nat
  isOpen : Bool
  deriving DecidableEq, Repr

namespace SegmentCount

def step (k : SegmentCount) : Role → SegmentCount
  | .text => ⟨if k.isOpen then k.segments else k.segments + 1, true⟩
  | .brk => ⟨k.segments, false⟩
  | .idle => k

variable {α : Type u} (role : α → Role)

/-- The count after a word, from a given count on. -/
def after (k : SegmentCount) (w : List α) : SegmentCount := w.foldl (fun k x => k.step (role x)) k

/-- A text, a break and a text occur in this order. -/
def Interrupted (w : List α) : Prop :=
  ∃ a b c, role a = .text ∧ role b = .brk ∧ role c = .text ∧ [a, b, c].Sublist w

variable {role}

@[simp] theorem after_nil (k : SegmentCount) : after role k [] = k := rfl

@[simp] theorem after_cons (k : SegmentCount) (x : α) (w : List α) :
    after role k (x :: w) = after role (k.step (role x)) w := rfl

theorem after_append (k : SegmentCount) (w w' : List α) :
    after role k (w ++ w') = after role (after role k w) w' := List.foldl_append

/-- Symbols that are idle may be left out. -/
theorem after_filterMap {β : Type v} {role' : β → Role} (f : α → Option β) {w : List α}
    (h : ∀ x ∈ w, role x = ((f x).map role').getD .idle) (k : SegmentCount) :
    after role' k (w.filterMap f) = after role k w := by
  induction w generalizing k with
  | nil => rfl
  | cons x w ih =>
      have hx := h x (by simp)
      have ih := ih fun y hy => h y (by simp [hy])
      cases hf : f x with
      | none => simp [hf, ih, hx, step]
      | some y => simp [hf, ih, hx]

/-- With no segment open, a text is what it takes to open another one. -/
theorem segments_after_closed (w : List α) (n : Nat) :
    (after role ⟨n, false⟩ w).segments ≤ n ↔ ∀ c ∈ w, role c ≠ .text := by
  -- the count never goes down, so one more text is too many
  have hmono : ∀ (w : List α) k, k.segments ≤ (after role k w).segments := by
    intro w
    induction w with
    | nil => intro k; simp
    | cons x w ih =>
        intro k
        have hstep : k.segments ≤ (k.step (role x)).segments := by
          cases hx : role x <;> simp only [step, Nat.le_refl]
          split <;> omega
        exact Nat.le_trans hstep (ih (k.step (role x)))
  induction w with
  | nil => simp
  | cons x w ih =>
      cases hx : role x with
      | text =>
          have hgrow : n + 1 ≤ (after role ⟨n + 1, true⟩ w).segments := hmono w ⟨n + 1, true⟩
          simp only [after_cons, hx, step, Bool.false_eq_true, if_false, List.mem_cons]
          constructor
          · intro h
            omega
          · intro h
            exact absurd hx (h x (Or.inl rfl))
      | brk => simpa [hx, step] using ih
      | idle => simpa [hx, step] using ih

/-- With a segment open, it takes a break and then a text. -/
theorem segments_after_open (w : List α) (n : Nat) :
    (after role ⟨n, true⟩ w).segments ≤ n ↔
      ¬ ∃ b c, role b = .brk ∧ role c = .text ∧ [b, c].Sublist w := by
  induction w with
  | nil => simp
  | cons x w ih =>
      -- a symbol that is no break cannot be the first of the pair
      have hskip : role x ≠ .brk → ((∃ b c, role b = .brk ∧ role c = .text ∧
          [b, c].Sublist (x :: w)) ↔ ∃ b c, role b = .brk ∧ role c = .text ∧ [b, c].Sublist w) := by
        intro hx
        constructor
        · rintro ⟨b, c, hb, hc, h⟩
          rcases List.sublist_cons_iff.1 h with h | ⟨r, hr, -⟩
          · exact ⟨b, c, hb, hc, h⟩
          · cases hr
            exact absurd hb hx
        · rintro ⟨b, c, hb, hc, h⟩
          exact ⟨b, c, hb, hc, h.cons x⟩
      cases hx : role x with
      | text => rw [hskip (by simp [hx])]; simpa [hx, step] using ih
      | idle => rw [hskip (by simp [hx])]; simpa [hx, step] using ih
      | brk =>
          simp only [after_cons, hx, step]
          rw [segments_after_closed]
          constructor
          · rintro h ⟨b, c, -, hc, hs⟩
            have hmem : c ∈ w := by
              rcases List.sublist_cons_iff.1 hs with hs | ⟨r, hr, hs⟩
              · exact hs.subset (by simp)
              · cases hr
                exact hs.subset (by simp)
            exact h c hmem hc
          · intro h c hc hct
            exact h ⟨x, c, hx, hct, (List.singleton_sublist.2 hc).cons_cons x⟩

/-- **Segments of a word.** A word opens two segments or more exactly when a
break lies between two texts. -/
theorem segments_le_one_iff (w : List α) :
    (after role ⟨0, false⟩ w).segments ≤ 1 ↔ ¬ Interrupted role w := by
  rw [Interrupted]
  induction w with
  | nil => simp
  | cons x w ih =>
      -- a symbol that is no text cannot be the first of the triple
      have hskip : role x ≠ .text → ((∃ a b c, role a = .text ∧ role b = .brk ∧ role c = .text ∧
          [a, b, c].Sublist (x :: w)) ↔ ∃ a b c, role a = .text ∧ role b = .brk ∧
            role c = .text ∧ [a, b, c].Sublist w) := by
        intro hx
        constructor
        · rintro ⟨a, b, c, ha, hb, hc, h⟩
          rcases List.sublist_cons_iff.1 h with h | ⟨r, hr, -⟩
          · exact ⟨a, b, c, ha, hb, hc, h⟩
          · cases hr
            exact absurd ha hx
        · rintro ⟨a, b, c, ha, hb, hc, h⟩
          exact ⟨a, b, c, ha, hb, hc, h.cons x⟩
      cases hx : role x with
      | idle => rw [hskip (by simp [hx])]; simpa [hx, step] using ih
      | brk => rw [hskip (by simp [hx])]; simpa [hx, step] using ih
      | text =>
          simp only [after_cons, hx, step, Bool.false_eq_true, if_false, Nat.zero_add]
          rw [segments_after_open, not_iff_not]
          constructor
          · rintro ⟨b, c, hb, hc, h⟩
            exact ⟨x, b, c, hx, hb, hc, h.cons_cons x⟩
          · rintro ⟨a, b, c, -, hb, hc, h⟩
            refine ⟨b, c, hb, hc, ?_⟩
            rcases List.sublist_cons_iff.1 h with h | ⟨r, hr, h⟩
            · exact (List.sublist_cons_self a [b, c]).trans h
            · cases hr
              exact h

end SegmentCount

/-! ## Channels -/

/-- A segment: what names it, and the pieces of text delivered under that name. -/
structure Segment (τ : Type u) where
  tag : τ
  parts : List String

/-- The text of a segment. -/
def Segment.text {τ : Type u} (s : Segment τ) : String := String.join s.parts

/-- A segment with the text it was closed under. -/
structure ClosedSegment (τ : Type u) extends Segment τ where
  closing : String

/-- The closed segments in order, the open one, and the buffer. -/
structure Channel (τ : Type u) where
  closed : List (ClosedSegment τ)
  current : Option (Segment τ)
  buffer : String

namespace Channel

variable {τ : Type u}

def new : Channel τ := ⟨[], none, ""⟩

/-- Deliver a piece of text; a segment it opens is named `tag`. -/
def deliver (c : Channel τ) (tag : τ) (t : String) : Channel τ :=
  { c with
    current := some (match c.current with
      | some s => { s with parts := s.parts ++ [t] }
      | none => ⟨tag, [t]⟩)
    buffer := c.buffer ++ t }

/-- Close the open segment. -/
def close (c : Channel τ) : Channel τ :=
  match c.current with
  | some s => { c with closed := c.closed ++ [⟨s, c.buffer⟩], current := none }
  | none => c

/-- All segments in order. -/
def segments (c : Channel τ) : List (Segment τ) :=
  c.closed.map ClosedSegment.toSegment ++ c.current.toList

/-- What a channel that started empty satisfies. -/
structure Wf (c : Channel τ) : Prop where
  buffer_eq : c.buffer = String.join (c.segments.map Segment.text)
  closing_eq : EverySplit (fun pre s =>
    s.closing = String.join (pre.map fun s => s.toSegment.text) ++ s.toSegment.text) c.closed
  text_ne : ∀ s ∈ c.segments, s.text ≠ ""

theorem new_wf : (new : Channel τ).Wf where
  buffer_eq := rfl
  closing_eq := everySplit_nil _
  text_ne := by simp [segments, new]

theorem Wf.deliver {c : Channel τ} (h : c.Wf) (tag : τ) {t : String} (ht : t ≠ "") :
    (c.deliver tag t).Wf where
  buffer_eq := by
    have := h.buffer_eq
    cases hc : c.current <;>
      simp_all [Channel.deliver, segments, Segment.text, String.append_assoc]
  closing_eq := h.closing_eq
  text_ne := by
    have := h.text_ne
    cases hc : c.current with
    | none => simpa [Channel.deliver, segments, hc, Segment.text, or_imp, forall_and, ht] using this
    | some s =>
        simp only [segments, hc, Option.toList_some, List.mem_append, List.mem_singleton, or_imp,
          forall_and, forall_eq] at this
        simpa [Channel.deliver, segments, hc, Segment.text, or_imp, forall_and, ht] using this.1

theorem Wf.close {c : Channel τ} (h : c.Wf) : c.close.Wf := by
  cases hc : c.current with
  | none => simpa [Channel.close, hc] using h
  | some s =>
      have hseg : c.close.segments = c.segments := by simp [Channel.close, segments, hc]
      have hbuf : c.close.buffer = c.buffer := by simp [Channel.close, hc]
      refine ⟨by rw [hbuf, hseg, h.buffer_eq], ?_, by rw [hseg]; exact h.text_ne⟩
      have hb := h.buffer_eq
      simp only [Channel.close, hc]
      rw [everySplit_append, everySplit_cons]
      refine ⟨h.closing_eq, ?_, everySplit_nil _⟩
      simpa [segments, hc, Function.comp_def] using hb

/-- **Closings under a shared buffer.** Every segment is closed under its own
text exactly when there is no second one. -/
theorem Wf.closings_agree_iff {c : Channel τ} (h : c.Wf) :
    (∀ s ∈ c.closed, s.closing = s.toSegment.text) ↔ c.closed.length ≤ 1 := by
  constructor
  · intro hall
    by_contra hlen
    match hcl : c.closed, hlen with
    | s :: s' :: rest, _ =>
        -- the second segment closes with the text of the first in front of its own
        have hclose : s'.closing = s.toSegment.text ++ s'.toSegment.text := by
          simpa using h.closing_eq [s] s' rest hcl
        rw [hall s' (by simp [hcl])] at hclose
        have hempty : s.toSegment.text = "" := by
          have hlen := congrArg String.length hclose
          rw [String.length_append] at hlen
          exact String.length_eq_zero_iff.1 (by omega)
        exact h.text_ne s.toSegment (by simp [segments, hcl]) hempty
    | [_], hlen => simp at hlen
    | [], hlen => simp at hlen
  · intro hlen s hs
    -- nothing was closed before it
    obtain ⟨pre, post, hsplit⟩ := List.append_of_mem hs
    have hpre : pre = [] := by
      rw [hsplit] at hlen
      simp only [List.length_append, List.length_cons] at hlen
      exact List.eq_nil_of_length_eq_zero (by omega)
    subst hpre
    simpa using h.closing_eq [] s post hsplit

/-- Segments with a text add up to one. -/
theorem eq_nil_of_length_join {l : List (Segment τ)} (hne : ∀ s ∈ l, s.text ≠ "")
    (hzero : (String.join (l.map Segment.text)).length = 0) : l = [] := by
  cases l with
  | nil => rfl
  | cons s l =>
      rw [List.map_cons, String.join_cons, String.length_append] at hzero
      exact absurd (String.length_eq_zero_iff.1 (by omega)) (hne s List.mem_cons_self)

/-- Without a text in the buffer there is no segment. -/
theorem Wf.segments_eq_nil {c : Channel τ} (h : c.Wf) (hbuffer : c.buffer = "") :
    c.segments = [] := by
  apply eq_nil_of_length_join h.text_ne
  rw [← h.buffer_eq, hbuffer, String.length_empty]

/-- One of several segments does not have the whole buffer. -/
theorem Wf.length_le_one {c : Channel τ} (h : c.Wf) {s : Segment τ} (hs : s ∈ c.segments)
    (heq : s.text = c.buffer) : c.segments.length ≤ 1 := by
  have hne := h.text_ne
  rw [h.buffer_eq] at heq
  obtain ⟨pre, post, hsplit⟩ := List.append_of_mem hs
  rw [hsplit] at heq hne
  have hlen := congrArg String.length heq
  simp only [List.map_append, List.map_cons, String.join_append, String.join_cons,
    String.length_append] at hlen
  -- the text of another segment would be missing from this one
  have hpre : pre = [] := eq_nil_of_length_join (fun s hs => hne s (by simp [hs])) (by omega)
  have hpost : post = [] := eq_nil_of_length_join (fun s hs => hne s (by simp [hs])) (by omega)
  rw [hsplit, hpre, hpost]
  exact Nat.le_refl 1

/-- A segment alone has the whole buffer. -/
theorem Wf.last_eq_buffer {c : Channel τ} (h : c.Wf) (hlen : c.segments.length ≤ 1) :
    (c.segments.map Segment.text).getLast?.getD "" = c.buffer := by
  rw [h.buffer_eq]
  match hsegments : c.segments, hlen with
  | [], _ => rfl
  | [s], _ => simp
  | _ :: _ :: _, hlen => simp at hlen

/-- The channel agrees with a segment count. -/
def Counts (c : Channel τ) (k : SegmentCount) : Prop :=
  c.segments.length = k.segments ∧ c.current.isSome = k.isOpen

theorem Counts.deliver {c : Channel τ} {k : SegmentCount} (h : c.Counts k) (tag : τ) (t : String) :
    (c.deliver tag t).Counts (k.step .text) := by
  rcases h with ⟨h1, h2⟩
  cases hc : c.current <;>
    simp_all [Channel.deliver, Counts, segments, SegmentCount.step, ← h2]

theorem Counts.close {c : Channel τ} {k : SegmentCount} (h : c.Counts k) :
    c.close.Counts (k.step .brk) := by
  rcases h with ⟨h1, h2⟩
  cases hc : c.current <;> simp_all [Channel.close, Counts, segments, SegmentCount.step]

end Channel

/-! ## Looking up by tag -/

/-- In a concatenation of blocks with distinct keys, selecting a key selects its
block. -/
theorem filter_flatMap_of_nodup {α : Type u} {β γ : Type v} [DecidableEq γ] (block : α → List β)
    (key : α → γ) (tag : β → γ) (htag : ∀ a, ∀ b ∈ block a, tag b = key a) {l : List α}
    (hl : (l.map key).Nodup) {a : α} (ha : a ∈ l) :
    (l.flatMap block).filter (fun b => tag b = key a) = block a := by
  -- blocks of other keys have nothing with this tag
  have hnone : ∀ l : List α, key a ∉ l.map key →
      (l.flatMap block).filter (fun b => tag b = key a) = [] := by
    intro l hl
    rw [List.filter_eq_nil_iff]
    intro b hb
    obtain ⟨a', ha', hb⟩ := List.mem_flatMap.1 hb
    rw [htag a' b hb, decide_eq_true_eq]
    intro heq
    exact hl (heq ▸ List.mem_map_of_mem ha')
  have hself : (block a).filter (fun b => tag b = key a) = block a := by
    rw [List.filter_eq_self]
    intro b hb
    simpa using htag a b hb
  induction l with
  | nil => simp at ha
  | cons a' l ih =>
      rw [List.map_cons, List.nodup_cons] at hl
      rw [List.flatMap_cons, List.filter_append]
      rcases List.mem_cons.1 ha with rfl | ha
      · rw [hself, hnone l hl.1, List.append_nil]
      · have hne : key a ≠ key a' := fun heq => hl.1 (heq ▸ List.mem_map_of_mem ha)
        have hhead : (block a').filter (fun b => tag b = key a) = [] := by
          rw [List.filter_eq_nil_iff]
          intro b hb
          rw [htag a' b hb, decide_eq_true_eq]
          exact fun heq => hne heq.symm
        rw [hhead, List.nil_append, ih hl.2 ha]

end AiApiBridge
