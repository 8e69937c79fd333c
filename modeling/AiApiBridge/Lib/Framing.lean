import Mathlib.Data.List.Sort

/-!
# Incremental framing

A framer cuts complete frames off the front of a growing buffer. `find` reports
the position and the length of the first separator; `drain` removes frame after
frame until no separator is left and returns what the frames decode to,
together with the unread rest.

The point of the module is chunk invariance (`feed_eq_of_flatten_eq`): if a
separator found in a buffer is still the one found after more input has arrived
(`Framer.stable`), then the frames obtained from a sequence of chunks depend on
the concatenation of the chunks alone.
-/

set_option autoImplicit false

namespace AiApiBridge.Framing

universe u v

variable {α : Type u} {β : Type v}

/-- Cut off at most `fuel` frames. -/
def drainUpTo (find : List α → Option (Nat × Nat)) (decode : List α → Option β) :
    Nat → List α → List β × List α
  | 0, buf => ([], buf)
  | fuel + 1, buf =>
      match find buf with
      | none => ([], buf)
      | some (pos, len) =>
          let r := drainUpTo find decode fuel (buf.drop (pos + len))
          ((decode (buf.take pos)).toList ++ r.1, r.2)

/-- Cut off every complete frame of the buffer. A separator is not empty, so the
buffer's own length bounds the number of frames. -/
def drain (find : List α → Option (Nat × Nat)) (decode : List α → Option β) (buf : List α) :
    List β × List α :=
  drainUpTo find decode buf.length buf

/-- Append a chunk to the buffer and drain it. -/
def push (find : List α → Option (Nat × Nat)) (decode : List α → Option β)
    (buf chunk : List α) : List β × List α :=
  drain find decode (buf ++ chunk)

/-- Push a sequence of chunks, collecting the decoded frames. -/
def feed (find : List α → Option (Nat × Nat)) (decode : List α → Option β) :
    List α → List (List α) → List β × List α
  | buf, [] => ([], buf)
  | buf, c :: cs =>
      let r := push find decode buf c
      let r' := feed find decode r.2 cs
      (r.1 ++ r'.1, r'.2)

/-- What chunk invariance needs of a separator search: a separator is not empty
and lies inside the buffer, and input that arrives later does not change the
first separator. -/
structure Framer (find : List α → Option (Nat × Nat)) : Prop where
  bounds : ∀ {buf pos len}, find buf = some (pos, len) → 0 < len ∧ pos + len ≤ buf.length
  stable : ∀ {buf pos len}, find buf = some (pos, len) →
    ∀ more, find (buf ++ more) = some (pos, len)

section Laws

variable {find : List α → Option (Nat × Nat)} (decode : List α → Option β)

/-- Fuel beyond the length of the buffer changes nothing. -/
theorem drainUpTo_eq_drain (h : Framer find) :
    ∀ fuel buf, buf.length ≤ fuel → drainUpTo find decode fuel buf = drain find decode buf := by
  intro fuel
  induction fuel using Nat.strong_induction_on with
  | _ fuel ih =>
      intro buf hle
      cases hf : find buf with
      | none => cases fuel <;> cases hb : buf.length <;> simp [drain, drainUpTo, hf, hb]
      | some r =>
          rcases r with ⟨pos, len⟩
          obtain ⟨hpos, hlen⟩ := h.bounds hf
          obtain ⟨n, rfl⟩ : ∃ n, fuel = n + 1 := ⟨fuel - 1, by omega⟩
          obtain ⟨m, hm⟩ : ∃ m, buf.length = m + 1 := ⟨buf.length - 1, by omega⟩
          -- every frame takes at least one byte, so what is left needs less fuel
          have hrest : (buf.drop (pos + len)).length ≤ m := by
            rw [List.length_drop]; omega
          have hn := ih n (Nat.lt_succ_self n) _ (Nat.le_trans hrest (by omega))
          have hd : drainUpTo find decode m (buf.drop (pos + len)) =
              drain find decode (buf.drop (pos + len)) := by
            rcases Nat.lt_or_ge m (n + 1) with hlt | hge
            · exact ih m hlt _ hrest
            · have : m = n := by omega
              rw [this, hn]
          simp only [drain, hm, drainUpTo, hf, hn, hd]

theorem drain_of_none {buf : List α} (hf : find buf = none) :
    drain find decode buf = ([], buf) := by
  rw [drain]
  cases buf.length <;> simp [drainUpTo, hf]

theorem drain_of_some (h : Framer find) {buf : List α} {pos len : Nat}
    (hf : find buf = some (pos, len)) :
    drain find decode buf =
      ((decode (buf.take pos)).toList ++ (drain find decode (buf.drop (pos + len))).1,
        (drain find decode (buf.drop (pos + len))).2) := by
  obtain ⟨hpos, hlen⟩ := h.bounds hf
  obtain ⟨m, hm⟩ : ∃ m, buf.length = m + 1 := ⟨buf.length - 1, by omega⟩
  have hrest : (buf.drop (pos + len)).length ≤ m := by
    rw [List.length_drop]; omega
  conv_lhs => rw [drain, hm]
  simp only [drainUpTo, hf]
  rw [drainUpTo_eq_drain decode h m _ hrest]

/-- **Draining in two steps.** Draining a buffer, then appending more input to
the rest and draining again, gives what draining the whole input gives. -/
theorem drain_append (h : Framer find) (buf more : List α) :
    drain find decode (buf ++ more) =
      ((drain find decode buf).1 ++ (drain find decode ((drain find decode buf).2 ++ more)).1,
        (drain find decode ((drain find decode buf).2 ++ more)).2) := by
  -- on the length of the buffer: each frame cut off leaves a shorter one
  induction hn : buf.length using Nat.strong_induction_on generalizing buf with
  | _ n ih =>
      subst hn
      cases hf : find buf with
      | none => simp [drain_of_none decode hf]
      | some r =>
          rcases r with ⟨pos, len⟩
          obtain ⟨hpos, hlen⟩ := h.bounds hf
          have htake : (buf ++ more).take pos = buf.take pos :=
            List.take_append_of_le_length (by omega)
          have hdrop : (buf ++ more).drop (pos + len) = buf.drop (pos + len) ++ more :=
            List.drop_append_of_le_length (by omega)
          have hlt : (buf.drop (pos + len)).length < buf.length := by
            rw [List.length_drop]; omega
          rw [drain_of_some decode h (h.stable hf more), drain_of_some decode h hf, htake, hdrop,
            ih _ hlt (buf.drop (pos + len)) rfl]
          simp

/-- The rest left by a drain holds no further frame. -/
theorem drain_drain (h : Framer find) (buf : List α) :
    drain find decode (drain find decode buf).2 = ([], (drain find decode buf).2) := by
  have key := drain_append decode h buf []
  simp only [List.append_nil] at key
  have hitems : (drain find decode (drain find decode buf).2).1 = [] := by
    have := congrArg (fun r => r.1.length) key
    simp only [List.length_append] at this
    exact List.length_eq_zero_iff.mp (by omega)
  exact Prod.ext hitems (congrArg Prod.snd key).symm

/-- Feeding chunks to a drained buffer drains the whole input. -/
theorem feed_eq_drain (h : Framer find) :
    ∀ (chunks : List (List α)) (buf : List α), drain find decode buf = ([], buf) →
      feed find decode buf chunks = drain find decode (buf ++ chunks.flatten) := by
  intro chunks
  induction chunks with
  | nil => intro buf hbuf; simp [feed, hbuf]
  | cons c cs ih =>
      intro buf hbuf
      have hrest := drain_drain decode h (buf ++ c)
      rw [feed, push, ih _ hrest, List.flatten_cons, ← List.append_assoc,
        drain_append decode h (buf ++ c) cs.flatten]

/-- **Chunk invariance.** Two ways of cutting one input into chunks give the
same frames and leave the same rest. -/
theorem feed_eq_of_flatten_eq (h : Framer find) {chunks chunks' : List (List α)}
    (buf : List α) (hbuf : drain find decode buf = ([], buf))
    (heq : chunks.flatten = chunks'.flatten) :
    feed find decode buf chunks = feed find decode buf chunks' := by
  rw [feed_eq_drain decode h chunks buf hbuf, feed_eq_drain decode h chunks' buf hbuf, heq]

end Laws

end AiApiBridge.Framing
