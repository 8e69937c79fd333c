import AiApiBridge.Lib.Splits

/-!
# Logs of streamed calls

Calls are streamed as argument fragments, each under the index of its call, with
finish marks in between. A log opens a call at the first fragment of its index,
appends to a call while it is live, and closes all calls at a finish mark. A
closed call is not opened again, so a fragment that comes after the finish mark
of its call is lost.

`Tracks` relates a log to the word it has read, and `Tracks.args_eq_iff` says
that no argument text is missing from the log exactly when no fragment is late.
-/

set_option autoImplicit false

namespace AiApiBridge

/-- One symbol of a stream of calls. -/
inductive CallAtom where
  | fragment (index : Nat) (args : String)
  | finish
  deriving DecidableEq, Repr

namespace CallAtom

/-- The indices that occur, in the order of their first fragments. -/
def noteIndex (seen : List Nat) : CallAtom → List Nat
  | fragment i _ => if i ∈ seen then seen else seen ++ [i]
  | finish => seen

def occurring (w : List CallAtom) : List Nat := w.foldl noteIndex []

/-- The argument text a symbol carries for an index. -/
def argsFor (i : Nat) : CallAtom → String
  | fragment j args => if j = i then args else ""
  | finish => ""

/-- All argument text sent under an index. -/
def sent (i : Nat) (w : List CallAtom) : String := String.join (w.map (argsFor i))

/-- A finish mark has come after the first fragment of the index. -/
def Finished (i : Nat) (w : List CallAtom) : Prop :=
  ∃ before after, w = before ++ .finish :: after ∧ i ∈ occurring before

/-- A fragment with text has come after the index was finished. -/
def Late (i : Nat) (w : List CallAtom) : Prop :=
  ∃ before args after, w = before ++ .fragment i args :: after ∧ args ≠ "" ∧ Finished i before

@[simp] theorem occurring_nil : occurring [] = [] := rfl

@[simp] theorem occurring_snoc (w : List CallAtom) (a : CallAtom) :
    occurring (w ++ [a]) = noteIndex (occurring w) a := by
  simp [occurring, List.foldl_append]

theorem mem_noteIndex {seen : List Nat} {a : CallAtom} {i : Nat} :
    i ∈ noteIndex seen a ↔ i ∈ seen ∨ ∃ args, a = .fragment i args := by
  cases a with
  | fragment j args =>
      by_cases hj : j ∈ seen
      · simp only [noteIndex, hj, if_true, fragment.injEq, exists_and_left, exists_eq', and_true]
        exact ⟨Or.inl, fun h => h.elim id fun h => h ▸ hj⟩
      · simp [noteIndex, hj, eq_comm]
  | finish => simp [noteIndex]

@[simp] theorem sent_nil (i : Nat) : sent i [] = "" := by simp [sent]

@[simp] theorem sent_snoc (i : Nat) (w : List CallAtom) (a : CallAtom) :
    sent i (w ++ [a]) = sent i w ++ argsFor i a := by
  simp [sent]

/-- Nothing is sent under an index that does not occur. -/
theorem sent_of_not_mem {i : Nat} {w : List CallAtom} (h : i ∉ occurring w) : sent i w = "" := by
  induction w using List.reverseRecOn with
  | nil => simp
  | append_singleton w a ih =>
      rw [occurring_snoc, mem_noteIndex, not_or, not_exists] at h
      rw [sent_snoc, ih h.1]
      cases a with
      | fragment j args =>
          have hne : j ≠ i := fun heq => h.2 args (by rw [heq])
          simp [argsFor, hne]
      | finish => simp [argsFor]

@[simp] theorem not_finished_nil (i : Nat) : ¬ Finished i [] := by
  rintro ⟨before, after, h, -⟩
  simp at h

theorem finished_snoc {i : Nat} {w : List CallAtom} {a : CallAtom} :
    Finished i (w ++ [a]) ↔ Finished i w ∨ (a = .finish ∧ i ∈ occurring w) := by
  constructor
  · rintro ⟨before, after, h, hmem⟩
    rcases split_append_singleton h with ⟨rfl, rfl, rfl⟩ | ⟨after', rfl, rfl⟩
    · exact Or.inr ⟨rfl, hmem⟩
    · exact Or.inl ⟨before, after', rfl, hmem⟩
  · rintro (⟨before, after, rfl, hmem⟩ | ⟨rfl, hmem⟩)
    · exact ⟨before, after ++ [a], by simp, hmem⟩
    · exact ⟨w, [], rfl, hmem⟩

@[simp] theorem not_late_nil (i : Nat) : ¬ Late i [] := by
  rintro ⟨before, args, after, h, -⟩
  simp at h

theorem late_snoc {i : Nat} {w : List CallAtom} {a : CallAtom} :
    Late i (w ++ [a]) ↔ Late i w ∨ ∃ args, a = .fragment i args ∧ args ≠ "" ∧ Finished i w := by
  constructor
  · rintro ⟨before, args, after, h, hne, hfin⟩
    rcases split_append_singleton h with ⟨rfl, rfl, rfl⟩ | ⟨after', rfl, rfl⟩
    · exact Or.inr ⟨args, rfl, hne, hfin⟩
    · exact Or.inl ⟨before, args, after', rfl, hne, hfin⟩
  · rintro (⟨before, args, after, rfl, hne, hfin⟩ | ⟨args, rfl, hne, hfin⟩)
    · exact ⟨before, args, after ++ [a], by simp, hne, hfin⟩
    · exact ⟨w, args, [], rfl, hne, hfin⟩

/-- A finished index occurs. -/
theorem Finished.mem_occurring {i : Nat} {w : List CallAtom} (h : Finished i w) :
    i ∈ occurring w := by
  induction w using List.reverseRecOn with
  | nil => exact absurd h (not_finished_nil i)
  | append_singleton w a ih =>
      rw [occurring_snoc, mem_noteIndex]
      rcases finished_snoc.1 h with h | h
      · exact Or.inl (ih h)
      · exact Or.inl h.2

end CallAtom

/-! ## The log -/

open CallAtom

/-- A call of the log. `tag` is what the log's owner names it by. -/
structure LoggedCall where
  index : Nat
  tag : Nat
  args : String
  live : Bool
  deriving DecidableEq, Repr

namespace LoggedCall

/-- A call that has just been opened. -/
def fresh (index tag : Nat) : LoggedCall := ⟨index, tag, "", true⟩

/-- Append to the live call of an index. -/
def appendArgs (i : Nat) (args : String) (c : LoggedCall) : LoggedCall :=
  if c.index = i ∧ c.live then { c with args := c.args ++ args } else c

/-- Close the call of an index. -/
def finish (i : Nat) (c : LoggedCall) : LoggedCall :=
  if c.index = i then { c with live := false } else c

@[simp] theorem appendArgs_index (i : Nat) (args : String) (c : LoggedCall) :
    (c.appendArgs i args).index = c.index := by
  rw [appendArgs]
  split <;> rfl

@[simp] theorem appendArgs_tag (i : Nat) (args : String) (c : LoggedCall) :
    (c.appendArgs i args).tag = c.tag := by
  rw [appendArgs]
  split <;> rfl

@[simp] theorem appendArgs_live (i : Nat) (args : String) (c : LoggedCall) :
    (c.appendArgs i args).live = c.live := by
  rw [appendArgs]
  split <;> rfl

@[simp] theorem finish_index (i : Nat) (c : LoggedCall) : (c.finish i).index = c.index := by
  rw [finish]
  split <;> rfl

@[simp] theorem finish_tag (i : Nat) (c : LoggedCall) : (c.finish i).tag = c.tag := by
  rw [finish]
  split <;> rfl

@[simp] theorem finish_args (i : Nat) (c : LoggedCall) : (c.finish i).args = c.args := by
  rw [finish]
  split <;> rfl

theorem finish_live (i : Nat) (c : LoggedCall) :
    (c.finish i).live = (c.live && decide (c.index ≠ i)) := by
  rw [finish]
  split <;> simp_all

/-- Closing several calls in a row. -/
theorem foldl_finish (is : List Nat) (c : LoggedCall) :
    is.foldl (fun c i => c.finish i) c = { c with live := c.live && decide (c.index ∉ is) } := by
  induction is generalizing c with
  | nil => simp
  | cons i is ih =>
      rw [List.foldl_cons, ih]
      rcases c with ⟨index, tag, args, live⟩
      by_cases h : index = i <;> simp [finish, h]

end LoggedCall

/-- The log after the first fragment of an index, or a later one. -/
def logFragment (log : List LoggedCall) (tag i : Nat) (args : String) : List LoggedCall :=
  (if i ∈ log.map LoggedCall.index then log else log ++ [.fresh i tag]).map
    (LoggedCall.appendArgs i args)

/-- The log after a finish mark. -/
def logFinish (log : List LoggedCall) : List LoggedCall :=
  log.map fun c => { c with live := false }

/-- What a call of the log knows of the word read. -/
structure CallState (w : List CallAtom) (c : LoggedCall) : Prop where
  live_iff : c.live = true ↔ ¬ Finished c.index w
  complete : ¬ Late c.index w → c.args = sent c.index w
  lost : Late c.index w → c.args.length < (sent c.index w).length

theorem CallState.length_le {w : List CallAtom} {c : LoggedCall} (h : CallState w c) :
    c.args.length ≤ (sent c.index w).length := by
  by_cases hl : Late c.index w
  · exact Nat.le_of_lt (h.lost hl)
  · exact Nat.le_of_eq (congrArg String.length (h.complete hl))

/-- The log that has read a word. -/
structure Tracks (w : List CallAtom) (log : List LoggedCall) : Prop where
  indices : log.map LoggedCall.index = occurring w
  state : ∀ c ∈ log, CallState w c

theorem tracks_nil : Tracks [] [] where
  indices := rfl
  state := by simp

/-- A fragment reaches a call that is live, and only such a call. -/
theorem CallState.fragment {w : List CallAtom} {c : LoggedCall} (h : CallState w c) (i : Nat)
    (args : String) : CallState (w ++ [.fragment i args]) (c.appendArgs i args) := by
  rcases h with ⟨hlive, hcomplete, hlost⟩
  have hfin : Finished c.index (w ++ [.fragment i args]) ↔ Finished c.index w := by
    simp [finished_snoc]
  have hlate : Late c.index (w ++ [.fragment i args]) ↔
      Late c.index w ∨ (i = c.index ∧ args ≠ "" ∧ Finished c.index w) := by
    simp [late_snoc]
  by_cases hi : c.index = i
  · subst hi
    by_cases hl : c.live = true
    · -- the call is live: it takes the fragment
      have hnf := hlive.1 hl
      have happ : c.appendArgs c.index args = { c with args := c.args ++ args } := by
        simp [LoggedCall.appendArgs, hl]
      refine ⟨?_, ?_, ?_⟩
      · rw [LoggedCall.appendArgs_live, LoggedCall.appendArgs_index, hfin, hlive]
      · rw [LoggedCall.appendArgs_index, hlate]
        intro hn
        simp [happ, argsFor, hcomplete fun hl => hn (Or.inl hl)]
      · rw [LoggedCall.appendArgs_index, hlate]
        rintro (hl | ⟨-, -, hf⟩)
        · simp [happ, argsFor, hlost hl]
        · exact absurd hf hnf
    · -- the call is closed: the fragment is lost, which shows when it has text
      have hf : Finished c.index w := by
        by_contra hn
        exact hl (hlive.2 hn)
      have happ : c.appendArgs c.index args = c := by simp [LoggedCall.appendArgs, hl]
      rw [happ]
      refine ⟨by rw [hfin, hlive], ?_, ?_⟩
      · rw [hlate]
        intro hn
        have hargs : args = "" := by
          by_contra hne
          exact hn (Or.inr ⟨rfl, hne, hf⟩)
        simp [argsFor, hargs, hcomplete fun hl => hn (Or.inl hl)]
      · rw [hlate]
        have hle := CallState.length_le ⟨hlive, hcomplete, hlost⟩
        rintro (hl | ⟨-, hne, -⟩)
        · have := hlost hl
          simp only [sent_snoc, String.length_append]
          omega
        · have hpos : 0 < args.length :=
            Nat.pos_of_ne_zero fun h0 => hne (String.length_eq_zero_iff.1 h0)
          simp only [sent_snoc, argsFor, if_true, String.length_append]
          omega
  · have happ : c.appendArgs i args = c := by simp [LoggedCall.appendArgs, hi]
    have hne : i ≠ c.index := fun heq => hi heq.symm
    rw [happ]
    refine ⟨by rw [hfin, hlive], ?_, ?_⟩
    · rw [hlate]
      intro hn
      simp [argsFor, hne, hcomplete fun hl => hn (Or.inl hl)]
    · rw [hlate]
      rintro (hl | ⟨heq, -, -⟩)
      · simpa [argsFor, hne] using hlost hl
      · exact absurd heq hne

/-- The state of a call opened by the next fragment. -/
theorem callState_fresh {w : List CallAtom} {i : Nat} (h : i ∉ occurring w) (tag : Nat) :
    CallState w (.fresh i tag) where
  live_iff := by
    simp only [LoggedCall.fresh, true_iff]
    exact fun hf => h hf.mem_occurring
  complete := fun _ => by simp [LoggedCall.fresh, sent_of_not_mem h]
  lost := by
    rintro ⟨before, args, after, rfl, -, hf⟩
    exfalso
    apply h
    have hmono : ∀ (w' : List CallAtom) seen, i ∈ seen → i ∈ w'.foldl noteIndex seen := by
      intro w'
      induction w' with
      | nil => exact fun _ h => h
      | cons a w' ih => exact fun seen h => ih _ (mem_noteIndex.2 (Or.inl h))
    rw [occurring, List.foldl_append]
    exact hmono _ _ hf.mem_occurring

/-- **A fragment.** -/
theorem Tracks.fragment {w : List CallAtom} {log : List LoggedCall} (h : Tracks w log)
    (tag i : Nat) (args : String) : Tracks (w ++ [.fragment i args]) (logFragment log tag i args) where
  indices := by
    rw [logFragment, List.map_map, occurring_snoc, ← h.indices]
    by_cases hi : i ∈ log.map LoggedCall.index <;>
      simp [hi, noteIndex, Function.comp_def, LoggedCall.fresh]
  state := by
    intro c hc
    obtain ⟨c', hc', rfl⟩ := List.mem_map.1 hc
    refine CallState.fragment ?_ i args
    split at hc'
    · exact h.state c' hc'
    · rename_i hi
      rcases List.mem_append.1 hc' with hc' | hc'
      · exact h.state c' hc'
      · rw [List.mem_singleton.1 hc']
        exact callState_fresh (by rwa [← h.indices]) tag

/-- **A finish mark.** -/
theorem Tracks.finish {w : List CallAtom} {log : List LoggedCall} (h : Tracks w log) :
    Tracks (w ++ [.finish]) (logFinish log) where
  indices := by simpa [logFinish, noteIndex, Function.comp_def] using h.indices
  state := by
    intro c hc
    obtain ⟨c', hc', rfl⟩ := List.mem_map.1 hc
    have hocc : c'.index ∈ occurring w := by
      rw [← h.indices]
      exact List.mem_map_of_mem hc'
    obtain ⟨-, hcomplete, hlost⟩ := h.state c' hc'
    refine ⟨?_, ?_, ?_⟩
    · simp [finished_snoc, hocc]
    · simpa [late_snoc, argsFor] using hcomplete
    · simpa [late_snoc, argsFor] using hlost

/-- **What is lost.** All argument text is in the log exactly when no fragment
came late. -/
theorem Tracks.args_eq_iff {w : List CallAtom} {log : List LoggedCall} (h : Tracks w log) :
    log.map LoggedCall.args = (occurring w).map (fun i => sent i w) ↔ ∀ i, ¬ Late i w := by
  rw [← h.indices, List.map_map, List.map_inj_left]
  constructor
  · intro hall i hlate
    have hocc : i ∈ log.map LoggedCall.index := by
      rw [h.indices]
      by_contra hn
      exact absurd ((callState_fresh hn 0).lost hlate) (by simp [LoggedCall.fresh, sent_of_not_mem hn])
    obtain ⟨c, hc, rfl⟩ := List.mem_map.1 hocc
    have := (h.state c hc).lost hlate
    rw [hall c hc] at this
    exact absurd this (Nat.lt_irrefl _)
  · intro hnone c hc
    exact (h.state c hc).complete (hnone c.index)

end AiApiBridge
