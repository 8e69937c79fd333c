import AiApiBridge.Lib.CallLog
import AiApiBridge.Lib.TreeMaps

/-!
# Live calls in a map

A consumer of streamed calls may keep the live calls of its log in a map by index
(`HeldCalls`). `Agrees c t` says that the entry `t` is right about the call `c`, and
`next` bounds the tags in use. Opening, continuing and closing a call keep the map and
the log together.
-/

set_option autoImplicit false

namespace AiApiBridge

/-- The live calls of the log are the entries of the map. -/
structure HeldCalls {τ : Type} (Agrees : LoggedCall → τ → Prop) (tools : Std.ExtTreeMap Nat τ)
    (next : Nat) (log : List LoggedCall) : Prop where
  live : ∀ c ∈ log, c.live = true → ∃ t, tools[c.index]? = some t ∧ Agrees c t
  only : ∀ i t, tools[i]? = some t → ∃ c ∈ log, c.index = i ∧ c.live = true
  bound : ∀ c ∈ log, c.tag < next
  tags : (log.map LoggedCall.tag).Nodup
  indices : (log.map LoggedCall.index).Nodup

namespace HeldCalls

variable {τ : Type} {Agrees : LoggedCall → τ → Prop} {tools : Std.ExtTreeMap Nat τ} {next : Nat}
  {log : List LoggedCall}

/-! ## The call of an entry -/

theorem owner (h : HeldCalls Agrees tools next log) {i : Nat} {t : τ} (ht : tools[i]? = some t) :
    ∃ d ∈ log, d.index = i ∧ d.live = true ∧ Agrees d t := by
  obtain ⟨d, hd, rfl, hl⟩ := h.only i t ht
  obtain ⟨t', ht', hagrees⟩ := h.live d hd hl
  obtain rfl : t' = t := Option.some.inj (ht'.symm.trans ht)
  exact ⟨d, hd, rfl, hl, hagrees⟩

theorem eq_of_index (h : HeldCalls Agrees tools next log) {c d : LoggedCall} (hc : c ∈ log)
    (hd : d ∈ log) (hindex : c.index = d.index) : c = d :=
  List.inj_on_of_nodup_map h.indices hc hd hindex

theorem eq_of_tag (h : HeldCalls Agrees tools next log) {c d : LoggedCall} (hc : c ∈ log)
    (hd : d ∈ log) (htag : c.tag = d.tag) : c = d :=
  List.inj_on_of_nodup_map h.tags hc hd htag

theorem not_live_of_none (h : HeldCalls Agrees tools next log) {i : Nat} (hi : tools[i]? = none)
    {c : LoggedCall} (hc : c ∈ log) (hindex : c.index = i) : c.live = false := by
  by_contra hl
  obtain ⟨t, ht, -⟩ := h.live c hc (by simpa using hl)
  rw [hindex, hi] at ht
  cases ht

/-- Text under an index that is not held reaches no call. -/
theorem appendArgs_eq_self (h : HeldCalls Agrees tools next log) {i : Nat}
    (hi : tools[i]? = none) (delta : String) : log.map (LoggedCall.appendArgs i delta) = log := by
  refine (List.map_congr_left fun c hc => ?_).trans (List.map_id log)
  have hdead : ¬ (c.index = i ∧ c.live = true) := by
    rintro ⟨hindex, hl⟩
    rw [h.not_live_of_none hi hc hindex] at hl
    cases hl
  simp [LoggedCall.appendArgs, hdead]

/-- The end of an index that is not held ends no call. -/
theorem finish_eq_self (h : HeldCalls Agrees tools next log) {i : Nat} (hi : tools[i]? = none) :
    log.map (LoggedCall.finish i) = log := by
  refine (List.map_congr_left fun c hc => ?_).trans (List.map_id log)
  by_cases hindex : c.index = i
  · have hl := h.not_live_of_none hi hc hindex
    rcases c with ⟨index, tag, args, live⟩
    simp_all [LoggedCall.finish]
  · simp [LoggedCall.finish, hindex]

/-! ## Operations -/

/-- A call is opened under a new index. -/
theorem fresh (h : HeldCalls Agrees tools next log) {i : Nat} (hi : i ∉ log.map LoggedCall.index)
    {t : τ} (hagrees : Agrees (.fresh i next) t) :
    HeldCalls Agrees (tools.insert i t) (next + 1) (log ++ [.fresh i next]) where
  live := by
    intro c hc hl
    rcases List.mem_append.1 hc with hc | hc
    · obtain ⟨t', ht', hagrees'⟩ := h.live c hc hl
      -- the new entry is not under the index of an older call
      have hne : i ≠ c.index := fun heq => hi (heq ▸ List.mem_map_of_mem hc)
      exact ⟨t', by simpa [Std.ExtTreeMap.getElem?_insert, hne] using ht', hagrees'⟩
    · rw [List.mem_singleton.1 hc]
      exact ⟨t, by simp [LoggedCall.fresh], hagrees⟩
  only := by
    intro j t' ht'
    by_cases hj : i = j
    · exact ⟨.fresh i next, by simp, hj, rfl⟩
    · simp only [Std.ExtTreeMap.getElem?_insert, Nat.compare_eq_eq, hj, if_false] at ht'
      obtain ⟨c, hc, hindex, hl⟩ := h.only j t' ht'
      exact ⟨c, List.mem_append_left _ hc, hindex, hl⟩
  bound := by
    intro c hc
    rcases List.mem_append.1 hc with hc | hc
    · exact Nat.lt_succ_of_lt (h.bound c hc)
    · rw [List.mem_singleton.1 hc]
      exact Nat.lt_succ_self next
  tags := by
    rw [List.map_append, List.nodup_append]
    refine ⟨h.tags, by simp, ?_⟩
    intro n hn m hm
    obtain ⟨c, hc, rfl⟩ := List.mem_map.1 hn
    have hlt := h.bound c hc
    simp only [LoggedCall.fresh, List.map_cons, List.map_nil, List.mem_singleton] at hm
    omega
  indices := by
    rw [List.map_append, List.nodup_append]
    refine ⟨h.indices, by simp, ?_⟩
    intro n hn m hm
    simp only [LoggedCall.fresh, List.map_cons, List.map_nil, List.mem_singleton] at hm
    rintro rfl
    exact hi (hm ▸ hn)

/-- Text is appended to the call that is held under an index. -/
theorem append (h : HeldCalls Agrees tools next log) {i : Nat} {t : τ}
    (ht : tools[i]? = some t) (t' : τ) (delta : String)
    (hagrees : ∀ c, c.index = i → c.live = true → Agrees c t → Agrees (c.appendArgs i delta) t') :
    HeldCalls Agrees (tools.insert i t') next (log.map (LoggedCall.appendArgs i delta)) where
  live := by
    intro _ hmem hl
    obtain ⟨c, hc, rfl⟩ := List.mem_map.1 hmem
    rw [LoggedCall.appendArgs_live] at hl
    obtain ⟨t₁, ht₁, hagrees₁⟩ := h.live c hc hl
    by_cases hi : c.index = i
    · rw [hi] at ht₁
      obtain rfl : t₁ = t := Option.some.inj (ht₁.symm.trans ht)
      exact ⟨t', by simp [hi], hagrees c hi hl hagrees₁⟩
    · -- the other calls stay as they are
      have hsame : c.appendArgs i delta = c := by simp [LoggedCall.appendArgs, hi]
      have hne : i ≠ c.index := fun heq => hi heq.symm
      rw [hsame]
      exact ⟨t₁, by simpa [Std.ExtTreeMap.getElem?_insert, hne] using ht₁, hagrees₁⟩
  only := by
    intro j t₁ ht₁
    have hheld : ∃ t₂, tools[j]? = some t₂ := by
      by_cases hj : i = j
      · exact ⟨t, hj ▸ ht⟩
      · exact ⟨t₁, by simpa [Std.ExtTreeMap.getElem?_insert, hj] using ht₁⟩
    rcases hheld with ⟨t₂, ht₂⟩
    obtain ⟨c, hc, hindex, hl⟩ := h.only j t₂ ht₂
    exact ⟨_, List.mem_map_of_mem hc, by simpa using hindex, by simpa using hl⟩
  bound := by
    intro _ hmem
    obtain ⟨c, hc, rfl⟩ := List.mem_map.1 hmem
    simpa using h.bound c hc
  tags := by simpa [Function.comp_def] using h.tags
  indices := by simpa [Function.comp_def] using h.indices

/-- The call under an index is closed. -/
theorem finish (h : HeldCalls Agrees tools next log) (i : Nat) :
    HeldCalls Agrees (tools.erase i) next (log.map (LoggedCall.finish i)) where
  live := by
    intro _ hmem hl
    obtain ⟨c, hc, rfl⟩ := List.mem_map.1 hmem
    rw [LoggedCall.finish_live, Bool.and_eq_true, decide_eq_true_eq] at hl
    obtain ⟨t, ht, hagrees⟩ := h.live c hc hl.1
    -- a call that is live afterwards has another index
    have hsame : c.finish i = c := by simp [LoggedCall.finish, hl.2]
    have hne : i ≠ c.index := fun heq => hl.2 heq.symm
    rw [hsame]
    exact ⟨t, by simpa [Std.ExtTreeMap.getElem?_erase, hne] using ht, hagrees⟩
  only := by
    intro j t ht
    have hj : i ≠ j := by
      rintro rfl
      simp at ht
    simp only [Std.ExtTreeMap.getElem?_erase, Nat.compare_eq_eq, hj, if_false] at ht
    obtain ⟨c, hc, hindex, hl⟩ := h.only j t ht
    refine ⟨_, List.mem_map_of_mem hc, by simpa using hindex, ?_⟩
    rw [LoggedCall.finish_live, hl, hindex]
    simpa using hj.symm
  bound := by
    intro _ hmem
    obtain ⟨c, hc, rfl⟩ := List.mem_map.1 hmem
    simpa using h.bound c hc
  tags := by simpa [Function.comp_def] using h.tags
  indices := by simpa [Function.comp_def] using h.indices

end HeldCalls

end AiApiBridge
