import AiApiBridge.Lib.Latest
import AiApiBridge.Lifecycle

/-!
# Concurrent updates of one provider

An update without a key writes the key back that it has read, one statement after
reading it and in no transaction. A key that another update commits in between is
lost. The stored key is the one supplied last in every state of a schedule exactly
when no update without a key commits after the supplied key has changed behind its
back (`keysKept_iff`).
-/

set_option autoImplicit false

namespace AiApiBridge

open Store Refresh Admin

/-- The key stored for a provider. -/
def storedKey (name : String) (db : Database) : Option String :=
  (db.providers.get? name).bind ProviderRow.apiKey

/-- The key that an update supplies; none when it is blank or omitted. -/
def suppliedKey (input : ProviderInput) : Option String := nonEmpty input.apiKey

/-- Whether an access has committed a write. -/
def Refresh.Event.isCommitted {τ : Type} : Event τ → Bool
  | .committed _ => true
  | _ => false

section Observer

variable {ι : Type} [DecidableEq ι]

/-- The key that a committed update supplies. -/
def committedKey (supplied : ι → Option String) (e : ι × Event Table) : Option String :=
  if e.2.isCommitted then supplied e.1 else none

/-- The key of the last committed update that supplied one, or else the original. -/
def lastSupplied (supplied : ι → Option String) (original : Option String)
    (trace : List (ι × Event Table)) : Option String :=
  (latest (committedKey supplied) trace).or original

/-- What an observer of the updates keeps: the last key supplied, and what it was at
the latest access of each update. -/
structure KeyNotes (ι : Type) where
  last : Option String
  seen : ι → Option String

/-- Take note of an access. -/
def noteKey (supplied : ι → Option String) (m : KeyNotes ι) (e : ι × Event Table) : KeyNotes ι where
  last := (committedKey supplied e).or m.last
  seen := Function.update m.seen e.1 m.last

/-- An update without a key commits while the key supplied last is still the one of
its access before, the read. -/
def KeyStands (supplied : ι → Option String) (m : KeyNotes ι) (e : ι × Event Table) : Prop :=
  e.2.isCommitted = true → supplied e.1 = none → m.seen e.1 = m.last

instance (supplied : ι → Option String) (m : KeyNotes ι) (e : ι × Event Table) :
    Decidable (KeyStands supplied m e) :=
  inferInstanceAs (Decidable (_ → _ → _))

theorem last_foldl_noteKey (supplied : ι → Option String) (trace : List (ι × Event Table))
    (m : KeyNotes ι) :
    (trace.foldl (noteKey supplied) m).last = lastSupplied supplied m.last trace := by
  induction trace generalizing m with
  | nil => rfl
  | cons e trace ih =>
      rw [List.foldl_cons, ih, lastSupplied, lastSupplied, latest_cons_or]
      rfl

end Observer

/-! ## The accesses of an update -/

section Stages

variable {α : Type} (name : String) (supplied : Option String)

/-- An access that writes nothing. -/
def Idle (act : AppState → AppState × Event Table) : Prop :=
  ∀ s, (act s).1.db = s.db ∧ (act s).2.isCommitted = false

/-- Nothing is written any more. -/
def Behind : Task AppState (Event Table) α → Prop
  | .done _ => True
  | .access act rest => Idle act ∧ ∀ s, Behind (rest s)

/-- The next access is the statement, if anything, and it leaves this key. -/
def Writing (key : Option String) : Task AppState (Event Table) α → Prop
  | .done _ => True
  | .access act rest =>
      (∀ s, ((act s).1.db = s.db ∧ (act s).2.isCommitted = false) ∨
        (storedKey name (act s).1.db = key ∧ (act s).2.isCommitted = true)) ∧
      ∀ s, Behind (rest s)

/-- The next access reads the stored key, to write it back when none is supplied. -/
def Reading : Task AppState (Event Table) α → Prop
  | .done _ => True
  | .access act rest =>
      Idle act ∧ ∀ s, Writing name (supplied.or (storedKey name s.db)) (rest s)

/-- The next access takes the snapshot. -/
def Entering : Task AppState (Event Table) α → Prop
  | .done _ => True
  | .access act rest => Idle act ∧ ∀ s, Reading name supplied (rest s)

variable {name supplied}

theorem Behind.bind {β : Type} {t : Task AppState (Event Table) α}
    {k : α → Task AppState (Event Table) β} (h : Behind t) (hk : ∀ a, Behind (k a)) :
    Behind (t.bind k) := by
  induction t with
  | done a => exact hk a
  | access act rest ih => exact ⟨h.1, fun s => ih s (h.2 s)⟩

/-- The same for attempts. -/
theorem Behind.attempt {ε β γ : Type} {t : Handler ε β} {k : β → Handler ε γ} (h : Behind t)
    (hk : ∀ b, Behind (k b)) : Behind (t >>= k : Handler ε γ) := by
  apply Behind.bind h
  intro r
  cases r with
  | error e => trivial
  | ok b => exact hk b

theorem behind_select {ε β : Type} (t : Table) (decode : t.Rows → Except ε β) :
    Behind (select t decode) :=
  ⟨fun _ => ⟨rfl, rfl⟩, fun _ => trivial⟩

/-- A reload writes nothing. -/
theorem behind_reloadFromDb (host : Host) : Behind (reloadFromDb host) := by
  apply Behind.attempt (t := Attempt.lift _) trivial
  intro _
  refine Behind.attempt (t := config) ⟨fun _ => ⟨rfl, rfl⟩, fun _ => trivial⟩ fun cfg => ?_
  refine Behind.attempt (Behind.bind ?_ fun _ => trivial) fun cfg' => ?_
  · apply (behind_select _ _).attempt
    intro providers
    apply (behind_select _ _).attempt
    intro routes
    exact (behind_select _ _).attempt fun fallbackRoute => trivial
  · exact ⟨fun _ => ⟨rfl, rfl⟩, fun _ => trivial⟩

theorem apiKey_normalizeUsage (p : Provider) : p.normalizeUsage.apiKey = p.apiKey := by
  rw [Provider.normalizeUsage]
  split <;> rfl

/-- The key of a provider that is built: the supplied one, or else the existing one. -/
theorem apiKey_intoProvider {input : ProviderInput} {existing : Option String} {p : Provider}
    (h : input.intoProvider existing = .ok p) :
    p.apiKey = (suppliedKey input).or existing := by
  rw [ProviderInput.intoProvider] at h
  split at h
  · cases h
  · simp only at h
    split at h
    · cases h
    · cases h
      exact apiKey_normalizeUsage _

theorem apiKey_rowToProvider {c : Columns} {r : ProviderRow} {p : Provider}
    (h : rowToProvider c r = .ok p) : p.apiKey = r.apiKey := by
  rw [rowToProvider] at h
  split at h
  · cases h
  · cases h
    exact apiKey_normalizeUsage _

/-- The statement leaves the key of the provider it is given. -/
theorem writing_updateProvider {host : Host} {p : Provider} (v : Value) :
    Writing name p.apiKey
      (Store.updateProvider host name p >>= fun _ => reloadFromDb host >>= fun _ => pure v :
        Handler BridgeError Value) := by
  refine ⟨fun s => ?_, fun s => ?_⟩
  · by_cases hmem : name ∈ s.db.providers.keys
    · refine .inr ⟨?_, by simp [Database.updateProvider, providerRow, hmem, Event.isCommitted]⟩
      -- the row is there, and is replaced as a whole
      have hget := KeyedTable.get?_modify s.db.providers (providerRow host.columns name p) name
      rw [if_pos ⟨rfl, hmem⟩] at hget
      exact congrArg (fun row => row.bind ProviderRow.apiKey) hget
    · refine .inl ⟨?_, by simp [Database.updateProvider, providerRow, hmem, Event.isCommitted]⟩
      -- no row of that name: nothing changes
      have hframes : Frames host [.providers]
          (Database.updateProvider (providerRow host.columns name p)) := frames_updateProvider _
      exact (hframes s.db _ _ rfl).1 (by simp [providerRow, hmem])
  · show Behind (reloadFromDb host >>= fun _ => pure v : Handler BridgeError Value)
    exact (behind_reloadFromDb host).attempt fun _ => trivial

/-! A check in front passes the stage on, and an access moves to the next one. -/

section Rules

variable {ε β γ : Type} {act : AppState → AppState × Event Table}
  {result : AppState → Except ε β} {k : β → Handler ε γ}

theorem writing_lift {x : Except ε β} {key : Option String}
    (h : ∀ b, x = .ok b → Writing name key (k b)) :
    Writing name key (Attempt.lift x >>= k : Handler ε γ) := by
  cases x with
  | error e => trivial
  | ok b => exact h b rfl

theorem reading_access (hidle : Idle act)
    (h : ∀ s b, result s = .ok b → Writing name (supplied.or (storedKey name s.db)) (k b)) :
    Reading name supplied (Attempt.access act result >>= k : Handler ε γ) := by
  refine ⟨hidle, fun s => ?_⟩
  show Writing name _ (Attempt.lift (result s) >>= k : Handler ε γ)
  exact writing_lift (h s)

theorem entering_enter {host : Host} {headers : HeaderMap} {k : Config → Handler BridgeError γ}
    (h : ∀ cfg, Reading name supplied (k cfg)) :
    Entering name supplied (enter host headers >>= k : Handler BridgeError γ) := by
  refine ⟨fun _ => ⟨rfl, rfl⟩, fun s => ?_⟩
  show Reading name supplied ((Attempt.lift (checkAuth s.config headers) >>= fun _ =>
    Attempt.lift (pool host) >>= fun _ => pure s.config : Handler BridgeError Config) >>= k :
      Handler BridgeError γ)
  -- a request that is turned away does not come to the read
  cases checkAuth s.config headers with
  | error e => trivial
  | ok _ =>
      cases pool host with
      | error e => trivial
      | ok _ => exact h s.config

end Rules

/-- **An update takes a snapshot, reads the key, writes it and reloads.** -/
theorem entering_updateProvider (host : Host) (headers : HeaderMap) (input : ProviderInput) :
    Entering name (suppliedKey input) (Admin.updateProvider host headers name input) := by
  refine entering_enter fun cfg => reading_access (fun _ => ⟨rfl, rfl⟩) fun s existing hget => ?_
  cases hrow : s.db.providers.get? name with
  | none =>
      -- no such provider: the update ends here
      simp only [hrow] at hget
      cases hget
      trivial
  | some row =>
      simp only [hrow] at hget
      cases hp : rowToProvider host.columns row with
      | error e => simp [hp, Except.map, Except.mapError] at hget
      | ok p =>
          simp only [hp, Except.map, Except.mapError, Except.ok.injEq] at hget
          subst hget
          apply writing_lift
          intro provider hprovider
          -- the key that the statement will write
          have hkey : provider.apiKey = (suppliedKey input).or (storedKey name s.db) := by
            rw [apiKey_intoProvider hprovider, apiKey_rowToProvider hp, storedKey, hrow]
            rfl
          rw [← hkey]
          exact writing_updateProvider _

end Stages

/-! ## Schedules of updates -/

section Schedules

variable {ι : Type} [DecidableEq ι] (host : Host) (headers : ι → HeaderMap) (name : String)
  (input : ι → ProviderInput) (s : AppState)

/-- Updates of one provider, each with the headers of its request. -/
def providerUpdates : Pool ι AppState (Event Table) (Except BridgeError Value) :=
  adminWrites host headers (fun i => .updateProvider name (input i)) s

variable (supplied : ι → Option String)

/-- The stored key is the one noted, and every update is at one of its stages. Before
its statement it holds the key it has noted last. -/
def KeyInvariant (c : Pool ι AppState (Event Table) (Except BridgeError Value)) (m : KeyNotes ι) :
    Prop :=
  storedKey name c.shared.db = m.last ∧
    ∀ i, Entering name (supplied i) (c.task i) ∨ Reading name (supplied i) (c.task i) ∨
      Writing name ((supplied i).or (m.seen i)) (c.task i) ∨ Behind (c.task i)

variable {name supplied}

/-- An access that leaves the key supplied last, and its task at some stage, leaves everything
in order: the other tasks are where they were. -/
theorem KeyInvariant.advanced {c : Pool ι AppState (Event Table) (Except BridgeError Value)}
    {m : KeyNotes ι} {i : ι} {e : Event Table} {shared : AppState}
    {t : Task AppState (Event Table) (Except BridgeError Value)}
    (h : KeyInvariant name supplied c m)
    (hgood : storedKey name shared.db = (noteKey supplied m (i, e)).last)
    (ht : Entering name (supplied i) t ∨ Reading name (supplied i) t ∨
      Writing name ((supplied i).or m.last) t ∨ Behind t) :
    KeyInvariant name supplied ⟨shared, Function.update c.task i t⟩
      (noteKey supplied m (i, e)) := by
  refine ⟨hgood, fun j => ?_⟩
  by_cases hj : j = i
  · subst hj
    simpa [noteKey] using ht
  · simpa [noteKey, Function.update_of_ne hj] using h.2 j

/-- An access that writes nothing is allowed, and leaves the key and what is noted of it. -/
theorem keyStands_of_quiet {m : KeyNotes ι} {i : ι} {s s' : AppState} {e : Event Table}
    (hkey : storedKey name s.db = m.last) (hdb : s'.db = s.db) (hquiet : e.isCommitted = false) :
    KeyStands supplied m (i, e) ∧ storedKey name s'.db = (noteKey supplied m (i, e)).last := by
  refine ⟨fun hcommitted => by simp [hquiet] at hcommitted, ?_⟩
  simp [noteKey, committedKey, hquiet, hdb, hkey]

/-- A statement that has written is allowed exactly if the key it has left is the one
supplied last: its own, or the one noted when none is supplied. -/
theorem keyStands_of_committed {m : KeyNotes ι} {i : ι} {s : AppState} {e : Event Table}
    (hwritten : storedKey name s.db = (supplied i).or (m.seen i))
    (hcommitted : e.isCommitted = true) :
    KeyStands supplied m (i, e) ↔ storedKey name s.db = (noteKey supplied m (i, e)).last := by
  rw [hwritten]
  cases hs : supplied i <;> simp [KeyStands, noteKey, committedKey, hcommitted, hs]

/-- **One access**: it is allowed exactly if it leaves the key supplied last, and then
everything is in order again. -/
theorem KeyInvariant.step {c : Pool ι AppState (Event Table) (Except BridgeError Value)}
    {m : KeyNotes ι} {i : ι} {act : AppState → AppState × Event Table}
    {rest : AppState → Task AppState (Event Table) (Except BridgeError Value)}
    (htask : c.task i = .access act rest) (h : KeyInvariant name supplied c m) :
    (KeyStands supplied m (i, (act c.shared).2) ↔
      storedKey name (act c.shared).1.db = (noteKey supplied m (i, (act c.shared).2)).last) ∧
    (KeyStands supplied m (i, (act c.shared).2) →
      KeyInvariant name supplied
        ⟨(act c.shared).1, Function.update c.task i (rest c.shared)⟩
        (noteKey supplied m (i, (act c.shared).2))) := by
  have hquiet : Idle act → KeyStands supplied m (i, (act c.shared).2) ∧
      storedKey name (act c.shared).1.db = (noteKey supplied m (i, (act c.shared).2)).last :=
    fun hidle => keyStands_of_quiet h.1 (hidle _).1 (hidle _).2
  rcases h.2 i with hstage | hstage | hstage | hstage <;> rw [htask] at hstage
  · obtain ⟨hstands, hgood⟩ := hquiet hstage.1
    exact ⟨iff_of_true hstands hgood, fun _ => h.advanced hgood (.inr (.inl (hstage.2 _)))⟩
  · obtain ⟨hstands, hgood⟩ := hquiet hstage.1
    refine ⟨iff_of_true hstands hgood, fun _ => h.advanced hgood (.inr (.inr (.inl ?_)))⟩
    -- what has been read is the key that is noted
    rw [← h.1]
    exact hstage.2 _
  · have hiff : KeyStands supplied m (i, (act c.shared).2) ↔
        storedKey name (act c.shared).1.db = (noteKey supplied m (i, (act c.shared).2)).last := by
      rcases hstage.1 c.shared with ⟨hdb, hidle⟩ | ⟨hwritten, hcommitted⟩
      · obtain ⟨hstands, hgood⟩ := keyStands_of_quiet h.1 hdb hidle
        exact iff_of_true hstands hgood
      · exact keyStands_of_committed hwritten hcommitted
    exact ⟨hiff, fun hstands =>
      h.advanced (hiff.1 hstands) (.inr (.inr (.inr (hstage.2 _))))⟩
  · obtain ⟨hstands, hgood⟩ := hquiet hstage.1
    exact ⟨iff_of_true hstands hgood, fun _ => h.advanced hgood (.inr (.inr (.inr (hstage.2 _))))⟩

variable (name)

/-- **When no supplied key is lost.** In all states of a schedule of updates the stored
key is the one supplied last, or else the original, exactly if no update without a key
commits after the key supplied last has changed since it read. -/
theorem keysKept_iff (schedule : List ι) :
    (∀ pre, pre <+: schedule →
      storedKey name ((providerUpdates host headers name input s).after pre).shared.db =
        lastSupplied (fun i => suppliedKey (input i)) (storedKey name s.db)
          ((providerUpdates host headers name input s).trace pre)) ↔
      Guarded (noteKey fun i => suppliedKey (input i)) (KeyStands fun i => suppliedKey (input i))
        ⟨storedKey name s.db, fun _ => none⟩
        ((providerUpdates host headers name input s).trace schedule) := by
  have hstart : KeyInvariant name (fun i => suppliedKey (input i))
      (providerUpdates host headers name input s) ⟨storedKey name s.db, fun _ => none⟩ :=
    ⟨rfl, fun i => .inl (entering_updateProvider host (headers i) (input i))⟩
  have hiff := Pool.guarded_iff (KeyInvariant name fun i => suppliedKey (input i))
    (fun t m => storedKey name t.db = m.last) (fun c m h => h.1)
    (fun c m i act rest htask h => h.step htask) schedule _ _ hstart
  simp only [last_foldl_noteKey] at hiff
  exact hiff.symm

end Schedules

/-! ## A lost rotation -/

/-- A file with one provider and its key. -/
def keyedFile : Config :=
  { plainConfig with
    providers := [("zen", ⟨.openaiChat, "http://localhost", some "old", none, "max_tokens", [],
      none, none, .path, none, none, none, [], [], [], []⟩)] }

/-- The first update leaves the key blank, the second one supplies a new one. -/
def rotationInput (i : Fin 2) : ProviderInput :=
  ⟨none, "openai-chat", "http://localhost", if i.val = 0 then some " " else some "new", none, none, [],
    none, none, none, none, none, none, [], [], [], []⟩

def rotation : Pool (Fin 2) AppState (Event Table) (Except BridgeError Value) :=
  providerUpdates plainHost (fun _ => []) "zen" rotationInput
    ⟨keyedFile, (boot plainHost noFaults false keyedFile Database.empty).1⟩

/-- The second update runs from its entry to its end between the read and the write of
the first: both return `Ok`, and the old key is back. -/
theorem not_keysKept_overtaken :
    (∀ i, ∃ v, (rotation.after
        (List.replicate 2 0 ++ List.replicate 8 1 ++ List.replicate 6 0)).task i = .done (.ok v)) ∧
      lastSupplied (fun i => suppliedKey (rotationInput i)) (storedKey "zen" rotation.shared.db)
        (rotation.trace (List.replicate 2 0 ++ List.replicate 8 1 ++ List.replicate 6 0)) =
          some "new" ∧
      storedKey "zen" (rotation.after
        (List.replicate 2 0 ++ List.replicate 8 1 ++ List.replicate 6 0)).shared.db =
          some "old" := by
  refine ⟨fun i => ?_, by decide, by decide⟩
  match i with
  | 0 => exact ⟨_, rfl⟩
  | 1 => exact ⟨_, rfl⟩

end AiApiBridge
