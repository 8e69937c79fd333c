import AiApiBridge.Authority
import AiApiBridge.ConcurrentWrites

/-!
# Who makes a difference

Two results about striking parties from a run. Requests without the bridge's token, and
requests that read only, might as well not have been there: everybody else does the same and
gets the same (`struck_passive`). And to the configuration and the database nobody makes a
difference but the admin writes (`control_plane`), so what is proved of admin writes alone
holds of them in the whole server.
-/

set_option autoImplicit false

namespace AiApiBridge

open Router Failover Refresh Admin Store

/-! ## Requests that change nothing -/

/-- A request that answers from what it reads. -/
def Party.reads : Party → Bool
  | .query _ _ _ => true
  | _ => false

/-- A party that may change something: a task of the process, or a request that comes with the
token and does more than read. -/
def Party.acts (cfg : Config) (p : Party) : Bool :=
  !p.reads && p.headers?.all fun headers => (checkAuth cfg headers).isOk

/-- A request that is refused. -/
def Party.Refused (cfg : Config) (p : Party) : Prop :=
  p.reads = false ∧ ∃ headers ∈ p.headers?, (checkAuth cfg headers).isOk = false

section Silent

variable {file : Config} {α : Type}

/-- The states of the process that has started with a file. -/
def OfProcess (file : Config) (s : LiveState) : Prop := file.SameProcess s.app.config

/-- Everything there is; only reading the state is hidden. -/
def everything (file : Config) : Aspect LiveState LiveState Effect Effect :=
  ⟨OfProcess file, id, fun l => l = .quiet ∨ l = .stored .quiet, Eq⟩

/-- A task that leaves everything as it is. -/
abbrev Bystands (file : Config) (Ends : α → Prop) (t : Task LiveState Effect α) : Prop :=
  Task.Silent (everything file) Ends t

/-- What becomes of a request without the token. -/
def TurnedAway {α : Type} (r : Except BridgeError α) : Prop :=
  r = .error (.unauthorized "invalid bridge auth token")

theorem checkAuth_error {cfg : Config} {headers : HeaderMap}
    (h : (checkAuth cfg headers).isOk = false) :
    checkAuth cfg headers = .error (.unauthorized "invalid bridge auth token") := by
  rw [checkAuth] at *
  split at h
  · cases h
  · simp only at h ⊢
    split at h
    · cases h
    · rename_i hne
      rw [if_neg hne]

/-- **A request without the token** ends where it is checked. -/
theorem bystands_authorized {headers : HeaderMap} (h : (checkAuth file headers).isOk = false)
    (k : Config → Live α) : Bystands file TurnedAway (authorized headers >>= k : Live α) := by
  intro s hs
  refine ⟨hs, rfl, .inl rfl, ?_⟩
  have herror : checkAuth s.app.config headers =
      .error (.unauthorized "invalid bridge auth token") := by
    rw [← hs.checkAuth]
    exact checkAuth_error h
  simp only [herror, Except.map]
  rfl

/-- An admin write without the token ends there, too. -/
theorem bystands_enter {headers : HeaderMap} (h : (checkAuth file headers).isOk = false)
    (host : Host) (k : Config → Handler BridgeError α) :
    Bystands file TurnedAway (onApp (enter host headers >>= k : Handler BridgeError α)) := by
  intro s hs
  refine ⟨hs, rfl, .inr rfl, ?_⟩
  change Bystands file TurnedAway
    (onApp ((Attempt.lift (checkAuth s.app.config headers) >>= fun _ =>
      Attempt.lift (pool host) >>= fun _ => pure s.app.config) >>= k))
  rw [← hs.checkAuth, checkAuth_error h]
  rfl

/-- What comes behind a refusal is not reached. -/
theorem Bystands.bind {β : Type} {t : Live α} (h : Bystands file TurnedAway t) (k : α → Live β) :
    Bystands file TurnedAway (t >>= k : Live β) := by
  apply Task.Silent.bind h
  rintro r rfl
  exact rfl

theorem bystands_handler {headers : HeaderMap} (h : (checkAuth file headers).isOk = false)
    (host : Host) (w : Write) : Bystands file TurnedAway (onApp (w.handler host headers)) := by
  cases w <;> exact bystands_enter h host _

/-- A view is read, and that is all. -/
theorem bystands_answerQuery (headers : HeaderMap) (q : Query) (now : Int) :
    Bystands file (fun _ => True) (answerQuery headers q now) := by
  have hconfig : Attempt.Silent (everything file) (snapshotFor headers q) := by
    rw [snapshotFor]
    split <;> exact Attempt.Silent.access fun s hs => ⟨hs, rfl, .inl rfl⟩
  apply hconfig.bind
  intro cfg
  exact Attempt.Silent.access fun s hs => ⟨hs, rfl, .inl rfl⟩

/-- A request that does more than read acts unless it is refused. -/
theorem refused_of_not_acts {p : Party} {headers : HeaderMap} (h : p.acts file = false)
    (hreads : p.reads = false) (hheaders : p.headers? = some headers) :
    (checkAuth file headers).isOk = false := by
  simpa [Party.acts, hreads, hheaders] using h

/-- **A party that does not act** leaves everything as it is. -/
theorem bystands_party {p : Party} (h : p.acts file = false) (host : Host) (text : JsonText) :
    Bystands file (fun r => p.Refused file → TurnedAway r) (p.task host text) := by
  have hrefused : ∀ {t : Live Reply}, Bystands file TurnedAway t →
      Bystands file (fun r => p.Refused file → TurnedAway r) t :=
    fun ht => ht.weaken fun _ hr _ => hr
  cases p with
  | responses uuid call => exact hrefused (bystands_authorized (refused_of_not_acts h rfl rfl) _)
  | messages call => exact hrefused (bystands_authorized (refused_of_not_acts h rfl rfl) _)
  | chat call => exact hrefused (bystands_authorized (refused_of_not_acts h rfl rfl) _)
  | setUsage headers on => exact hrefused (bystands_authorized (refused_of_not_acts h rfl rfl) _)
  | write headers w =>
      apply hrefused
      change Bystands file TurnedAway (onApp (adminReply host headers w))
      rw [adminReply, onApp_bind]
      exact Bystands.bind (bystands_handler (refused_of_not_acts h rfl rfl) host w) _
  | query headers q now =>
      apply (bystands_answerQuery headers q now).weaken
      intro r _ hr
      cases hr.1
  | probed name status => cases h
  | retained providers => cases h

end Silent

section Striking

variable {ι : Type} [DecidableEq ι]

/-- Every party keeps to its process, so it mirrors itself. -/
theorem mirrors_party (file : Config) (host : Host) (text : JsonText) (p : Party) :
    Task.Mirrors (everything file) Eq (p.task host text) (p.task host text) := by
  have hstart : (authority file).inv {file} (startedWith file) := ⟨rfl, fun cfg h => h ▸ .refl file⟩
  apply (obeys_party file {file} host text p).mirrors hstart
  · exact fun w s h => h.2 _ h.1
  · intro w s₀ s hw hs
    refine ⟨insert s.app.config w, Set.subset_insert _ _, Set.mem_insert _ _, ?_⟩
    rintro cfg (rfl | hcfg)
    · exact hs
    · exact hw.2 cfg hcfg

/-- **Requests without the token, and readers, can be struck** from any run: the state comes out
the same, and so do the results and the effects of all others; a request without the token is
turned away. -/
theorem struck_passive (host : Host) (text : JsonText) (parties : ι → Party) (s : LiveState)
    (schedule : List ι) :
    let acts := fun i => (parties i).acts s.app.config
    let c := (serving host text parties s).after schedule
    let rest := serving host text (fun i : {i // acts i = true} => parties i.1) s
    let c' := rest.after (schedule.filterMap (only acts))
    c.shared = c'.shared ∧
      (∀ i r, c.task i.1 = .done r ↔ c'.task i = .done r) ∧
      ((serving host text parties s).trace schedule).filter (fun e => acts e.1) =
        (rest.trace (schedule.filterMap (only acts))).map (fun e => (e.1.1, e.2)) ∧
      ∀ i r, (parties i).Refused s.app.config → c.task i = .done r → TurnedAway r := by
  intro acts c rest c'
  have hprojects : Projects (everything s.app.config)
      (fun i r => (parties i).Refused s.app.config → TurnedAway r) Eq (only acts)
      (serving host text parties s) rest := by
    refine ⟨.refl _, rfl, fun i k hk => ?_, fun i hi => ?_⟩
    · rw [← only_eq_some hk]
      exact mirrors_party _ host text _
    · have hacts : acts i = false := eq_false_of_only hi
      exact bystands_party hacts host text
  have hinj : ∀ i j k, only acts i = some k → only acts j = some k → i = j :=
    fun i j k hi hj => (only_eq_some hi).symm.trans (only_eq_some hj)
  obtain ⟨hafter, htrace, -⟩ := Pool.purge hinj hprojects schedule
  refine ⟨hafter.shared, fun i r => ?_, ?_, ?_⟩
  · have hmirrors := hafter.mirrors i.1 i (only_of_true i.2)
    constructor
    · intro hdone
      rw [hdone] at hmirrors
      obtain ⟨r', hdone', rfl⟩ := hmirrors.of_done
      exact hdone'
    · intro hdone
      rw [hdone] at hmirrors
      obtain ⟨r', hdone', rfl⟩ := hmirrors.of_done'
      exact hdone'
  · simp only [isSome_only] at htrace
    exact eq_map_of_forall₂_only (f := id) htrace
  · intro i r hrefused hdone
    have hsilent : acts i = false := by
      obtain ⟨hreads, headers, hheaders, hauth⟩ := hrefused
      rw [Option.mem_def] at hheaders
      simp [acts, Party.acts, hreads, hheaders, hauth]
    have hends := hafter.silent i (dif_neg (by simp [hsilent]))
    rw [hdone] at hends
    exact hends hrefused

end Striking

/-! ## The control plane -/

/-- What an access does to the database or the live configuration. -/
def Effect.store? : Effect → Option (Refresh.Event Table)
  | .stored e => some e
  | .swapped _ => some .swapped
  | _ => none

theorem store?_ofApp (app : AppState) (e : Refresh.Event Table) :
    (Effect.ofApp app e).store? = some e := by
  cases e <;> rfl

/-- The live configuration and the database. -/
def controlAspect : Aspect LiveState AppState Effect (Refresh.Event Table) :=
  ⟨fun _ => True, LiveState.app, fun l => l.store? = none, fun l l' => l.store? = some l'⟩

section Apart

variable {α β : Type}

/-- A part of a handler that stays away from the control plane. -/
abbrev Apart (t : Live α) : Prop := Attempt.Silent controlAspect t

theorem apart_access {act : LiveState → LiveState × Effect}
    {result : LiveState → Except BridgeError α} (happ : ∀ s, (act s).1.app = s.app)
    (hstore : ∀ s, (act s).2.store? = none) : Apart (.access act result) :=
  Attempt.Silent.access fun s _ => ⟨trivial, happ s, hstore s⟩

theorem apart_observe (read : LiveState → Except BridgeError α) : Apart (observe read) :=
  apart_access (fun _ => rfl) fun _ => rfl

theorem apart_resolve (cfg : Config) (now : Int) (model : String) :
    Apart (resolve cfg now model) := by
  apply (apart_observe _).bind
  intro on
  exact apart_access (fun _ => rfl) fun _ => rfl

theorem apart_tryCandidates (post : Nat → UpstreamRequest → Except BridgeError α)
    (req : CanonicalRequest) (i : Nat) (lastErr : Option BridgeError) (cs : List Resolved) :
    Apart (tryCandidates post req i lastErr cs) := by
  induction cs generalizing i lastErr with
  | nil => exact Attempt.Silent.done
  | cons c cs ih =>
      rw [tryCandidates]
      have hsend : Apart (send post req i c) := apart_access (fun _ => rfl) fun _ => rfl
      apply hsend.bind
      intro answer
      cases verdict answer (cs ≠ []) with
      | accepted a => exact Attempt.Silent.done
      | failed e => exact Attempt.Silent.done
      | advance e =>
          have hdegrade : Apart (degrade c e) := apart_access (fun _ => rfl) fun _ => rfl
          apply hdegrade.bind
          intro _
          exact ih (i + 1) (some e)

theorem apart_recordEach (provider : String) (now : Int)
    (amounts : List (UsageKind × FloatValue)) : Apart (recordEach provider now amounts) := by
  induction amounts with
  | nil => exact Attempt.Silent.done
  | cons a amounts ih =>
      have hone : Apart (recordOne provider now a.1 a.2) :=
        apart_access (fun _ => rfl) fun _ => rfl
      exact hone.bind fun _ => ih

theorem apart_recordResponse (cfg : Config) (provider model : String) (resp : Value) (now : Int) :
    Apart (recordResponse cfg provider model resp now) := by
  apply (apart_observe _).bind
  intro on
  split
  · exact apart_recordEach _ _ _
  · exact Attempt.Silent.done

theorem apart_recordCaught (now : Int) (recorder : Option CostRecorder) (caught : Option Caught) :
    Apart (recordCaught now recorder caught) := by
  cases recorder with
  | none => exact Attempt.Silent.done
  | some recorder =>
      cases caught with
      | none => exact Attempt.Silent.done
      | some caught => exact apart_recordEach _ _ _

variable (text : JsonText)

theorem apart_translated {σ : Type} (T : Translation σ) (call : ClientCall) :
    Apart (translated text T call) := by
  apply (apart_observe _).bind
  intro cfg
  apply Attempt.Silent.done.bind
  intro req
  apply (apart_resolve cfg call.decideAt req.model).bind
  intro chain
  split
  · apply (apart_tryCandidates _ req 0 none chain).bind
    intro r
    apply (apart_observe _).bind
    intro on
    exact (apart_recordCaught _ _ _).bind fun _ => Attempt.Silent.done
  · apply (apart_tryCandidates _ req 0 none chain).bind
    intro r
    exact (apart_recordResponse _ _ _ _ _).bind fun _ => Attempt.Silent.done

theorem apart_chatHandler (call : ClientCall) : Apart (chatHandler text call) := by
  apply (apart_observe _).bind
  intro cfg
  apply Attempt.Silent.done.bind
  intro req
  apply (apart_resolve cfg call.decideAt req.model).bind
  intro chain
  split
  · exact (apart_tryCandidates _ req 0 none chain).bind fun _ => Attempt.Silent.done
  · apply (apart_tryCandidates _ req 0 none chain).bind
    intro r
    exact (apart_recordResponse _ _ _ _ _).bind fun _ => Attempt.Silent.done

end Apart

/-- An admin write and its headers. -/
def Party.write? : Party → Option (HeaderMap × Write)
  | .write headers w => some (headers, w)
  | _ => none

theorem eq_write_of_write? {p : Party} (h : p.write?.isSome = true) :
    p = .write (p.write?.get h).1 (p.write?.get h).2 := by
  cases p <;> first | rfl | cases h

/-- **Nobody else touches the control plane.** -/
theorem apart_party {p : Party} (h : p.write? = none) (host : Host) (text : JsonText) :
    Apart (p.task host text) := by
  cases p with
  | responses uuid call => exact apart_translated text _ call
  | messages call => exact apart_translated text _ call
  | chat call => exact apart_chatHandler text call
  | query headers q now =>
      have hconfig : Apart (snapshotFor headers q) := by
        rw [snapshotFor]
        split <;> exact apart_observe _
      exact hconfig.bind fun _ => apart_observe _
  | setUsage headers on =>
      apply (apart_observe _).bind
      intro cfg
      exact apart_access (fun _ => rfl) fun _ => rfl
  | write headers w => cases h
  | probed name status => exact apart_access (fun _ => rfl) fun _ => rfl
  | retained providers => exact apart_access (fun _ => rfl) fun _ => rfl

/-- **An admin write in the server** is the admin write. -/
theorem mirrors_write (host : Host) (text : JsonText) (headers : HeaderMap) (w : Write) :
    Task.Mirrors controlAspect (fun r v => r = v.map Reply.json)
      ((Party.write headers w).task host text) (w.handler host headers) := by
  have hwrite : Task.Mirrors controlAspect Eq (onApp (w.handler host headers))
      (w.handler host headers) :=
    Task.mirrors_focus _ (fun _ _ => rfl) (fun _ _ h => h) store?_ofApp
  change Task.Mirrors controlAspect _ (onApp (adminReply host headers w)) _
  rw [adminReply, onApp_bind]
  nth_rewrite 2 [← Task.bind_done (w.handler host headers)]
  refine Task.Mirrors.bind hwrite ?_
  rintro r v rfl
  cases r <;> rfl

section ControlPlane

variable {ι : Type} [DecidableEq ι]

/-- **The control plane belongs to the admin writes.** Whatever else goes on in the server, the
live configuration, the database and the answers to admin writes come out as if nobody but
these had taken their steps. -/
theorem control_plane (host : Host) (text : JsonText) (parties : ι → Party) (s : LiveState)
    (schedule : List ι) :
    let admin := fun i => (parties i).write?.isSome
    let write := fun i : {i // admin i = true} => (parties i.1).write?.get i.2
    let c := (serving host text parties s).after schedule
    let writes := adminWrites host (fun i => (write i).1) (fun i => (write i).2) s.app
    let c' := writes.after (schedule.filterMap (only admin))
    c.shared.app = c'.shared ∧
      (∀ i r, c.task i.1 = .done r ↔ ∃ v, c'.task i = .done v ∧ r = v.map Reply.json) ∧
      (((serving host text parties s).trace schedule).filterMap fun e =>
          e.2.store?.map fun l => (e.1, l)) =
        (writes.trace (schedule.filterMap (only admin))).map fun e => (e.1.1, e.2) := by
  intro admin write c writes c'
  have hprojects : Projects controlAspect (fun _ _ => True) (fun r v => r = v.map Reply.json)
      (only admin) (serving host text parties s) writes := by
    refine ⟨trivial, rfl, fun i k hk => ?_, fun i hi => ?_⟩
    · obtain rfl := only_eq_some hk
      have hmirrors := mirrors_write host text (write k).1 (write k).2
      rwa [← eq_write_of_write? k.2] at hmirrors
    · have hadmin : admin i = false := eq_false_of_only hi
      exact apart_party (by simpa [admin] using hadmin) host text
  have hinj : ∀ i j k, only admin i = some k → only admin j = some k → i = j :=
    fun i j k hi hj => (only_eq_some hi).symm.trans (only_eq_some hj)
  obtain ⟨hafter, htrace, hhidden⟩ := Pool.purge hinj hprojects schedule
  simp only [isSome_only] at htrace
  refine ⟨hafter.shared, fun i r => ?_, filterMap_eq_map_of_forall₂_only htrace hhidden⟩
  have hmirrors := hafter.mirrors i.1 i (only_of_true i.2)
  constructor
  · intro hdone
    rw [hdone] at hmirrors
    exact hmirrors.of_done
  · rintro ⟨v, hdone, rfl⟩
    rw [hdone] at hmirrors
    obtain ⟨r, hdone', rfl⟩ := hmirrors.of_done'
    exact hdone'

end ControlPlane

end AiApiBridge
