import AiApiBridge.Lib.Binary64
import AiApiBridge.StoredReferences

/-!
# Providers in the store and back

A provider is bound to one row, with five columns in JSON, and read back from it. JSON
has no infinite numbers: `serde_json` prints one as `null`, and a column with a `null`
for a number cannot be read and counts as empty. So a provider comes back from the store
exactly when its limits and prices are finite and its quota threshold is not a NaN, which
SQLite stores as `NULL` (`readsBack_iff_storable`); the same goes for an imported
configuration (`roundTrips_iff_storable`).
-/

set_option autoImplicit false

namespace AiApiBridge

open Store Statements Admin

/-! ## Finite data -/

def CostWindow.finite (w : CostWindow) : Bool := w.limit.isFinite

def UsageWindow.finite (w : UsageWindow) : Bool := w.limit.isFinite

/-- Whether all prices are finite. -/
def pricesFinite (prices : List (String × ModelPrice)) : Bool :=
  prices.all fun (_, p) => p.input.isFinite && p.output.isFinite

def UsageSpec.finite (spec : UsageSpec) : Bool :=
  spec.windows.all UsageWindow.finite && (spec.modelPrices.all pricesFinite)

/-- The limits and prices are finite, and the quota threshold is not a NaN. -/
structure Provider.Storable (p : Provider) : Prop where
  costWindows : p.costWindows.all CostWindow.finite = true
  modelPrices : pricesFinite p.modelPrices = true
  usage : p.usage.all UsageSpec.finite = true
  quotaMin : p.quotaMin ≠ some .nan

/-- `serde_json` at the columns of a provider: it reads back what is finite, and nothing
else. -/
structure Serde (c : Columns) (p : Provider) : Prop where
  extraHeaders : c.extraHeaders.fromStr (c.extraHeaders.toString p.extraHeaders) =
    some p.extraHeaders
  models : c.models.fromStr (c.models.toString p.models) = some p.models
  costWindows : c.costWindows.fromStr (c.costWindows.toString p.costWindows) =
    if p.costWindows.all CostWindow.finite then some p.costWindows else none
  modelPrices : c.modelPrices.fromStr (c.modelPrices.toString p.modelPrices) =
    if pricesFinite p.modelPrices then some p.modelPrices else none
  usage : c.usage.fromStr (c.usage.toString p.usage) =
    if p.usage.all UsageSpec.finite then some p.usage else none

/-- The probe interval is a `u64`. -/
def Provider.InRange (p : Provider) : Prop := ∀ n ∈ p.probeIntervalSecs, n < 2 ^ 64

/-! ## One row -/

namespace Store

theorem bmod_emod_pow {n k : Nat} (h : n < 2 ^ k) : Int.bmod n (2 ^ k) % 2 ^ k = n := by
  have hmod : Int.bmod n (2 ^ k) % (2 ^ k : Nat) = n := by
    rw [Int.bmod_emod]
    exact Int.emod_eq_of_lt (Int.natCast_nonneg n) (Int.ofNat_lt.2 h)
  rwa [Nat.cast_pow, Nat.cast_ofNat] at hmod

/-- The cast to `i64` loses nothing of a `u64`. -/
theorem asU64_asI64 {n : Nat} (h : n < 2 ^ 64) : asU64 (asI64 n) = n := by
  have hmod := bmod_emod_pow (k := 64) h
  unfold asU64 asI64
  simp only [hmod, Int.toNat_natCast]

theorem strToProbeSource_probeSourceToStr (s : ProbeSource) :
    strToProbeSource (probeSourceToStr s) = s := by
  cases s <;> rfl

end Store

/-- What the row of a provider decodes to, before the legacy fields are folded. -/
def Provider.decoded (p : Provider) : Provider :=
  { p with
    quotaMin := bindReal p.quotaMin
    costWindows := if p.costWindows.all CostWindow.finite then p.costWindows else []
    modelPrices := if pricesFinite p.modelPrices then p.modelPrices else []
    usage := if p.usage.all UsageSpec.finite then p.usage else [] }

section Row

variable {c : Columns} {p : Provider}

/-- **A row and back**: what cannot be read comes back empty. -/
theorem rowToProvider_providerRow (hserde : Serde c p) (hrange : p.InRange) (name : String) :
    rowToProvider c (providerRow c name p) = .ok p.decoded.normalizeUsage := by
  have hinterval : (p.probeIntervalSecs.map asI64).map asU64 = p.probeIntervalSecs := by
    cases h : p.probeIntervalSecs with
    | none => rfl
    | some n => exact congrArg some (asU64_asI64 (hrange n h))
  have henabled : (p.probeEnabled.map fun b => if b then (1 : Int) else 0).map
      (fun b => decide (b ≠ 0)) = p.probeEnabled := by
    rcases p.probeEnabled with _ | _ | _ <;> rfl
  -- a column that cannot be read counts as empty
  have hempty : ∀ {α : Type} (b : Bool) (xs : List α),
      (if b then some xs else none).getD [] = if b then xs else [] := by
    intro α b xs
    cases b <;> rfl
  simp only [rowToProvider, providerRow, WireName.parse_asStr, strToProbeSource_probeSourceToStr,
    hinterval, henabled, hserde.extraHeaders, hserde.models, hserde.costWindows,
    hserde.modelPrices, hserde.usage, hempty, Option.getD_some, Provider.decoded]

@[simp] theorem costWindows_normalizeUsage (p : Provider) :
    p.normalizeUsage.costWindows = p.costWindows := by
  rw [Provider.normalizeUsage]
  split <;> rfl

@[simp] theorem modelPrices_normalizeUsage (p : Provider) :
    p.normalizeUsage.modelPrices = p.modelPrices := by
  rw [Provider.normalizeUsage]
  split <;> rfl

@[simp] theorem quotaMin_normalizeUsage (p : Provider) :
    p.normalizeUsage.quotaMin = p.quotaMin := by
  rw [Provider.normalizeUsage]
  split <;> rfl

/-- Nothing is folded in front of a usage spec. -/
theorem normalizeUsage_of_usage_ne (h : p.usage ≠ []) : p.normalizeUsage = p := by
  rw [Provider.normalizeUsage, if_neg fun hfold => h hfold.1]

/-- Windows folded from finite legacy windows are finite. -/
theorem finite_usage_normalizeUsage (hwindows : p.costWindows.all CostWindow.finite = true)
    (hprices : pricesFinite p.modelPrices = true) (husage : p.usage = []) :
    p.normalizeUsage.usage.all UsageSpec.finite = true := by
  rw [Provider.normalizeUsage]
  split
  · simp only [List.all_cons, List.all_nil, UsageSpec.finite, UsageSpec.windows,
      UsageSpec.modelPrices, Option.all_some, hprices, Bool.and_true, List.all_map]
    exact hwindows
  · rw [husage]
    rfl

theorem all_ite_eq_self {α : Type} {xs : List α} {finite : Bool} (hnil : xs = [] → finite = true)
    (h : (if finite then xs else []) = xs) : finite = true := by
  cases finite with
  | true => rfl
  | false => exact hnil h.symm

theorem bindReal_eq_self {v : Option FloatValue} : bindReal v = v ↔ v ≠ some .nan := by
  rcases v with _ | _ | _ | _ <;> simp [bindReal]

/-- **When a provider comes back**, its legacy fields folded. -/
theorem readsBack_iff_storable (hserde : Serde c p) (hrange : p.InRange) (name : String) :
    rowToProvider c (providerRow c name p) = .ok p.normalizeUsage ↔ p.Storable := by
  rw [rowToProvider_providerRow hserde hrange, Except.ok.injEq]
  constructor
  · intro h
    -- folding touches the usage alone
    have hfields : p.decoded.costWindows = p.costWindows ∧ p.decoded.modelPrices = p.modelPrices ∧
        p.decoded.quotaMin = p.quotaMin := by
      rw [← costWindows_normalizeUsage p, ← modelPrices_normalizeUsage p,
        ← quotaMin_normalizeUsage p, ← h]
      simp
    have hwindows := all_ite_eq_self (fun hnil => by rw [hnil]; rfl) hfields.1
    have hprices := all_ite_eq_self (fun hnil => by rw [hnil]; rfl) hfields.2.1
    refine ⟨hwindows, hprices, ?_, bindReal_eq_self.1 hfields.2.2⟩
    by_contra hinfinite
    -- what comes back is folded from finite windows, or nothing
    have husage : p.decoded.usage = [] := by simp [Provider.decoded, hinfinite]
    have hfinite := finite_usage_normalizeUsage
      (by rw [hfields.1]; exact hwindows) (by rw [hfields.2.1]; exact hprices) husage
    have hne : p.usage ≠ [] := by
      rintro hnil
      rw [hnil] at hinfinite
      exact hinfinite rfl
    rw [h, normalizeUsage_of_usage_ne hne] at hfinite
    exact hinfinite hfinite
  · rintro ⟨hwindows, hprices, husage, hquota⟩
    have hsame : p.decoded = p := by
      simp only [Provider.decoded, hwindows, hprices, husage, if_true, bindReal_eq_self.2 hquota]
    rw [hsame]

end Row

/-! ## All rows -/

section Rows

variable {c : Columns}

/-- **What the rows decode to**: the providers again when all of them come back. -/
theorem decodeProviders_rows_iff {providers : List (String × Provider)}
    (hserde : ∀ np ∈ providers, Serde c np.2) (hrange : ∀ np ∈ providers, np.2.InRange)
    (hfolded : ∀ np ∈ providers, np.2.normalizeUsage = np.2) :
    decodeProviders c (providers.map fun np => providerRow c np.1 np.2) = .ok providers ↔
      ∀ np ∈ providers, np.2.Storable := by
  induction providers with
  | nil => simp [decodeProviders, pure, Except.pure]
  | cons np providers ih =>
      rcases np with ⟨name, p⟩
      have hrow := readsBack_iff_storable (hserde _ List.mem_cons_self)
        (hrange _ List.mem_cons_self) name
      have hrows := ih (fun np hnp => hserde np (List.mem_cons_of_mem _ hnp))
        (fun np hnp => hrange np (List.mem_cons_of_mem _ hnp))
        (fun np hnp => hfolded np (List.mem_cons_of_mem _ hnp))
      -- the providers of the file are folded already
      rw [hfolded _ List.mem_cons_self] at hrow
      rw [List.forall_mem_cons, ← hrow, ← hrows]
      rw [decodeProviders]
      rw [List.map_cons, mapM_cons_ok]
      constructor
      · rintro ⟨np', nps, hnp, hnps, heq⟩
        obtain ⟨rfl, rfl⟩ := List.cons.inj heq
        refine ⟨?_, hnps⟩
        cases hp : rowToProvider c (providerRow c name p) with
        | error e => simp [hp, Except.map] at hnp
        | ok p' =>
            rw [hp] at hnp
            exact congrArg Except.ok (congrArg Prod.snd (Except.ok.inj hnp))
      · rintro ⟨hp, hnps⟩
        exact ⟨_, _, by rw [hp]; rfl, hnps, rfl⟩

/-- The routes come back. -/
theorem map_rowToRoute {routes : List Route}
    (hread : ∀ r ∈ routes, c.fallback.fromStr (c.fallback.toString r.fallback) = some r.fallback) :
    (routes.map (routeRow c)).map (rowToRoute c) = routes := by
  rw [List.map_map]
  refine (List.map_congr_left fun r hr => ?_).trans (List.map_id routes)
  simp only [Function.comp_apply, rowToRoute, routeRow, hread r hr, Option.getD_some, id_eq]

theorem folded_of_fromToml {toml : String → Except String Config} {text : String} {cfg : Config}
    (h : Config.fromToml toml text = .ok cfg) :
    ∀ np ∈ cfg.providers, np.2.normalizeUsage = np.2 := by
  rw [Config.fromToml] at h
  cases hcfg : toml text with
  | error e => simp [hcfg, Except.map] at h
  | ok raw =>
      rw [hcfg] at h
      cases h
      intro np hnp
      obtain ⟨np, -, rfl⟩ := List.mem_map.1 hnp
      exact np.2.normalizeUsage_idem

end Rows

/-! ## Write and fetch -/

section Fetch

variable {host : Host} {name : String} {p : Provider} {s s' : AppState} {n : Nat}

theorem getProvider_alone {row : ProviderRow} (h : s.db.providers.get? name = some row) :
    (Task.alone (getProvider host name) s).1 =
      ((rowToProvider host.columns row).map some).mapError .internal := by
  simp [getProvider, Attempt.access, Task.alone, h]

/-- The provider is fetched as it was written, its legacy fields folded, and the other
rows are as before. -/
structure Refetched (host : Host) (name : String) (p : Provider) (s s' : AppState) : Prop where
  fetched : (Task.alone (getProvider host name) s').1 = .ok (some p.normalizeUsage)
  others : ∀ other, other ≠ name → s'.db.providers.get? other = s.db.providers.get? other

/-- The row of the provider is there, and the other rows are as before. -/
theorem refetched_iff (hserde : Serde host.columns p) (hrange : p.InRange)
    (hrow : ∀ k, s'.db.providers.get? k =
      if name = k then some (providerRow host.columns name p) else s.db.providers.get? k) :
    Refetched host name p s s' ↔ p.Storable := by
  rw [← readsBack_iff_storable hserde hrange name]
  have hfetch : (Task.alone (getProvider host name) s').1 = _ :=
    getProvider_alone ((hrow name).trans (if_pos rfl))
  constructor
  · intro h
    have hfetched := hfetch.symm.trans h.fetched
    -- a row that does not decode is an error and no provider
    cases hp : rowToProvider host.columns (providerRow host.columns name p) with
    | error e => simp [hp, Except.map, Except.mapError] at hfetched
    | ok p' => simpa [hp, Except.map, Except.mapError] using hfetched
  · intro h
    refine ⟨by rw [hfetch, h]; rfl, fun other hother => ?_⟩
    rw [hrow other, if_neg (Ne.symm hother)]

theorem refetched_insertProvider_iff (hserde : Serde host.columns p) (hrange : p.InRange)
    (h : Task.alone (Store.insertProvider host name p) s = (.ok n, s')) :
    Refetched host name p s s' ↔ p.Storable := by
  apply refetched_iff hserde hrange
  intro k
  have hinsert := alone_execute h
  rw [Database.insertProvider] at hinsert
  split at hinsert
  · cases hinsert
  · rename_i hnew
    obtain ⟨hdb, -⟩ := Prod.mk.inj (Except.ok.inj hinsert)
    rw [← hdb]
    exact KeyedTable.get?_insert _ _ hnew k

/-- An update that reaches a row. -/
theorem refetched_updateProvider_iff (hserde : Serde host.columns p) (hrange : p.InRange)
    (h : Task.alone (Store.updateProvider host name p) s = (.ok n, s')) (hn : n ≠ 0) :
    Refetched host name p s s' ↔ p.Storable := by
  apply refetched_iff hserde hrange
  intro k
  obtain ⟨hdb, hcount⟩ := Prod.mk.inj (Except.ok.inj (alone_execute h))
  -- an update that counts a row has found one
  have hmem : name ∈ s.db.providers.keys := by
    by_contra hnot
    exact hn (hcount.symm.trans (if_neg hnot))
  rw [← hdb]
  refine (KeyedTable.get?_modify _ _ k).trans ?_
  by_cases hk : name = k
  · subst hk
    rw [if_pos rfl, if_pos ⟨rfl, hmem⟩]
  · rw [if_neg hk, if_neg fun h => hk h.1]

end Fetch

/-! ## A configuration and back -/

/-- What an imported configuration keeps: it is loaded from the store as it was, and a
provider of it that is written is fetched as it was. -/
structure RoundTrips (host : Host) (cfg : Config) : Prop where
  seeded : ∀ db db' : Database, db.providers.rows = [] →
    runAll (seedFromConfig host.columns cfg) db = .ok db' →
    ∀ s : AppState, s.db = db' → ∃ cfg', (Task.alone (loadIntoConfig host.columns s.config) s).1 =
      .ok cfg' ∧ cfg'.providers = cfg.providers ∧ cfg'.routes = cfg.routes
  inserted : ∀ np ∈ cfg.providers, ∀ name s s' n,
    Task.alone (Store.insertProvider host name np.2) s = (.ok n, s') → Refetched host name np.2 s s'
  updated : ∀ np ∈ cfg.providers, ∀ name s s' n,
    Task.alone (Store.updateProvider host name np.2) s = (.ok n, s') → n ≠ 0 →
      Refetched host name np.2 s s'

/-- **When a configuration round-trips**: all its limits and prices are finite and no
quota threshold is a NaN. -/
theorem roundTrips_iff_storable {host : Host} {toml : String → Except String Config}
    {text : String} {cfg : Config} (hcfg : Config.fromToml toml text = .ok cfg)
    (hserde : ∀ np ∈ cfg.providers, Serde host.columns np.2)
    (hrange : ∀ np ∈ cfg.providers, np.2.InRange)
    (hroutes : ∀ r ∈ cfg.routes,
      host.columns.fallback.fromStr (host.columns.fallback.toString r.fallback) = some r.fallback) :
    RoundTrips host cfg ↔ ∀ np ∈ cfg.providers, np.2.Storable := by
  constructor
  · intro h np hnp
    -- one insertion into the empty store shows it
    have hinsert : ∃ s', Task.alone (Store.insertProvider host np.1 np.2) ⟨cfg, .empty⟩ =
        (.ok 1, s') := ⟨_, rfl⟩
    rcases hinsert with ⟨s', hinsert⟩
    exact (refetched_insertProvider_iff (hserde np hnp) (hrange np hnp) hinsert).1
      (h.inserted np hnp np.1 _ s' 1 hinsert)
  · intro h
    refine ⟨fun db db' hempty hrun s hs => ?_, fun np hnp name s s' n hok => ?_,
      fun np hnp name s s' n hok hn => ?_⟩
    · obtain ⟨hrows, hrouteRows⟩ := rows_seedFromConfig hempty hrun
      have hproviders := (decodeProviders_rows_iff hserde hrange (folded_of_fromToml hcfg)).2 h
      rw [loadIntoConfig_alone, hs, loaded, hrows, hproviders, hrouteRows, map_rowToRoute hroutes]
      exact ⟨_, rfl, rfl, rfl⟩
    · exact (refetched_insertProvider_iff (hserde np hnp) (hrange np hnp) hok).2 (h np hnp)
    · exact (refetched_updateProvider_iff (hserde np hnp) (hrange np hnp) hok hn).2 (h np hnp)

/-! ## A window without a limit -/

/-- A file with one provider and a daily window of requests. -/
def pacedText (limit : String) : String :=
  "[providers.zen]\nwire = \"openai-chat\"\nbase_url = \"http://localhost\"\n" ++
    "[[providers.zen.usage]]\nusage_type = \"count\"\n" ++
    "windows = [\x7b label = \"1d\", window_secs = 86400, limit = " ++ limit ++ " \x7d]\n"

def pacedUsage (limit : FloatValue) : List UsageSpec := [.count [⟨"1d", 86400, limit⟩]]

def pacedFile (limit : FloatValue) : Config :=
  { plainConfig with
    providers := [("zen", ⟨.openaiChat, "http://localhost", none, none, "max_tokens", [], none,
      none, .path, none, none, none, [], [], pacedUsage limit, []⟩)] }

/-- `toml::from_str` at one limit. -/
def pacedToml (limit : String) (value : FloatValue) (text : String) : Except String Config :=
  if text = pacedText limit then .ok (pacedFile value) else .error "TOML parse error"

theorem fromToml_pacedToml (limit : String) (value : FloatValue) :
    Config.fromToml (pacedToml limit value) (pacedText limit) = .ok (pacedFile value) := by
  rw [Config.fromToml, pacedToml, if_pos rfl]
  rfl

def pacedJson (limit : String) : String :=
  "[\x7b\"usage_type\":\"count\",\"windows\":[" ++
    "\x7b\"label\":\"1d\",\"window_secs\":86400,\"limit\":" ++ limit ++ "\x7d]\x7d]"

/-- `serde_json` at these limits: the infinite one is printed as `null`. -/
def pacedCodec : Codec (List UsageSpec) where
  toString specs :=
    if specs = [] then "[]" else pacedJson (if specs.all UsageSpec.finite then "100.0" else "null")
  fromStr s :=
    if s = "[]" then some []
    else if s = pacedJson "100.0" then some (pacedUsage (.finite 100))
    else none

def pacedHost : Host := { plainHost with columns := { plainHost.columns with usage := pacedCodec } }

/-- A limit of a hundred requests survives. -/
theorem roundTrips_hundred : RoundTrips pacedHost (pacedFile (.finite 100)) := by
  have hserde : ∀ np ∈ (pacedFile (.finite 100)).providers, Serde pacedHost.columns np.2 := by
    intro np hnp
    obtain rfl := List.mem_singleton.1 hnp
    exact ⟨rfl, rfl, rfl, rfl, by decide⟩
  refine (roundTrips_iff_storable (fromToml_pacedToml "100.0" (.finite 100)) hserde ?_ ?_).2 ?_
  · intro np hnp
    obtain rfl := List.mem_singleton.1 hnp
    intro n hn
    cases hn
  · intro r hr
    cases hr
  · intro np hnp
    obtain rfl := List.mem_singleton.1 hnp
    exact ⟨rfl, rfl, rfl, by decide⟩

/-- A window without a limit takes the whole usage of the provider with it. -/
theorem not_roundTrips_unlimited :
    Config.fromToml (pacedToml "inf" (.infinite false)) (pacedText "inf") =
        .ok (pacedFile (.infinite false)) ∧
      (∀ np ∈ (pacedFile (.infinite false)).providers, Serde pacedHost.columns np.2) ∧
      (∃ db cfg, runAll (seedFromConfig pacedHost.columns (pacedFile (.infinite false)))
          Database.empty = .ok db ∧ loaded pacedHost.columns db plainConfig = .ok cfg ∧
        cfg.providers.map (fun np => np.2.usage) = [[]]) ∧
      ¬ RoundTrips pacedHost (pacedFile (.infinite false)) := by
  have hseeded : ∃ db cfg, runAll (seedFromConfig pacedHost.columns (pacedFile (.infinite false)))
      Database.empty = .ok db ∧ loaded pacedHost.columns db plainConfig = .ok cfg ∧
        cfg.providers.map (fun np => np.2.usage) = [[]] := ⟨_, _, rfl, rfl, by decide⟩
  refine ⟨fromToml_pacedToml _ _, fun np hnp => ?_, hseeded, fun h => ?_⟩
  · obtain rfl := List.mem_singleton.1 hnp
    exact ⟨rfl, rfl, rfl, rfl, by decide⟩
  · -- the providers loaded have no usage, those of the file have
    rcases hseeded with ⟨db, cfg, hrun, hload, husage⟩
    obtain ⟨cfg', hload', hproviders, -⟩ := h.seeded _ db rfl hrun ⟨plainConfig, db⟩ rfl
    rw [loadIntoConfig_alone, hload] at hload'
    obtain rfl := Except.ok.inj hload'
    rw [hproviders] at husage
    exact absurd husage (by decide)

end AiApiBridge
