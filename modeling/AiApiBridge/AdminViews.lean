import AiApiBridge.Admin
import AiApiBridge.Failover
import AiApiBridge.UsageRestart

/-!
# What the server shows

The reading endpoints: `list_providers`, `list_routes`, `get_usage` and
`get_fallback_route` of `admin.rs`, and `providers_status`, `list_models` and `health` of
`server.rs`. A listing of providers walks over a hash map and is then sorted by name.
-/

set_option autoImplicit false

namespace AiApiBridge

open Chat (floatJson)

/-! ## Values -/

namespace Value

/-- The number an `i64` is written as. -/
def ofInt (i : Int) : Value := number (if 0 ≤ i then .posInt i.toNat else .negInt i)

/-- An optional member, written as `null` when absent. -/
def orNull {α : Type} (json : α → Value) (x : Option α) : Value := (x.map json).getD null

end Value

/-- The display unit of a usage kind. -/
def UsageKind.unit : UsageKind → String
  | .billing => "usd"
  | .count => "requests"
  | .token => "tokens"

/-- The order of `str`, which in UTF-8 is the order of the characters. -/
def leChars : List Char → List Char → Bool
  | [], _ => true
  | _ :: _, [] => false
  | a :: as, b :: bs => if a = b then leChars as bs else a.toNat < b.toNat

/-- The order of `Option<&str>`. -/
def leName : Option String → Option String → Bool
  | none, _ => true
  | some _, none => false
  | some a, some b => leChars a.toList b.toList

/-- `sort_by` on a string member. -/
def sortBy (key : String) (vs : List Value) : List Value :=
  vs.mergeSort fun a b => leName ((a.get key).bind Value.asStr) ((b.get key).bind Value.asStr)

namespace RouteTarget

def json (t : RouteTarget) : Value :=
  .object [("provider", .string t.provider), ("model", .string t.model)]

end RouteTarget

/-! ## Views -/

/-- What a view reads besides the configuration. The status map is read by name, and a
provider without an entry shows the default one. -/
structure Sight where
  status : StatusMap
  meter : UsageMeter
  now : Int
  enabled : Bool

namespace Views

def priceJson (p : ModelPrice) : Value :=
  .object [("input", floatJson p.input), ("output", floatJson p.output)]

/-- A window of the configuration alone. -/
def windowJson (w : UsageWindow) : Map :=
  [("label", .string w.label), ("window_secs", Value.ofNat w.windowSecs),
    ("limit", floatJson w.limit)]

/-- A window with its live use. -/
def liveWindowJson (w : UsageWindow) (st : WindowStat) : Map :=
  windowJson w ++ [("spent", floatJson st.spent), ("remaining", floatJson st.remaining),
    ("reset_in_secs", Value.ofInt st.resetInSecs)]

/-- `usage_view`. -/
def usageView (meter : UsageMeter) (provider : String) (specs : List UsageSpec) (now : Int)
    (enabled : Bool) : List Value :=
  specs.map fun spec =>
    let windows := if enabled then
        List.zipWith (fun w st => Value.object (liveWindowJson w st)) spec.windows
          (meter.windows provider spec.kind spec.windows now)
      else spec.windows.map fun w => .object (windowJson w)
    let obj : Map := [("usage_type", .string spec.kind.asStr), ("unit", .string spec.kind.unit),
      ("windows", .array windows)]
    .object (match spec.modelPrices with
      | some prices => obj.insert "model_prices"
          (.object (prices.map fun (model, p) => (model, priceJson p)))
      | none => obj)

/-- What the two listings of providers have in common of a status. -/
def statusJson (s : ProviderStatus) : Map :=
  [("available", .bool s.available), ("quota_remaining", Value.orNull floatJson s.quotaRemaining),
    ("quota_used", Value.orNull floatJson s.quotaUsed),
    ("quota_limit", Value.orNull floatJson s.quotaLimit),
    ("last_checked", Value.orNull Value.ofInt s.lastChecked), ("last_ok", .bool s.lastOk),
    ("error", Value.ofOption s.error), ("note", Value.ofOption s.note)]

variable (o : Sight)

/-- A provider in the admin listing. The key is masked: only whether there is one shows. -/
def adminProviderJson (name : String) (p : Provider) : Value :=
  .object
    [("name", .string name), ("wire", .string p.wire.asStr), ("base_url", .string p.baseUrl),
      ("api_key_set", .bool p.apiKey.isSome), ("model_prefix", Value.ofOption p.modelPrefix),
      ("max_tokens_field", .string p.maxTokensField),
      ("extra_headers", .object (p.extraHeaders.map fun (k, v) => (k, .string v))),
      ("probe_script", Value.ofOption p.probeScript),
      ("probe_script_text", Value.ofOption p.probeScriptText),
      ("probe_source", .string (Store.probeSourceToStr p.probeSource)),
      ("models", .array (p.models.map .string)), ("probe_enabled", .bool p.isProbed),
      ("probe_enabled_override", Value.orNull .bool p.probeEnabled),
      ("probe_interval_secs", Value.orNull Value.ofNat p.probeIntervalSecs),
      ("quota_min", Value.orNull floatJson p.quotaMin),
      ("usage", .array (usageView o.meter name p.usage o.now o.enabled)),
      ("status", .object (statusJson ((o.status name).getD .new)))]

/-- A provider in the public listing. -/
def publicProviderJson (name : String) (p : Provider) : Value :=
  .object
    ([("name", .string name), ("base_url", .string p.baseUrl), ("probe_enabled", .bool p.isProbed),
        ("quota_min", Value.orNull floatJson p.quotaMin),
        ("usage", .array (usageView o.meter name p.usage o.now o.enabled))] ++
      statusJson ((o.status name).getD .new))

/-- A listing of the providers of a configuration. -/
def listing (json : String → Provider → Value) (cfg : Config) : Value :=
  .object [("providers", .array (sortBy "name" (cfg.providers.map fun (name, p) => json name p))),
    ("cost_tracking", .bool o.enabled)]

def listProviders (cfg : Config) : Value := listing o (adminProviderJson o) cfg

def providersStatus (cfg : Config) : Value := listing o (publicProviderJson o) cfg

def routeJson (r : Route) : Value :=
  .object [("alias", .string r.routeAlias), ("provider", .string r.provider),
    ("model", .string r.model), ("fallback", .array (r.fallback.map RouteTarget.json))]

def listRoutes (cfg : Config) : Value :=
  .object [("routes", .array (sortBy "alias" (cfg.routes.map routeJson))),
    ("fallback_route", Value.orNull RouteTarget.json cfg.fallbackRoute)]

def getUsage : Value := .object [("enabled", .bool o.enabled)]

def getFallbackRoute (cfg : Config) : Value :=
  .object [("fallback_route", Value.orNull RouteTarget.json cfg.fallbackRoute)]

def listModels (cfg : Config) : Value :=
  .object [("object", .string "list"), ("data", .array (cfg.routes.map fun r =>
    .object [("id", .string r.routeAlias), ("object", .string "model"),
      ("owned_by", .string r.provider)]))]

end Views

/-- A reading request. -/
inductive Query where
  | listProviders
  | listRoutes
  | getUsage
  | getFallbackRoute
  | providersStatus
  | listModels
  | health
  deriving DecidableEq, Repr

namespace Query

/-- Whether a query is one of the admin API. -/
def guarded : Query → Bool
  | listProviders | listRoutes | getUsage | getFallbackRoute => true
  | providersStatus | listModels | health => false

/-- What a query shows. -/
def view (o : Sight) (cfg : Config) : Query → Value
  | listProviders => Views.listProviders o cfg
  | listRoutes => Views.listRoutes cfg
  | getUsage => Views.getUsage o
  | getFallbackRoute => Views.getFallbackRoute cfg
  | providersStatus => Views.providersStatus o cfg
  | listModels => Views.listModels cfg
  | health => .string "ok"

end Query

/-! ## Sorted listings -/

theorem leChars_trans {as bs cs : List Char} (h : leChars as bs = true)
    (h' : leChars bs cs = true) : leChars as cs = true := by
  induction as generalizing bs cs with
  | nil => rfl
  | cons a as ih =>
      cases bs with
      | nil => cases h
      | cons b bs =>
          cases cs with
          | nil => cases h'
          | cons c cs =>
              rw [leChars] at *
              by_cases hab : a = b
              · subst hab
                by_cases hac : a = c
                · subst hac
                  rw [if_pos rfl] at *
                  exact ih h h'
                · rwa [if_neg hac] at *
              · rw [if_neg hab] at h
                by_cases hbc : b = c
                · subst hbc
                  rwa [if_neg hab]
                · rw [if_neg hbc] at h'
                  have hlt := (of_decide_eq_true h).trans (of_decide_eq_true h')
                  rw [if_neg (fun heq => by rw [heq] at hlt; exact Nat.lt_irrefl _ hlt)]
                  exact decide_eq_true hlt

theorem leChars_total (as bs : List Char) : (leChars as bs || leChars bs as) = true := by
  induction as generalizing bs with
  | nil => rfl
  | cons a as ih =>
      cases bs with
      | nil => rfl
      | cons b bs =>
          rw [leChars, leChars]
          by_cases hab : a = b
          · rw [if_pos hab, if_pos hab.symm]
            exact ih bs
          · rw [if_neg hab, if_neg (Ne.symm hab)]
            have : a.toNat ≠ b.toNat := fun h => hab (Char.toNat_inj.1 h)
            simp only [Bool.or_eq_true, decide_eq_true_eq]
            omega

theorem leChars_antisymm {as bs : List Char} (h : leChars as bs = true)
    (h' : leChars bs as = true) : as = bs := by
  induction as generalizing bs with
  | nil =>
      cases bs with
      | nil => rfl
      | cons b bs => cases h'
  | cons a as ih =>
      cases bs with
      | nil => cases h
      | cons b bs =>
          rw [leChars] at h h'
          by_cases hab : a = b
          · subst hab
            rw [if_pos rfl] at h h'
            rw [ih h h']
          · rw [if_neg hab] at h
            rw [if_neg (Ne.symm hab)] at h'
            exact absurd (of_decide_eq_true h) (Nat.lt_asymm (of_decide_eq_true h'))

theorem leName_trans {a b c : Option String} (h : leName a b = true) (h' : leName b c = true) :
    leName a c = true := by
  cases a with
  | none => rfl
  | some a =>
      cases b with
      | none => cases h
      | some b =>
          cases c with
          | none => cases h'
          | some c => exact leChars_trans h h'

theorem leName_total (a b : Option String) : (leName a b || leName b a) = true := by
  cases a with
  | none => rfl
  | some a =>
      cases b with
      | none => rfl
      | some b => exact leChars_total a.toList b.toList

theorem leName_antisymm {a b : Option String} (h : leName a b = true) (h' : leName b a = true) :
    a = b := by
  cases a with
  | none =>
      cases b with
      | none => rfl
      | some b => cases h'
  | some a =>
      cases b with
      | none => cases h
      | some b => exact congrArg some (String.toList_injective (leChars_antisymm h h'))

/-- **The order of a hash map does not show**: values with different keys are sorted into one
and the same list. -/
theorem sortBy_perm {key : String} {vs vs' : List Value} (h : vs.Perm vs')
    (hdistinct : (vs.map fun v => (v.get key).bind Value.asStr).Nodup) :
    sortBy key vs = sortBy key vs' := by
  have hsorted : ∀ ws : List Value, (sortBy key ws).Pairwise fun a b =>
      leName ((a.get key).bind Value.asStr) ((b.get key).bind Value.asStr) = true := fun ws =>
    @List.pairwise_mergeSort _
      (fun a b => leName ((a.get key).bind Value.asStr) ((b.get key).bind Value.asStr))
      (fun _ _ _ => leName_trans) (fun _ _ => leName_total _ _) ws
  have hperm : (sortBy key vs).Perm (sortBy key vs') :=
    (List.mergeSort_perm vs _).trans (h.trans (List.mergeSort_perm vs' _).symm)
  refine hperm.eq_of_pairwise (fun a b ha hb hab hba => ?_) (hsorted vs) (hsorted vs')
  -- two entries of one name are one entry
  have hname := leName_antisymm hab hba
  have hmem : ∀ {v}, v ∈ sortBy key vs → v ∈ vs := fun hv => (List.mergeSort_perm vs _).mem_iff.1 hv
  exact List.inj_on_of_nodup_map hdistinct (hmem ha) (hmem (hperm.mem_iff.2 hb)) hname

end AiApiBridge
