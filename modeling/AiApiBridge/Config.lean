import AiApiBridge.Canonical

/-!
# Bridge configuration

Providers (outbound targets), model routes and usage specs (`config.rs`). The
source's hash maps are lists of entries read by key; `u64` fields are natural
numbers and `f64` fields floating-point values.
-/

set_option autoImplicit false

namespace AiApiBridge

/-- Whether a probe script is a file path or inline text. -/
inductive ProbeSource where
  | path
  | text
  deriving DecidableEq, Repr

/-- Pay-as-you-go price of one model, in dollars per million tokens. -/
structure ModelPrice where
  input : FloatValue
  output : FloatValue
  deriving DecidableEq, Repr

/-- A rolling cost window of the legacy configuration. -/
structure CostWindow where
  label : String
  windowSecs : Nat
  limit : FloatValue
  deriving DecidableEq, Repr

/-- The currency a provider is metered in. -/
inductive UsageKind where
  | billing
  | count
  | token
  deriving DecidableEq, Repr

/-- One rolling limit window of a usage kind. -/
structure UsageWindow where
  label : String
  windowSecs : Nat
  limit : FloatValue
  deriving DecidableEq, Repr

/-- A usage kind with its windows and, for billing, the per-model prices. -/
inductive UsageSpec where
  | billing (windows : List UsageWindow) (modelPrices : List (String × ModelPrice))
  | count (windows : List UsageWindow)
  | token (windows : List UsageWindow)
  deriving DecidableEq, Repr

namespace UsageSpec

def kind : UsageSpec → UsageKind
  | billing _ _ => .billing
  | count _ => .count
  | token _ => .token

def windows : UsageSpec → List UsageWindow
  | billing ws _ => ws
  | count ws => ws
  | token ws => ws

/-- Per-model prices; billing specs only. -/
def modelPrices : UsageSpec → Option (List (String × ModelPrice))
  | billing _ prices => some prices
  | _ => none

end UsageSpec

inductive WireName where
  | openaiChat
  | openaiResponses
  | anthropicMessages
  deriving DecidableEq, Repr

namespace WireName

/-- The kebab-case wire string. -/
def asStr : WireName → String
  | openaiChat => "openai-chat"
  | openaiResponses => "openai-responses"
  | anthropicMessages => "anthropic-messages"

/-- Parse the kebab-case wire string. -/
def parse (s : String) : Option WireName :=
  if s = "openai-chat" then some openaiChat
  else if s = "openai-responses" then some openaiResponses
  else if s = "anthropic-messages" then some anthropicMessages
  else none

/-- `parse` inverts `asStr`. -/
theorem parse_asStr (w : WireName) : parse w.asStr = some w := by
  cases w <;> rfl

end WireName

/-- An outbound target. -/
structure Provider where
  wire : WireName
  baseUrl : String
  apiKey : Option String
  modelPrefix : Option String
  maxTokensField : String
  extraHeaders : List (String × String)
  probeScript : Option String
  probeScriptText : Option String
  probeSource : ProbeSource
  probeEnabled : Option Bool
  probeIntervalSecs : Option Nat
  quotaMin : Option FloatValue
  costWindows : List CostWindow
  modelPrices : List (String × ModelPrice)
  usage : List UsageSpec
  models : List String
  deriving DecidableEq, Repr

/-- Fold legacy cost windows and prices into a billing spec when no usage spec
is given. -/
def Provider.normalizeUsage (p : Provider) : Provider :=
  if p.usage = [] ∧ (p.costWindows ≠ [] ∨ p.modelPrices ≠ []) then
    { p with usage := [.billing (p.costWindows.map fun w => ⟨w.label, w.windowSecs, w.limit⟩)
        p.modelPrices] }
  else p

/-- Folding twice is folding once. -/
theorem Provider.normalizeUsage_idem (p : Provider) :
    p.normalizeUsage.normalizeUsage = p.normalizeUsage := by
  by_cases h : p.usage = [] ∧ (p.costWindows ≠ [] ∨ p.modelPrices ≠ []) <;>
    simp [Provider.normalizeUsage, h]

/-- A (provider, model) pair. -/
structure RouteTarget where
  provider : String
  model : String
  deriving DecidableEq, Repr

/-- A model route. `routeAlias` is the source's `alias`. -/
structure Route where
  routeAlias : String
  provider : String
  model : String
  fallback : List RouteTarget
  deriving DecidableEq, Repr

structure Config where
  listen : String
  database : String
  defaultProvider : Option String
  authToken : Option String
  costTracking : Bool
  providers : List (String × Provider)
  routes : List Route
  fallbackRoute : Option RouteTarget
  deriving DecidableEq, Repr

namespace Config

/-- `Config::from_toml`. `toml` is `toml::from_str` at `Config`. -/
def fromToml (toml : String → Except String Config) (text : String) : Except String Config :=
  (toml text).map fun cfg =>
    { cfg with providers := cfg.providers.map fun (name, p) => (name, p.normalizeUsage) }

/-- The variable that overrides a provider's key. `toUppercase` is the
Unicode-aware `str::to_uppercase`. -/
def envKey (toUppercase : String → String) (name : String) : String :=
  "BRIDGE_PROVIDERS_" ++ toUppercase name ++ "_API_KEY"

/-- Overlay the environment's api keys onto the providers. `env` is the process
environment. -/
def applyEnvOverrides (toUppercase : String → String) (env : String → Option String)
    (cfg : Config) : Config :=
  { cfg with providers := cfg.providers.map fun (name, p) =>
      (name, match env (envKey toUppercase name) with
        | some val => { p with apiKey := some val }
        | none => p) }

end Config

end AiApiBridge
