import AiApiBridge.Server

/-!
# The admin API

The writing endpoints of `admin.rs`: create, update and delete of providers and
routes, and the global fallback route. Every handler checks its input against the
snapshot it took on entry, runs one writing statement and reloads. Inputs are the
deserialized request bodies.
-/

set_option autoImplicit false

namespace AiApiBridge

open Store Refresh

namespace Admin

/-- Trim, and drop what is left empty. -/
def nonEmpty (s : Option String) : Option String :=
  (s.map fun s => String.ofList (Sse.trim s.toList)).filter fun s => s ≠ ""

/-- A required field. -/
def required {α : Type} (x : Option α) (message : String) : Except BridgeError α :=
  match x with
  | some a => .ok a
  | none => .error (.badRequest message)

/-! ## Inputs -/

structure ProviderInput where
  name : Option String
  wire : String
  baseUrl : String
  apiKey : Option String
  modelPrefix : Option String
  maxTokensField : Option String
  extraHeaders : List (String × String)
  probeScript : Option String
  probeScriptText : Option String
  probeSource : Option String
  probeEnabled : Option Bool
  probeIntervalSecs : Option Nat
  quotaMin : Option FloatValue
  costWindows : List CostWindow
  modelPrices : List (String × ModelPrice)
  usage : List UsageSpec
  models : List String
  deriving DecidableEq, Repr

def parseProbeSource (s : Option String) : ProbeSource :=
  if s = some "text" then .text else .path

/-- Build a provider. A blank key is replaced by the existing one. -/
def ProviderInput.intoProvider (input : ProviderInput) (existingApiKey : Option String) :
    Except BridgeError Provider :=
  match WireName.parse input.wire with
  | none =>
      .error (.badRequest ("unknown wire '" ++ input.wire ++
        "' (expected openai-chat | openai-responses | anthropic-messages)"))
  | some wire =>
      let baseUrl := String.ofList (Sse.trim input.baseUrl.toList)
      if baseUrl = "" then .error (.badRequest "base_url is required")
      else
        let provider : Provider :=
          { wire
            baseUrl
            apiKey := (nonEmpty input.apiKey).or existingApiKey
            modelPrefix := nonEmpty input.modelPrefix
            maxTokensField := (nonEmpty input.maxTokensField).getD "max_tokens"
            extraHeaders := input.extraHeaders
            probeScript := nonEmpty input.probeScript
            probeScriptText := nonEmpty input.probeScriptText
            probeSource := parseProbeSource input.probeSource
            probeEnabled := input.probeEnabled
            probeIntervalSecs := input.probeIntervalSecs
            quotaMin := input.quotaMin
            costWindows := input.costWindows
            modelPrices := input.modelPrices
            usage := input.usage
            models := input.models }
        .ok provider.normalizeUsage

structure RouteInput where
  routeAlias : Option String
  provider : String
  model : String
  fallback : List RouteTarget
  deriving DecidableEq, Repr

/-- Whether a provider is configured. -/
def knows (providers : List (String × Provider)) (name : String) : Bool :=
  (providers.lookup name).isSome

/-- Build a route, checking its providers. -/
def RouteInput.intoRoute (input : RouteInput) (routeAlias : String)
    (providers : List (String × Provider)) : Except BridgeError Route :=
  let provider := String.ofList (Sse.trim input.provider.toList)
  let model := String.ofList (Sse.trim input.model.toList)
  if model = "" then .error (.badRequest "model is required")
  else if !knows providers provider then
    .error (.badRequest ("unknown provider: " ++ provider))
  else
    match input.fallback.find? fun fb => !knows providers fb.provider with
    | some fb => .error (.badRequest ("unknown fallback provider: " ++ fb.provider))
    | none => .ok ⟨routeAlias, provider, model, input.fallback⟩

structure FallbackRouteInput where
  provider : Option String
  model : Option String
  deriving DecidableEq, Repr

/-- The target that is set; nothing when both fields are blank. -/
def FallbackRouteInput.target (input : FallbackRouteInput) (providers : List (String × Provider)) :
    Except BridgeError (Option RouteTarget) :=
  match nonEmpty input.provider, nonEmpty input.model with
  -- two blank fields clear the fallback route
  | none, none => .ok none
  | some provider, some model =>
      if knows providers provider then .ok (some ⟨provider, model⟩)
      else .error (.badRequest ("unknown provider: " ++ provider))
  | _, _ =>
      .error (.badRequest "provider and model must both be set (or both blank to clear)")

end Admin

/-! ## Statements -/

namespace Store

variable (host : Host)

def getProvider (name : String) : Handler BridgeError (Option Provider) :=
  .access (fun s => (s, .quiet)) fun s =>
    match s.db.providers.get? name with
    | none => .ok none
    | some row => ((rowToProvider host.columns row).map some).mapError .internal

def insertProvider (name : String) (p : Provider) : Handler BridgeError Nat :=
  execute host [.providers] (Database.insertProvider (providerRow host.columns name p))

def updateProvider (name : String) (p : Provider) : Handler BridgeError Nat :=
  execute host [.providers] (Database.updateProvider (providerRow host.columns name p))

def deleteProvider (name : String) : Handler BridgeError Nat :=
  execute host [.providers, .routes] (Database.deleteProvider name)

def insertRoute (r : Route) : Handler BridgeError Nat :=
  execute host [.routes] (Database.insertRoute (routeRow host.columns r))

def updateRoute (r : Route) : Handler BridgeError Nat :=
  execute host [.routes] (Database.updateRoute (routeRow host.columns r))

def deleteRoute (routeAlias : String) : Handler BridgeError Nat :=
  execute host [.routes] (Database.deleteRoute routeAlias)

def saveFallbackRoute (fb : Option RouteTarget) : Handler BridgeError Nat :=
  execute host [.settings]
    (Database.replaceSetting fallbackRouteKey (host.columns.fallbackRoute.toString fb))

end Store

/-! ## Handlers -/

namespace Admin

variable (host : Host) (headers : HeaderMap)

/-- What every handler starts with: a snapshot, the authentication and the database
handle. -/
def enter : Handler BridgeError Config := do
  let cfg ← config
  checkAuth cfg headers
  pool host
  pure cfg

def createProvider (input : ProviderInput) : Handler BridgeError Value := do
  let _ ← enter host headers
  let name ← required (nonEmpty input.name) "name is required"
  if (← getProvider host name).isSome then
    Attempt.lift (.error (.conflict ("provider '" ++ name ++ "' already exists")))
  else do
    let provider ← input.intoProvider none
    let _ ← insertProvider host name provider
    reloadFromDb host
    pure (.object [("ok", .bool true), ("name", .string name)])

def updateProvider (name : String) (input : ProviderInput) : Handler BridgeError Value := do
  let _ ← enter host headers
  match ← getProvider host name with
  | none => Attempt.lift (.error (.notFound ("no such provider: " ++ name)))
  | some existing => do
      -- a blank key keeps the one that is stored
      let provider ← input.intoProvider existing.apiKey
      let _ ← Store.updateProvider host name provider
      reloadFromDb host
      pure (.object [("ok", .bool true), ("name", .string name)])

def deleteProvider (name : String) : Handler BridgeError Value := do
  let _ ← enter host headers
  let n ← Store.deleteProvider host name
  if n = 0 then Attempt.lift (.error (.notFound ("no such provider: " ++ name)))
  else do
    reloadFromDb host
    pure (.object [("ok", .bool true)])

def setFallbackRoute (input : FallbackRouteInput) : Handler BridgeError Value := do
  let cfg ← enter host headers
  let target ← input.target cfg.providers
  let _ ← saveFallbackRoute host target
  reloadFromDb host
  pure (.object [("ok", .bool true), ("fallback_route", match target with
    | some t => .object [("provider", .string t.provider), ("model", .string t.model)]
    | none => .null)])

def createRoute (input : RouteInput) : Handler BridgeError Value := do
  let cfg ← enter host headers
  let routeAlias ← required (nonEmpty input.routeAlias) "alias is required"
  -- looked up in the live configuration, not in the database
  if cfg.routes.any fun r => r.routeAlias = routeAlias then
    Attempt.lift (.error (.conflict ("route '" ++ routeAlias ++ "' already exists")))
  else do
    let route ← input.intoRoute routeAlias cfg.providers
    let _ ← insertRoute host route
    reloadFromDb host
    pure (.object [("ok", .bool true), ("alias", .string routeAlias)])

def updateRoute (routeAlias : String) (input : RouteInput) : Handler BridgeError Value := do
  let cfg ← enter host headers
  if cfg.routes.any fun r => r.routeAlias = routeAlias then do
    let route ← input.intoRoute routeAlias cfg.providers
    let _ ← Store.updateRoute host route
    reloadFromDb host
    pure (.object [("ok", .bool true), ("alias", .string routeAlias)])
  else
    Attempt.lift (.error (.notFound ("no such route: " ++ routeAlias)))

def deleteRoute (routeAlias : String) : Handler BridgeError Value := do
  let _ ← enter host headers
  let n ← Store.deleteRoute host routeAlias
  if n = 0 then Attempt.lift (.error (.notFound ("no such route: " ++ routeAlias)))
  else do
    reloadFromDb host
    pure (.object [("ok", .bool true)])

/-- An admin write with its input. -/
inductive Write where
  | createProvider (input : ProviderInput)
  | updateProvider (name : String) (input : ProviderInput)
  | deleteProvider (name : String)
  | createRoute (input : RouteInput)
  | updateRoute (routeAlias : String) (input : RouteInput)
  | deleteRoute (routeAlias : String)
  | setFallbackRoute (input : FallbackRouteInput)
  deriving DecidableEq, Repr

def Write.handler : Write → Handler BridgeError Value
  | .createProvider input => Admin.createProvider host headers input
  | .updateProvider name input => Admin.updateProvider host headers name input
  | .deleteProvider name => Admin.deleteProvider host headers name
  | .createRoute input => Admin.createRoute host headers input
  | .updateRoute routeAlias input => Admin.updateRoute host headers routeAlias input
  | .deleteRoute routeAlias => Admin.deleteRoute host headers routeAlias
  | .setFallbackRoute input => Admin.setFallbackRoute host headers input

end Admin

end AiApiBridge
