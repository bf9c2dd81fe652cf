import Nasiko.LlmRouter.Config
import Nasiko.LlmRouter.Providers.ToolBlocks

/-!
# Calls with fallbacks

A call is first made with the primary configuration. If it fails, the fallback models are tried in
their order, with the key of the primary if they have the same provider, and else with the key of
the platform for theirs. A provider may refuse a parameter, or ask for another value of it; the
request is then sent again with this change, at most `maxParamFixes` times.

`executeChat` and `executeChatStream` give the result, and all requests that have been sent, in
their order. What a provider answers is a parameter, and so is what the client reads from an error
(`droppableParam`, `repairableParam`).
-/

namespace Nasiko.LlmRouter.Providers

/-! ## Clients -/

/-- A client of a provider. It sends its requests to URLs that start with its base, with the key of
the configuration it is called with. -/
inductive ProviderClient where
  | openAi (base : Str) (dialect : ProviderDialect) (maxTools : Nat)
  | anthropic (base : Str)
  | gemini (base : Str)
  | openRouter (base httpReferer xTitle : Str)
  | bedrockConverse (base : Str)
  deriving DecidableEq

def ProviderClient.base : ProviderClient → Str
  | openAi base _ _ => base
  | anthropic base => base
  | gemini base => base
  | openRouter base _ _ => base
  | bedrockConverse base => base

def noEndpoint (provider : Str) : Str :=
  "provider '" ++ provider ++ "' has no endpoint (unregistered custom provider?)"

section

variable {F : Type}

def providerFor (resolved : ResolvedConfig F) (cfg : GatewayConfig) :
    Except GatewayError ProviderClient :=
  if resolved.provider = "openai" then
    .ok (.openAi cfg.openaiApiBase .openAi cfg.openaiMaxTools)
  else if resolved.provider = "anthropic" then .ok (.anthropic cfg.anthropicApiBase)
  else if resolved.provider = "gemini" then .ok (.gemini cfg.geminiApiBase)
  else if resolved.provider = "openrouter" then
    .ok (.openRouter cfg.openrouterApiBase cfg.openrouterHttpReferer cfg.openrouterXTitle)
  else
    match resolved.customEndpoint with
    | some endpoint =>
      if endpoint.dialect = .bedrockConverse then .ok (.bedrockConverse endpoint.baseUrl)
      else .ok (.openAi endpoint.baseUrl endpoint.dialect 0)
    | none => .error (.internal (noEndpoint resolved.provider))

/-! ## Attempts -/

/-- The text before the first slash is the provider. -/
def splitPrefixed (entry defaultProvider : Str) : Str × Str :=
  if '/' ∈ entry then
    (entry.takeWhile (· ≠ '/'), (entry.dropWhile (· ≠ '/')).drop 1)
  else (defaultProvider, entry)

/-- The attempt for a fallback model; there is none if there is no key. -/
def fallbackAttempt (primary : ResolvedConfig F) (cfg : GatewayConfig) (entry : Str) :
    Option (ResolvedConfig F) :=
  let split := splitPrefixed entry primary.provider
  let same := split.1 = primary.provider
  let apiKey := if same then primary.apiKey else cfg.platformKeyFor split.1
  if apiKey.isEmpty then none
  else
    some
      { provider := split.1
        model := split.2
        litellmModel := entry
        apiKey := apiKey
        fallbackModels := []
        temperature := primary.temperature
        maxTokens := primary.maxTokens
        hasLlmConfig := primary.hasLlmConfig
        pinnedModel := none
        tier1Model := none
        tier2Model := none
        tier3Model := none
        platformPaid := if same then primary.platformPaid else true
        customEndpoint := if same then primary.customEndpoint else none
        isCodingAgent := primary.isCodingAgent
        compressEnabled := primary.compressEnabled }

def buildAttempts (primary : ResolvedConfig F) (cfg : GatewayConfig) : List (ResolvedConfig F) :=
  { primary with fallbackModels := [] } ::
    primary.fallbackModels.filterMap (fallbackAttempt primary cfg)

end

/-! ## Parameters -/

variable {N F : Type} [SerdeJson N F] [AsI64 N] [BEq F]

def maxParamFixes : Nat := 4

/-- The request and the configuration of an attempt, and the changes that have been made. -/
structure Work (N F : Type) where
  req : ChatRequest N F
  cfg : ResolvedConfig F
  applied : List (Str × Json N)

variable (w : Work N F)

def Work.withTemperature (t : Option F) : Work N F :=
  { w with req := { w.req with temperature := t }, cfg := { w.cfg with temperature := t } }

def Work.withMaxTokens (n : Option Int) : Work N F :=
  { w with req := { w.req with maxTokens := n }, cfg := { w.cfg with maxTokens := n } }

def isMaxTokens (param : Str) : Bool :=
  param == "max_tokens" || param == "max_completion_tokens"

/-- Remove a parameter; `none` if there was nothing to remove. -/
def stripParam (param : Str) : Option (Work N F) :=
  if param = "temperature" then
    if w.req.temperature.isSome || w.cfg.temperature.isSome then some (w.withTemperature none)
    else none
  else if isMaxTokens param then
    if w.req.maxTokens.isSome || w.cfg.maxTokens.isSome then some (w.withMaxTokens none) else none
  else if w.req.extra.containsKey param then
    some { w with req := { w.req with extra := w.req.extra.filter fun e => e.1 != param } }
  else none

/-- `Value::as_f64` -/
def asF64 : Json N → Option F
  | .number n => SerdeJson.asF64 n
  | _ => none

/-- Set a parameter; `none` if this does not change anything. -/
def applyParam (param : Str) (value : Json N) : Option (Work N F) :=
  if param = "temperature" then
    (asF64 value).bind fun t =>
      if w.cfg.temperature != some t || w.req.temperature != some t then
        some (w.withTemperature (some t))
      else none
  else if isMaxTokens param then
    value.asI64.bind fun n =>
      if w.cfg.maxTokens != some n || w.req.maxTokens != some n then
        some (w.withMaxTokens (some n))
      else none
  else if (w.req.extra.get? param).any fun old => old.eqv value then none
  else some { w with req := { w.req with extra := w.req.extra.insert param value } }

structure Remedies (N : Type) where
  droppableParam : ProviderClient → ProviderError → Option Str
  repairableParam : ProviderClient → ProviderError → Option (Str × Json N)

variable (remedies : Remedies N)

/-- Change a parameter as the error says; `none` if the request should not be sent again. -/
def tryFixParam (provider : ProviderClient) (err : ProviderError)
    (w : Work N F) : Option (Work N F) :=
  if maxParamFixes ≤ w.applied.length then none
  else
    match remedies.droppableParam provider err with
    | some param =>
      if w.applied.any fun fix => fix.1 == param then none
      else (stripParam w param).map fun w' => { w' with applied := w.applied ++ [(param, .null)] }
    | none =>
      match remedies.repairableParam provider err with
      | none => none
      | some (param, value) =>
        if w.applied.any fun fix => fix.1 == param && fix.2.eqv value then none
        else (applyParam w param value).map fun w' =>
          { w' with applied := w.applied ++ [(param, value)] }

/-! ## Execution -/

structure Sent (N F : Type) where
  streaming : Bool
  client : ProviderClient
  req : ChatRequest N F
  cfg : ResolvedConfig F

def Sent.apiKey (s : Sent N F) : Str := s.cfg.apiKey

variable {α : Type}

/-- The loop of one attempt. Each change of a parameter is counted, so it ends after
`maxParamFixes` changes; `fixes` is how many are left. -/
def attemptLoop (remedies : Remedies N) (answer : List (Sent N F) → Except ProviderError α)
    (streaming : Bool) (provider : ProviderClient) :
    Nat → Work N F → List (Sent N F) → Except ProviderError α × List (Sent N F)
  | fixes, w, sent =>
    let sent := sent ++ [⟨streaming, provider, w.req, w.cfg⟩]
    match answer sent with
    | .ok resp => (.ok resp, sent)
    | .error e =>
      match fixes, tryFixParam remedies provider e w with
      | fixes + 1, some w => attemptLoop remedies answer streaming provider fixes w sent
      | _, _ => (.error e, sent)

/-- The loop over the attempts; `last` is the last error. -/
def executeFrom (remedies : Remedies N) (answer : List (Sent N F) → Except ProviderError α)
    (streaming : Bool) (cfg : GatewayConfig) (req : ChatRequest N F) :
    List (ResolvedConfig F) → Option GatewayError → List (Sent N F) →
      Except GatewayError (α × Str × Str) × List (Sent N F)
  | [], last, sent => (.error (last.getD (.upstream "no provider attempts")), sent)
  | attempt :: rest, _, sent =>
    match providerFor attempt cfg with
    | .error e => executeFrom remedies answer streaming cfg req rest (some e) sent
    | .ok provider =>
      match attemptLoop remedies answer streaming provider maxParamFixes
        ⟨req, attempt, []⟩ sent with
      | (.ok resp, sent) => (.ok (resp, attempt.provider, attempt.model), sent)
      | (.error e, sent) =>
        executeFrom remedies answer streaming cfg req rest (some (.upstream e.text)) sent

/-- A reply, and the provider and the model it is from. -/
def executeChat
    (answer : List (Sent N F) → Except ProviderError (ChatResponse N)) (cfg : GatewayConfig)
    (primary : ResolvedConfig F) (req : ChatRequest N F) :
    Except GatewayError (ChatResponse N × Str × Str) × List (Sent N F) :=
  executeFrom remedies answer false cfg req (buildAttempts primary cfg) none []

/-- A stream of chunks, and the provider and the model it is from. -/
def executeChatStream
    (answer : List (Sent N F) → Except ProviderError (List (Except ProviderError ChatChunk)))
    (cfg : GatewayConfig) (primary : ResolvedConfig F) (req : ChatRequest N F) :
    Except GatewayError (List (Except ProviderError ChatChunk) × Str × Str) × List (Sent N F) :=
  executeFrom remedies answer true cfg req (buildAttempts primary cfg) none []

end Nasiko.LlmRouter.Providers
