import Nasiko.LlmRouter.Ir

/-!
# The configuration of a call

`GatewayConfig` is what the router is started with, and `ResolvedConfig` what was found for the
agent that calls: a provider, a model and a key. There are four providers that the router knows;
any other is registered with an endpoint of its own.
-/

namespace Nasiko.LlmRouter

/-- An error that is reported to the caller. -/
inductive GatewayError where
  | badRequest (message : Str)
  | noRegistryEntry (agentId : Str)
  | secretNotFound (name ownerId : Str)
  | noApiKey
  | forbidden (message : Str)
  | upstream (message : Str)
  | internal (message : Str)
  deriving DecidableEq

/-- How an endpoint is spoken to. -/
inductive ProviderDialect where
  | openAi
  | azureOpenAi (apiVersion : Str)
  | bedrockConverse
  deriving DecidableEq

structure CustomEndpoint where
  baseUrl : Str
  dialect : ProviderDialect
  deriving DecidableEq

/-- The configuration of a call; `F` is `f64`. -/
structure ResolvedConfig (F : Type) where
  provider : Str
  model : Str
  litellmModel : Str
  apiKey : Str
  fallbackModels : List Str
  temperature : Option F
  maxTokens : Option Int
  hasLlmConfig : Bool
  pinnedModel : Option Str
  tier1Model : Option Str
  tier2Model : Option Str
  tier3Model : Option Str
  platformPaid : Bool
  customEndpoint : Option CustomEndpoint
  isCodingAgent : Bool
  compressEnabled : Bool
  deriving DecidableEq

structure GatewayConfig where
  /-- The tier of a prompt is drawn from this seed, if there is one. -/
  routerTierSeed : Option Nat
  platformOpenaiApiKey : Str
  platformAnthropicApiKey : Str
  platformGeminiApiKey : Str
  platformOpenrouterApiKey : Str
  openaiApiBase : Str
  openaiMaxTools : Nat
  anthropicApiBase : Str
  geminiApiBase : Str
  openrouterApiBase : Str
  openrouterHttpReferer : Str
  openrouterXTitle : Str
  deriving DecidableEq

namespace GatewayConfig

/-- The key of the platform for a provider that the router knows. -/
def platformKeyFor (cfg : GatewayConfig) (provider : Str) : Str :=
  if provider = "openai" then cfg.platformOpenaiApiKey
  else if provider = "anthropic" then cfg.platformAnthropicApiKey
  else if provider = "gemini" then cfg.platformGeminiApiKey
  else if provider = "openrouter" then cfg.platformOpenrouterApiKey
  else []

end GatewayConfig

/-- A gateway without keys of its own. -/
def sampleGateway : GatewayConfig :=
  { routerTierSeed := none
    platformOpenaiApiKey := []
    platformAnthropicApiKey := []
    platformGeminiApiKey := []
    platformOpenrouterApiKey := []
    openaiApiBase := "https://api.openai.com/v1"
    openaiMaxTools := 128
    anthropicApiBase := "https://api.anthropic.com/v1"
    geminiApiBase := "https://generativelanguage.googleapis.com/v1beta"
    openrouterApiBase := "https://openrouter.ai/api/v1"
    openrouterHttpReferer := []
    openrouterXTitle := [] }

structure FunctionDef (N : Type) where
  name : Str
  description : Option Str
  /-- The schema of the arguments. -/
  parameters : Option (Json N)

structure ToolDef (N : Type) where
  kind : Str
  function : FunctionDef N
  extra : Entries (Json N)

/-- A request for a reply; `extra` are the parameters that the router does not know. -/
structure ChatRequest (N F : Type) where
  model : Option Str
  messages : List (Message N)
  tools : Option (List (ToolDef N))
  toolChoice : Option (Json N)
  temperature : Option F
  maxTokens : Option Int
  stream : Option Bool
  extra : Entries (Json N)

end Nasiko.LlmRouter
