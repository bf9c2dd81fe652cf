import Nasiko.Concurrency.Program
import Nasiko.LlmRouter.Config
import Nasiko.Text.Search

/-!
# Which model is called

The resolver has fixed the provider; the routing decides about the model. A pinned model is taken as
it is. Else the decision of the conversation is looked up, and if there is none and the call is at a
boundary, the prompt is judged: small talk gets the cheapest model, and for anything else a tier is
drawn, whose model becomes the decision of the conversation. In all other cases it is the configured
model.

`routeModelWith` is a program over the commands of the stores it asks. None of them fails: an error
is a miss, and a failed write is dropped.
-/

namespace Nasiko.LlmRouter

open Concurrency Program

/-! ## Tiers and decisions -/

/-- From the strongest model to the smallest. -/
inductive Tier where
  | tier1
  | tier2
  | tier3
  deriving DecidableEq

inductive RequestType where
  | codeGeneration
  | codeUnderstanding
  | technicalDesign
  | analyticalReasoning
  | writing
  | factualLookup
  | general
  deriving DecidableEq

structure CachedDecision where
  model : Str
  tier : Option Tier
  requestType : Option RequestType
  deriving DecidableEq

/-- How a model was chosen. -/
inductive RouteSource where
  | pinned
  | cacheHit
  | smallTalk
  | classified
  | config
  | default
  deriving DecidableEq

structure RouteDecision where
  model : Str
  tier : Option Tier
  source : RouteSource
  deriving DecidableEq

/-! ## Boundaries -/

inductive Phase where
  | coldStart
  | switch
  | continue
  deriving DecidableEq

inductive Mode where
  | freeFlowing
  | pinnedFlow
  deriving DecidableEq

/-- Where a call stands in its conversation. -/
structure BoundarySignals where
  convId : Option Str
  phase : Phase
  mode : Mode
  deriving DecidableEq

/-- What the routing reads from a request. -/
structure RequestSignals where
  query : Option Str
  turnOrdinal : Nat
  isToolContinuation : Bool
  deriving DecidableEq

/-- The functions of the routing that compute in the process: whether a prompt is more than small
talk, what it says about the answer before it, which type it has by its words, and the hash of a
turn as 16 digits. -/
structure Judgement (F : Type) where
  isSubstantive : Str → Bool
  signal : Str → Option F
  classifyRequestType : Str → RequestType
  turnHash : Str → Nat → Str → Str

namespace BoundarySignals

/-- A call of a flow is always at a boundary. -/
def inFlow (flowId : Str) (mode : Mode) : BoundarySignals := ⟨some flowId, .switch, mode⟩

/-- A coding agent has a conversation for each turn. -/
def forCodingAgent {F : Type} (judge : Judgement F) (agentId : Str) (turnOrdinal : Nat)
    (latestUserText : Option Str) (isToolContinuation : Bool) : BoundarySignals :=
  ⟨some ("coding-agent-" ++ judge.turnHash agentId turnOrdinal (latestUserText.getD [])),
    if isToolContinuation then .continue else .switch, .freeFlowing⟩

def isFireableBoundary (s : BoundarySignals) : Bool :=
  (s.phase == .switch || s.phase == .coldStart) && s.mode == .freeFlowing

end BoundarySignals

section

variable {N : Type}

/-- What stands between the history and the last message of the user. -/
def currentMarker : Str := "\n\nCurrent message: "

variable (messages : List (Message N))

/-- The text of the last message of the user, without the history that may stand before it. -/
def latestUserQuery : Option Str :=
  ((messages.reverse.find? fun m => m.role == "user".toList).bind Message.text).map fun text =>
    match Text.splitFirst currentMarker text with
    | some (_, found) =>
      let current := found.drop currentMarker.length
      if current.isEmpty then text else current
    | none => text

def userTurnOrdinal : Nat :=
  (messages.filter fun m => m.role == "user".toList).length

def isToolContinuation : Bool :=
  messages.getLast?.any fun m => m.role == "tool".toList

def requestSignals : RequestSignals :=
  ⟨latestUserQuery messages, userTurnOrdinal messages, isToolContinuation messages⟩

end

/-! ## Commands -/

/-- What the routing asks for; `K` is what has been learned about the tiers of a provider. -/
inductive RouteCommand (K F : Type) where
  | cacheGet (convId agentId : Str)
  | cachePut (convId agentId : Str) (decision : CachedDecision)
  | observe (provider : Str) (tier : Tier) (requestType : RequestType) (observation : F)
  | load (provider : Str)
  /-- The type that the classifier gives, if it does not fail. -/
  | classify (query : Str)
  /-- A tier is drawn, from the seed if there is one. -/
  | classifyTyped (seed : Option Nat) (provider query : Str) (requestType : RequestType)
      (learned : K)
  | modelFor (provider : Str) (tier : Tier)

abbrev RouteCommand.Reply {K F : Type} : RouteCommand K F → Type
  | .cacheGet _ _ => Option CachedDecision
  | .cachePut _ _ _ => Unit
  | .observe _ _ _ _ => Unit
  | .load _ => K
  | .classify _ => Option RequestType
  | .classifyTyped _ _ _ _ _ => Tier
  | .modelFor _ _ => Option Str

/-! ## The decision -/

structure RouteInputs where
  agentId : Str
  provider : Str
  fallbackModel : Str
  hasLlmConfig : Bool
  pinnedModel : Option Str
  tier1Model : Option Str
  tier2Model : Option Str
  tier3Model : Option Str
  signals : BoundarySignals
  query : Option Str
  tierSeed : Option Nat

namespace RouteInputs

variable (inputs : RouteInputs)

def tierModel : Tier → Option Str
  | .tier1 => inputs.tier1Model
  | .tier2 => inputs.tier2Model
  | .tier3 => inputs.tier3Model

/-- The conversation, if there is one and routing is wanted. -/
def conversation : Option Str :=
  if inputs.hasLlmConfig then inputs.signals.convId else none

/-- The prompt, if the call is at a boundary. -/
def boundaryQuery : Option Str :=
  if inputs.signals.isFireableBoundary then inputs.query else none

/-- The configured model, or that of the request. -/
def unrouted : RouteDecision :=
  ⟨inputs.fallbackModel, none, if inputs.hasLlmConfig then .config else .default⟩

end RouteInputs

section

abbrev Routing (K F E : Type) : Type → Type := Program (RouteCommand K F) RouteCommand.Reply E

variable {K F E : Type}

abbrev ask (c : RouteCommand K F) : Routing K F E c.Reply := perform c

variable (judge : Judgement F) (inputs : RouteInputs)

/-- What the prompt says about the answer before it is added to what is known about its tier. -/
def maybeLearn (tier : Option Tier) (requestType : Option RequestType) : Routing K F E Unit :=
  match inputs.query, tier, requestType with
  | some query, some tier, some rt =>
    match judge.signal query with
    | some observation => ask (.observe inputs.provider tier rt observation)
    | none => pure ()
  | _, _, _ => pure ()

def smallTalkModel : Routing K F E Str :=
  match inputs.tier3Model with
  | some model => pure model
  | none => do
    let registered : Option Str ← ask (.modelFor inputs.provider .tier3)
    pure (registered.getD inputs.fallbackModel)

/-- The model of a tier: that of the configuration, or that of the registry. -/
def tierModelFor (tier : Tier) : Routing K F E (Option Str) :=
  match inputs.tierModel tier with
  | some model => pure (some model)
  | none => ask (.modelFor inputs.provider tier)

/-- A tier is drawn, and the decision is written. -/
def classifyAndPin (convId query : Str) : Routing K F E RouteDecision := do
  let learned : K ← ask (.load inputs.provider)
  let classified : Option RequestType ← ask (.classify query)
  let requestType := classified.getD (judge.classifyRequestType query)
  let tier : Tier ←
    ask (.classifyTyped inputs.tierSeed inputs.provider query requestType learned)
  let tierModel ← tierModelFor inputs tier
  match tierModel with
  | some model => do
    ask (.cachePut convId inputs.agentId ⟨model, some tier, some requestType⟩)
    pure ⟨model, some tier, .classified⟩
  | none => pure inputs.unrouted

/-- What is done if there is no decision for the conversation. -/
def routeMiss (convId : Str) : Routing K F E RouteDecision :=
  match inputs.boundaryQuery with
  | none => pure inputs.unrouted
  | some query =>
    if judge.isSubstantive query then classifyAndPin judge inputs convId query
    else do
      let model ← smallTalkModel inputs
      pure ⟨model, none, .smallTalk⟩

def routeModelWith : Routing K F E RouteDecision :=
  match inputs.pinnedModel with
  | some model => pure ⟨model, none, .pinned⟩
  | none =>
    match inputs.conversation with
    | none => pure inputs.unrouted
    | some convId => do
      let cached : Option CachedDecision ← ask (.cacheGet convId inputs.agentId)
      match cached with
      | some hit => do
        maybeLearn judge inputs hit.tier hit.requestType
        pure ⟨hit.model, hit.tier, .cacheHit⟩
      | none => routeMiss judge inputs convId

end

/-! ## What a call brings along -/

/-- The flow that a call belongs to. -/
structure FlowAttribution where
  flowId : Str
  userId : Option Str
  contextId : Option Str
  mode : Mode
  deriving DecidableEq

/-- The conversation of a flow is that of its context. -/
def boundarySignalsFor (a : FlowAttribution) : BoundarySignals :=
  .inFlow ((a.contextId.filter fun s => !s.isEmpty).getD a.flowId) a.mode

/-- What is routed by. -/
def routeInputs {F : Type} (cfg : GatewayConfig) (agentId : Str) (resolved : ResolvedConfig F)
    (boundary : BoundarySignals) (signals : RequestSignals) : RouteInputs :=
  { agentId := agentId
    provider := resolved.provider
    fallbackModel := resolved.model
    hasLlmConfig := resolved.hasLlmConfig
    pinnedModel := resolved.pinnedModel
    tier1Model := resolved.tier1Model
    tier2Model := resolved.tier2Model
    tier3Model := resolved.tier3Model
    signals := boundary
    query := signals.query
    tierSeed := cfg.routerTierSeed }

end Nasiko.LlmRouter
