import Nasiko.McpGateway.Commands

/-!
# Approvals

A tool whose stance is `ask` runs only if a human has agreed. `resolveToolApprovalRetry` looks
whether they have: there is a grant for the conversation, or there is a resolved request, which is
used up by claiming it. Otherwise a request is recorded and the agent is told to wait.
-/

namespace Nasiko.McpGateway

open Concurrency Program Command

variable (env : Env) (config : Config)

def resolveContextId (verifiedFlowId : Option Str) : Prog (Option Str) :=
  match verifiedFlowId with
  | none => pure none
  | some traceId => do
    let sessionId ← okOrNone (perform (sessionOfTrace traceId))
    pure (some (sessionId.getD traceId))

variable (userId agentId connectorId : Uuid)

/-- Record a request for approval; `none` where there is no flow, or the write failed. -/
def createToolApprovalId (toolName : Str) (verifiedFlowId : Option Str) : Prog (Option Uuid) := do
  match ← resolveContextId verifiedFlowId with
  | none => pure none
  | some contextId =>
    let question : Value := .object [("connector_id", .string (env.uuidText connectorId)),
      ("message", .string ("Tool '" ++ toolName ++
        "' requires user approval before it can run.")),
      ("tool_name", .string toolName)]
    match ← attempt (perform (createPendingToolApproval agentId userId connectorId toolName
      contextId question)) with
    | .ok id => pure (some id)
    | .error _ => pure none

inductive RetryOutcome where
  | proceed
  | denied
  | askAgain
  deriving DecidableEq

def decisionApprove : Str := "approve"

/-- Whether the human has agreed. -/
def ResolvedApproval.approved (row : ResolvedApproval) : Bool :=
  (row.humanResponse.bind fun r => strField r "decision") = some decisionApprove

/-- The key of a grant is the chat session; without one it is the conversation of the flow. -/
def sessionContextOf (userId agentId : Uuid) (contextId : Str) : Prog Str := do
  match ← attempt (perform (resolveStableSessionContext userId agentId contextId)) with
  | .ok (some sessionId) => pure sessionId
  | .ok none => pure contextId
  | .error _ => pure contextId

/-- Whether a human has decided about this tool: a grant is looked up, then a decision claimed. -/
def resolveToolApprovalRetry (toolName : Str)
    (verifiedFlowId : Option Str) : Prog RetryOutcome := do
  match ← resolveContextId verifiedFlowId with
  | none => pure .askAgain
  | some contextId =>
    let sessionContextId ← sessionContextOf userId agentId contextId
    match ← attempt (perform (hasActiveSessionGrant userId agentId connectorId toolName
      sessionContextId)) with
    | .error _ => pure .askAgain
    | .ok true => pure .proceed
    | .ok false =>
      match ← attempt (perform (claimResolvedToolApproval userId agentId connectorId
        toolName contextId)) with
      | .error _ => pure .askAgain
      | .ok none => pure .askAgain
      | .ok (some row) => pure (if row.approved then .proceed else .denied)

/-- Tell the agent that a human has to agree. -/
def askWithHitlRequest (toolName connectorLabel : Str)
    (reqId : Value) (verifiedFlowId : Option Str) : Prog Value := do
  let id ← createToolApprovalId env userId agentId connectorId toolName verifiedFlowId
  let data : Value := match id with
    | some id => .object [("hitl_request_id", .string (env.uuidText id)),
        ("server", .string connectorLabel)]
    | none => .object [("server", .string connectorLabel)]
  pure (errDataResponse reqId .toolAsk ("Tool '" ++ toolName ++
    "' requires user approval. Grant access in the agent settings.") data)

/-- The link for a Composio connector that has to be connected again, where one can be made. -/
def authUrl (userId connectorId : Uuid) : Prog (Option Str) := do
  match ← okOrNone (perform (getConnectorById connectorId)) with
  | some connector =>
    if connector.isComposio then okOrNone (perform (composioConnect userId connector.id))
    else pure none
  | none => pure none

/-- Record that the user has to authenticate, and tell the agent. -/
def handleAuthRequired (userId : Uuid) (reqId : Value) (agentId connectorId : Uuid)
    (connectorName : Str) (verifiedFlowId : Option Str) : Prog Value := do
  let genericError := errResponse reqId .invalidParams (notAvailable connectorName)
  match ← resolveContextId verifiedFlowId with
  | none => pure genericError
  | some contextId =>
    let url ← authUrl userId connectorId
    let message := "Authentication for connector '" ++ connectorName ++
      "' is missing or no longer works. A human must re-authenticate before this tool can be "
      ++ "used again."
    let question : Value := .object ((url.toList.map fun u => ("auth_url".toList, .string u)) ++
      [("connector".toList, .string connectorName),
        ("connector_id".toList, .string (env.uuidText connectorId)),
        ("message".toList, .string message)])
    match ← attempt (perform (createPendingAuthRequired agentId userId connectorId contextId
      question)) with
    | .error _ => pure genericError
    | .ok id =>
      pure (errDataResponse reqId .authRequired
        ("Authentication required for connector '" ++ connectorName ++
          "'. A request has been recorded (id " ++ env.uuidText id ++
          "); ask the user to re-authenticate, then retry this tool.")
        (.object [("connector", .string connectorName),
          ("connector_id", .string (env.uuidText connectorId)),
          ("hitl_request_id", .string (env.uuidText id))]))

/-- A call of a Composio tool has failed: ask Composio whether the connection is why. -/
def detectComposioAuthRequired (userId : Uuid) (reqId : Value) (agentId connectorId : Uuid)
    (verifiedFlowId : Option Str) (originalResponse : Value) : Prog Value := do
  if config.composio then
    match ← okOrNone (perform (getConnectorById connectorId)) with
    | none => pure originalResponse
    | some connector =>
      match connector.authConfigId with
      | none => pure originalResponse
      | some authConfigId =>
        match ← attempt (perform (checkConnectionStatus userId authConfigId)) with
        | .error _ => pure originalResponse
        | .ok status =>
          if Str.toAsciiLowercase status = "active" then pure originalResponse
          else handleAuthRequired env userId reqId agentId connectorId connector.name verifiedFlowId
  else pure originalResponse

end Nasiko.McpGateway
