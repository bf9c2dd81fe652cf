import Nasiko.McpGateway.Approvals

/-!
# Calling a tool

`callRoutedTool` is the way of every real tool call: it finds the backend of the name, checks that
the user can reach the connector and that the agent may use the tool, and forwards the call. A tool
of a Composio toolkit is decided about under the connector of its toolkit, which is read off the
front of the tool's name; a batch is cut down to the entries that may run.
-/

namespace Nasiko.McpGateway

open Concurrency Program Json Command

variable (env : Env) (config : Config)

def searchToolsMeta : Str := "nasiko_search_tools"

def callToolMeta : Str := "nasiko_call_tool"

def recoverCompressedMeta : Str := "recover_compressed"

/-- The tools that the gateway answers itself. -/
def isMetaTool (name : Str) : Bool :=
  name = searchToolsMeta || name = callToolMeta || name = recoverCompressedMeta

def multiExecuteTool : Str := "COMPOSIO_MULTI_EXECUTE_TOOL"

def manageConnections : Str := "COMPOSIO_MANAGE_CONNECTIONS"

/-- The connector of a Composio tool, by the toolkit in its name. -/
def ResolvedSession.connectorOf (resolved : ResolvedSession) (slug : Str) : Option Uuid :=
  Entries.get? resolved.toolkitToConnector (toolkitFromComposioSlug slug)

def blockedMessage (toolName : Str) : Str :=
  "Tool '" ++ toolName ++ "' is blocked or disabled for this agent."

def deniedMessage (toolName : Str) : Str :=
  "Tool '" ++ toolName ++ "' was denied by the user. Do not retry this call."

structure Call where
  userId : Uuid
  reqId : Value
  toolName : Str
  resolved : ResolvedSession
  perms : PermissionContext
  verifiedFlowId : Option Str

/-! ## The gates -/

variable (c : Call)

/-- The decision about one tool of one connector; a refusal is the answer to give. -/
def decisionGate (connectorId : Uuid) (decidedName label : Str) : Prog (Option Value) :=
  match c.perms.decide connectorId decidedName with
  | .denied => pure (some (errResponse c.reqId .toolBlocked (blockedMessage c.toolName)))
  | .allowed => pure none
  | .ask => do
    match ← resolveToolApprovalRetry c.userId c.perms.agentId connectorId decidedName
      c.verifiedFlowId with
    | .proceed => pure none
    | .denied => pure (some (errResponse c.reqId .toolBlocked (deniedMessage c.toolName)))
    | .askAgain =>
      let answer ← askWithHitlRequest env c.userId c.perms.agentId connectorId decidedName label
        c.reqId c.verifiedFlowId
      pure (some answer)

variable (server : MCPServerConfig) (original : Str)

/-- A tool of a generic backend: can the user reach the connector, and may the agent use the
tool? -/
def genericGate : Prog (Option Value) :=
  if server.kind = .mcp then do
    match ← attempt (perform (canAccessConnector c.userId server.connectorId)) with
    | .error e => pure (some (errResponse c.reqId e.jsonRpcCode e.toJsonRpc))
    | .ok false => pure (some (errResponse c.reqId .toolBlocked
        ("Connector for '" ++ c.toolName ++ "' is not available.")))
    | .ok true => decisionGate env c server.connectorId original server.name
  else pure none

/-- A tool of a Composio toolkit that is called by its own name. -/
def composioGate : Prog (Option Value) :=
  if server.kind = .composio then
    match c.resolved.connectorOf c.toolName with
    | some connectorId => decisionGate env c connectorId c.toolName "composio"
    | none => pure none
  else pure none

def connectorDisabled (resolved : ResolvedSession) (perms : PermissionContext) (toolkit : Str) :
    Bool :=
  match Entries.get? resolved.toolkitToConnector (Str.toAsciiLowercase toolkit) with
  | some connectorId => !perms.isConnectorEnabled connectorId
  | none => false

variable (arguments : Value)

/-- The arguments of `COMPOSIO_MANAGE_CONNECTIONS` without the toolkits that are disabled. -/
def filterToolkits : Except Value Value :=
  if c.toolName = manageConnections then
    match (field arguments "toolkits").bind asArray with
    | none => .ok arguments
    | some requested =>
      let requested := requested.filterMap asStr
      let blocked := requested.filter fun tk => connectorDisabled c.resolved c.perms tk
      if blocked = [] then .ok arguments
      else
        let allowed := requested.filter fun tk => !blocked.contains tk
        if allowed = [] then
          .error (errResponse c.reqId .toolBlocked ("Toolkit(s) are disabled for this agent: "
            ++ env.debugList blocked ++ "."))
        else .ok (setField "toolkits" (.array (allowed.map .string)) arguments)
  else .ok arguments

/-! ## Batches -/

/-- The entries of a batch that may run, and the slugs of the others. -/
structure Batch where
  allowed : List Value
  blockedSlugs : List Str
  deniedSlugs : List Str
  askTools : List (Uuid × Str)

def slugOf (t : Value) : Str := (strField t "tool_slug").getD []

def sortEntry (b : Batch) (t : Value) : Prog Batch :=
  let slug := slugOf t
  if slug = [] then pure { b with allowed := b.allowed ++ [t] }
  else
    match c.resolved.connectorOf slug with
    | none => pure { b with allowed := b.allowed ++ [t] }
    | some connectorId =>
      match c.perms.decide connectorId slug with
      | .denied => pure { b with blockedSlugs := b.blockedSlugs ++ [slug] }
      | .allowed => pure { b with allowed := b.allowed ++ [t] }
      | .ask => do
        match ← resolveToolApprovalRetry c.userId c.perms.agentId connectorId slug
          c.verifiedFlowId with
        | .proceed => pure { b with allowed := b.allowed ++ [t] }
        | .denied => pure { b with deniedSlugs := b.deniedSlugs ++ [slug] }
        | .askAgain => pure { b with askTools := b.askTools ++ [(connectorId, slug)] }

def sortBatch (c : Call) : Batch → List Value → Prog Batch
  | b, [] => pure b
  | b, t :: ts => do
    let b ← sortEntry c b t
    sortBatch c b ts

/-- The ids of the requests that were recorded for a batch. -/
def createApprovalIds (c : Call) : List (Uuid × Str) → Prog (List Uuid)
  | [] => pure []
  | (connectorId, slug) :: rest => do
    let id ← createToolApprovalId env c.userId c.perms.agentId connectorId slug c.verifiedFlowId
    let ids ← createApprovalIds c rest
    pure (id.toList ++ ids)

/-- The answer for a batch of which nothing may run. -/
def refuseBatch (b : Batch) : Prog Value :=
  if b.askTools ≠ [] then do
    let ids ← createApprovalIds env c b.askTools
    pure (errDataResponse c.reqId .toolAsk
      ("Tool(s) require user approval for this agent: " ++
        env.debugList (b.askTools.map Prod.snd) ++ ".")
      (.object [("hitl_request_ids", .array (ids.map fun id => .string (env.uuidText id))),
        ("server", .string "composio")]))
  else if b.blockedSlugs = [] then
    pure (errResponse c.reqId .toolBlocked
      ("Tool(s) were denied by the user. Do not retry: " ++ env.debugList b.deniedSlugs ++
        "."))
  else if b.deniedSlugs = [] then
    pure (errResponse c.reqId .toolBlocked
      ("All requested tools are blocked for this agent: " ++ env.debugList b.blockedSlugs ++
        "."))
  else
    pure (errResponse c.reqId .toolBlocked
      ("All requested tools are blocked or were denied for this agent: blocked=" ++
        env.debugList b.blockedSlugs ++ ", denied=" ++ env.debugList b.deniedSlugs ++
        "."))

/-- Something of the batch may not run. -/
def Batch.cut (b : Batch) : Bool := b.blockedSlugs ≠ [] || b.deniedSlugs ≠ [] || b.askTools ≠ []

/-- The arguments of `COMPOSIO_MULTI_EXECUTE_TOOL` with the entries that may run. -/
def filterBatch : Prog (Except Value Value) :=
  if c.toolName = multiExecuteTool then
    match (field arguments "tools").bind asArray with
    | none => pure (.ok arguments)
    | some [] => pure (.ok arguments)
    | some (t :: ts) => do
      let b ← sortBatch c ⟨[], [], [], []⟩ (t :: ts)
      if b.allowed = [] ∧ b.cut then
        let refusal ← refuseBatch env c b
        pure (.error refusal)
      else if b.cut then pure (.ok (setField "tools" (.array b.allowed) arguments))
      else pure (.ok arguments)
  else pure (.ok arguments)

/-! ## Names without a backend -/

/-- Whether what is known of a connection means that the user has to authenticate. An error says
nothing about the connection. -/
def needsAuthRequired : Except McpError (Option Str) → Bool
  | .ok (some status) => Str.toAsciiLowercase status ≠ "active"
  | .ok none => true
  | .error _ => false

/-- The connector of a Composio toolkit that the user has not connected. -/
def unconnected : Prog (Option McpConnector) := do
  match ← okOrNone (perform (getComposioConnectorByName
    (toolkitFromComposioSlug c.toolName))) with
  | none => pure none
  | some connector =>
    let connection ← attempt (perform (getUserConnection c.userId connector.id))
    pure (if needsAuthRequired connection then some connector else none)

/-- The Composio connectors that the agent may use and the user has not connected. -/
def authCandidates (c : Call) : List Uuid → Prog (List McpConnector)
  | [] => pure []
  | connectorId :: rest =>
    if c.resolved.toolkitToConnector.any fun x => x.2 = connectorId then authCandidates c rest
    else do
      let found ← okOrNone (perform (getConnectorById connectorId))
      let candidates ← authCandidates c rest
      pure (found.toList.filter (fun connector => connector.isComposio) ++ candidates)

/-- No backend has the name: a connector that has to be authenticated is reported, if there is one
that it can belong to. -/
def unroutable (e : McpError) : Prog Value := do
  let authRequired := fun (connectorId : Uuid) (name : Str) =>
    handleAuthRequired env c.userId c.reqId c.perms.agentId connectorId name c.verifiedFlowId
  match (unusableReasonForPrefix c.toolName c.resolved.unusableConnectors).filter fun x =>
    x.2.reason = .authRequired with
  | some (connectorId, info) =>
    if c.perms.isConnectorEnabled connectorId then authRequired connectorId info.name
    else pure (errResponse c.reqId .toolBlocked (blockedMessage c.toolName))
  | none =>
    match ← unconnected c with
    | some connector => authRequired connector.id connector.name
    | none =>
      let candidates ← if "COMPOSIO_".toList.isPrefixOf c.toolName
        then authCandidates c c.perms.enabledConnectors else pure []
      match candidates with
      | [connector] => authRequired connector.id connector.name
      | _ => pure (errResponse c.reqId .invalidParams e.toStr)

/-! ## Forwarding -/

/-- The first entry of the array under a key. -/
def firstOf (v : Value) (key : Str) : Option Value :=
  ((field v key).bind asArray).bind List.head?

/-- The answer of a tool, out of the answer of `COMPOSIO_MULTI_EXECUTE_TOOL`. -/
def unwrapMultiExecuteResponse (response : Value) : Value :=
  match (field response "result").bind fun r =>
    (firstOf r "content").bind fun entry => strField entry "text" with
  | none => response
  | some text =>
    match env.parseJson text with
    | none => response
    | some parsed =>
      let innerText := match (field parsed "data").bind fun d =>
          firstOf d "results" with
        | none => text
        | some result =>
          let toolResponse := field result "response"
          let data := toolResponse.bind fun r => field r "data"
          if (toolResponse.bind fun r => field r "successful") = some (.bool true) then
            env.jsonText (data.getD (.object [("success", .bool true)]))
          else
            let error := (strField result "error").orElse fun _ =>
              data.bind fun d => strField d "message"
            env.jsonText (.object
              [("error", .string (error.getD "tool execution failed"))])
      setField "result" (.object [("content", .array [.object
        [("text", .string innerText), ("type", .string "text")]])]) response

def failedMessage : Str :=
  "Backend '" ++ server.name ++ "' failed to execute '" ++ original ++ "'"

/-- A tool of a Composio toolkit is wrapped into a batch of one. -/
def forwarded : Str × Value :=
  if server.kind = .composio ∧ (c.resolved.connectorOf c.toolName).isSome then
    (multiExecuteTool, .object [("tools", .array [.object
      [("arguments", arguments), ("tool_slug", .string original)]])])
  else (original, arguments)

variable (traceparent : Option Str)

/-- The call failed to reach the backend of an uploaded build: try once more where it has moved. -/
def retryMoved (e : McpError) : Prog Value := do
  let failed := errResponse c.reqId .internalError (failedMessage server original)
  if server.trusted ∧ !server.system ∧ e = .http true then
    match ← okOrNone (perform (refreshEndpoint server.connectorId)) with
    | none => pure failed
    | some newUrl =>
      match ← attempt (perform (callTool { server with url := newUrl } c.reqId original
        arguments traceparent)) with
      | .ok response => pure response
      | .error _ => pure failed
  else pure failed

/-- Send the call to the backend. -/
def forward : Prog Value := do
  let (forwardName, forwardArgs) := forwarded c server original arguments
  match ← attempt (perform (callTool server c.reqId forwardName forwardArgs traceparent)) with
  | .error e => retryMoved c server original arguments traceparent e
  | .ok response =>
    if server.kind = .composio then
      match c.resolved.connectorOf c.toolName, field response "error" with
      | some connectorId, some _ =>
        detectComposioAuthRequired env config c.userId c.reqId c.perms.agentId connectorId
          c.verifiedFlowId response
      | some _, none => pure (unwrapMultiExecuteResponse env response)
      | none, _ => pure response
    else pure response

/-- What a gate refuses is the answer. -/
def unlessRefused (gate : Prog (Option Value)) (rest : Prog Value) : Prog Value := do
  match ← gate with
  | some refusal => pure refusal
  | none => rest

/-- What is left to do of a call once the gates are passed. Only a verified flow gives its trace to
the backend. -/
def afterGates : Prog Value :=
  match filterToolkits env c arguments with
  | .error refusal => pure refusal
  | .ok arguments => do
    match ← filterBatch env c arguments with
    | .error refusal => pure refusal
    | .ok arguments =>
      forward env config c server original arguments (c.verifiedFlowId.bind fun _ => traceparent)

/-- The one path of every real tool call. -/
def callRoutedTool : Prog Value :=
  match routeTool c.toolName c.resolved.servers with
  | .error e => unroutable env c e
  | .ok (server, original) =>
    unlessRefused (genericGate env c server original) (unlessRefused (composioGate env c server)
      (afterGates env config c server original arguments traceparent))

end Nasiko.McpGateway
