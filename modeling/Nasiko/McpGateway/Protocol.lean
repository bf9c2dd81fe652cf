import Nasiko.McpGateway.Aggregator
import Nasiko.McpGateway.Calls

/-!
# The handlers of the gateway

`handleRequest` answers one JSON-RPC request of an agent. Two trace ids come with it: the raw
`traceparent` header, and the id of the flow that the route layer has verified, if there is one.
-/

namespace Nasiko.McpGateway

open Concurrency Program

variable (env : Env) (config : Config)

/-! ## `tools/list` -/

/-- The title of a verified flow is what its user asked for. -/
def resolveFlowTitle (verifiedFlowId : Option Str) : Prog (Option Str) :=
  match verifiedFlowId with
  | none => pure none
  | some flowId => okOrNone (perform (Command.flowTitle flowId))

def toolMatchToJson (m : ToolMatch) : Value := .object
  ((m.description.toList.map fun d => ("description".toList, .string d)) ++
    (m.inputSchema.toList.map fun s => ("inputSchema".toList, s)) ++
    [("name".toList, .string m.toolName)])

/-- The schema of a meta-tool: its properties and the names of those that are required. -/
def metaToolDefinition (name description : Str) (properties : List (Str × Value))
    (required : Str) : Value := .object
  [("description", .string description),
    ("inputSchema", .object [("properties", .object properties),
      ("required", .array [.string required]), ("type", .string "object")]),
    ("name", .string name)]

def stringProperty (description : Str) : Value := .object
  [("description", .string description), ("type", .string "string")]

def nasikoSearchToolsDefinition : Value := metaToolDefinition searchToolsMeta
  ("Search for available tools by describing what you need. Use this when you need a capability "
    ++ "not already in your tool list.")
  [("limit", .object [("default", .number "10"),
      ("description", .string "Maximum number of tools to return"),
      ("type", .string "integer")]),
    ("query", stringProperty
      "Describe what you want to do, e.g. 'send an email' or 'create a GitHub issue'")]
  "query"

def nasikoCallToolDefinition : Value := metaToolDefinition callToolMeta
  ("Execute a tool found with nasiko_search_tools by name. Use this when you cannot call the found "
    ++ "tool directly. `name` is the tool name exactly as returned by the search; "
    ++ "`arguments` is the JSON object matching that tool's inputSchema.")
  [("arguments", .object [("default", .object []),
      ("description",
        .string "The arguments for that tool, matching its inputSchema"),
      ("type", .string "object")]),
    ("name", stringProperty
      "The tool name exactly as returned by nasiko_search_tools")]
  "name"

def recoverCompressedDefinition : Value := metaToolDefinition recoverCompressedMeta
  ("Retrieve the full, uncompressed content that an elision marker stands in for. Call this when a "
    ++ "payload you were given contains a marker like `[… 412 lines elided · recover: "
    ++ "nasiko://c/9f3a… ]` and the elided part matters for your answer.")
  [("handle", stringProperty
    "The handle from the elision marker, with or without the `nasiko://c/` prefix")]
  "handle"

variable (userId : Uuid)

def matchesForQuery (perms : PermissionContext) (query : Str) : Prog (List ToolMatch) := do
  let accessible ← okOrEmpty (perform (Command.listAccessibleConnectors userId))
  okOrEmpty (perform (Command.searchTools query accessible perms config.toolSearchToolLimit))

/-- `tools/list`: the tools of all backends or, if the search is on, what the search finds and the
meta-tools. -/
def handleToolsList (reqId : Value) (servers : List MCPServerConfig)
    (connectedToolkits : List Str) (perms : PermissionContext) (traceparent : Option Str)
    (verifiedFlowId : Option Str) : Prog Value :=
  if config.toolSearchMode = .none then do
    match ← attempt (aggregateTools env userId servers connectedToolkits perms
      (verifiedFlowId.bind fun _ => traceparent)) with
    | .ok tools => pure (okResponse reqId (.object [("tools", .array tools)]))
    | .error e => pure (errResponse reqId e.jsonRpcCode e.toJsonRpc)
  else do
    let found ← match ← resolveFlowTitle verifiedFlowId with
      | some query => matchesForQuery config userId perms query
      | none => pure []
    pure (okResponse reqId (.object [("tools", .array (found.map toolMatchToJson ++
      [nasikoSearchToolsDefinition, nasikoCallToolDefinition, recoverCompressedDefinition]))]))

/-! ## `tools/call` -/

/-- What `nasiko_call_tool` was asked to run. -/
def parseCallToolTarget (arguments : Option Value) : Except Str (Str × Value) :=
  match arguments.bind fun a => strField a "name" with
  | none => .error ("nasiko_call_tool requires `name`, the tool name exactly as returned by "
      ++ "nasiko_search_tools")
  | some name =>
    if isMetaTool name then
      .error "nasiko_call_tool cannot call gateway meta-tools; call them directly"
    else
      match arguments.bind fun a => field a "arguments" with
      | none => .ok (name, .object [])
      | some .null => .ok (name, .object [])
      | some (.object fields) => .ok (name, .object fields)
      | some _ => .error "nasiko_call_tool `arguments` must be a JSON object"

/-- The trace id of a `traceparent`, by which a flow is known. -/
def flowIdOf (traceparent : Str) : Option Str :=
  match traceparent.splitOn '-' with
  | _ :: traceId :: _ :: _ :: _ =>
    if traceId.length = 32 ∧ traceId.all Str.isHexDigit ∧ traceId.any (fun c => c ≠ '0') then
      some (Str.toAsciiLowercase traceId)
    else none
  | _ => none

/-- `str::trim_start_matches` with a text. -/
def trimStartMatches (pat : Str) : Nat → Str → Str
  | 0, s => s
  | n + 1, s => if pat.isPrefixOf s then trimStartMatches pat n (s.drop pat.length) else s

/-- `str::trim_matches` with a predicate. -/
def trimMatches (p : Char → Bool) (s : Str) : Str := ((s.dropWhile p).reverse.dropWhile p).reverse

/-- The handle in an elision marker, as a model copies it. -/
def parseRecoveryHandle (raw : Str) : Option Uuid :=
  let trimmed := raw.trim
  let handle := trimStartMatches "nasiko://c/" trimmed.length trimmed
  env.parseUuid (trimMatches (fun c => !(c.isAlphanum || c = '-')) handle)

/-- `u64` of a document. -/
def asU64 : Value → Option Nat
  | .number ds => if ds ≠ [] ∧ ds.all Char.isDigit ∧ Nat.ofDigitChars 10 ds 0 < 2 ^ 64
      then some (Nat.ofDigitChars 10 ds 0) else none
  | _ => none

def ToolSearchMode.debug : ToolSearchMode → Str
  | semantic => "Semantic"
  | keyword => "Keyword"
  | none => "None"

def searchTools (reqId arguments : Value) (perms : PermissionContext) : Prog Value := do
  let query := (strField arguments "query").getD []
  let limit := ((field arguments "limit").bind asU64).getD config.toolSearchMetaLimit
  match ← attempt (perform (Command.listAccessibleConnectors userId)) with
  | .error e => pure (errResponse reqId .internalError
      ("failed to resolve accessible connectors: " ++ e.toStr))
  | .ok accessible =>
    let found ← okOrEmpty (perform (Command.searchTools query accessible perms limit))
    let mode : Str × Value := ("search_mode", .string config.toolSearchMode.debug)
    let tools : Str × Value := ("tools", .array (found.map toolMatchToJson))
    let payload : Value := .object [mode, tools]
    pure (okResponse reqId (.object [("content", .array [.object
        [("text", .string (env.jsonText payload)), ("type", .string "text")]]),
      mode, ("structuredContent", payload), tools]))

/-- The meta-tool that gives back what was elided. The flow is the one of the raw header. -/
def recoverCompressed (reqId arguments : Value) (traceparent : Option Str) : Prog Value := do
  match (strField arguments "handle").bind (parseRecoveryHandle env) with
  | none => pure (errResponse reqId .invalidParams
      "recover_compressed requires `handle`, the identifier from an elision marker")
  | some handle =>
    match traceparent.bind flowIdOf with
    | none => pure (errResponse reqId .invalidParams
        "recover_compressed is only available inside a flow")
    | some flowId =>
      match ← attempt (perform (Command.compressionOriginal handle userId flowId)) with
      | .error e => pure (errResponse reqId .internalError
          ("failed to read the recovery store: " ++ e.toStr))
      | .ok none => pure (okResponse reqId (.object
          [("content", .array [.object [("text", .string
              ("No recoverable content for that handle. It may have expired, or belong to a "
                ++ "different conversation.")), ("type", .string "text")]]),
            ("isError", .bool true)]))
      | .ok (some (content, contentType)) => pure (okResponse reqId (.object
          [("_meta", .object [("content_type", .string contentType)]),
            ("content", .array [.object [("text", .string content),
              ("type", .string "text")]])]))

/-- `tools/call`: the meta-tools, and the routed path for every other tool. -/
def handleToolsCall (reqId params : Value) (resolved : ResolvedSession)
    (perms : PermissionContext) (traceparent verifiedFlowId : Option Str) : Prog Value :=
  let toolName := (strField params "name").getD []
  if toolName = callToolMeta then
    match parseCallToolTarget (field params "arguments") with
    | .ok (innerName, innerArguments) =>
      callRoutedTool env config ⟨userId, reqId, innerName, resolved, perms, verifiedFlowId⟩
        innerArguments traceparent
    | .error message => pure (errResponse reqId .invalidParams message)
  else
    let arguments := (field params "arguments").getD (.object [])
    if toolName = searchToolsMeta then searchTools env config userId reqId arguments perms
    else if toolName = recoverCompressedMeta then
      recoverCompressed env userId reqId arguments traceparent
    else
      callRoutedTool env config ⟨userId, reqId, toolName, resolved, perms, verifiedFlowId⟩ arguments
        traceparent

/-! ## Requests -/

def methodOf (body : Value) : Str := (strField body "method").getD []

def toolsList : Str := "tools/list"

def toolsCall : Str := "tools/call"

/-- The methods that the gateway answers. -/
def implements (method : Str) : Bool :=
  method = "initialize" || method = "ping" || method = toolsList || method = toolsCall

def supportedProtocolVersions : List Str :=
  ["2025-06-18", "2025-03-26", "2024-11-05"]

/-- The answer to `initialize`. -/
def handleInitialize (reqId body : Value) (gatewayInstructions : Str)
    (connectorInstructions : List Str) : Value :=
  let requested := (field body "params").bind fun p => strField p "protocolVersion"
  let version := (requested.filter fun v => supportedProtocolVersions.contains v).getD
    "2025-06-18"
  let instructions := ((gatewayInstructions :: connectorInstructions).map
    Str.trim).filter fun s => s ≠ []
  okResponse reqId (.object ([("capabilities".toList, .object [("tools".toList, .object [])])] ++
    (if instructions = [] then []
      else [("instructions".toList, .string (joinTexts "\n\n".toList instructions))]) ++
    [("protocolVersion".toList, .string version),
      ("serverInfo".toList, .object [("name".toList, .string "MCP Gateway".toList),
        ("version", .string "1.1.0")])]))

/-- Give every system backend the signed identity of the caller. -/
def injectIdentity (signed : Str) (servers : List MCPServerConfig) : List MCPServerConfig :=
  servers.map fun s =>
    if s.system then
      { s with headers := (identityHeader, signed) :: s.headers.filter fun h =>
        h.1 ≠ identityHeader }
    else s

def methodNotFound (reqId : Value) (method : Str) : Value :=
  errResponse reqId .methodNotFound ("Method not found: " ++ method)

/-- The identity of the caller, for the system backends. -/
def signedSession (userId agentId : Uuid) (verifiedFlowId : Option Str)
    (resolved : ResolvedSession) : Prog ResolvedSession :=
  if resolved.servers.any fun s => s.system then do
    let signed ← perform (Command.signIdentity agentId userId verifiedFlowId)
    pure { resolved with servers := injectIdentity signed resolved.servers }
  else pure resolved

/-- One request of an agent; `none` for a notification. -/
def handleRequest (userId agentId : Uuid) (body : Value) (traceparent verifiedFlowId : Option Str) :
    Prog (Option Value) :=
  let method := methodOf body
  match field body "id" with
  | none => pure none
  | some reqId =>
    if !implements method then pure (some (methodNotFound reqId method))
    else if method = "ping" then pure (some (okResponse reqId (.object [])))
    else do
      match ← attempt (perform (Command.loadPermissionContext agentId)) with
      | .error e => pure (some (errResponse reqId e.jsonRpcCode e.toJsonRpc))
      | .ok perms =>
        match ← attempt (perform (Command.resolveSession userId)) with
        | .error e => pure (some (errResponse reqId e.jsonRpcCode e.toJsonRpc))
        | .ok resolved =>
          if method = "initialize" then
            pure (some (handleInitialize reqId body config.gatewayInstructions
              ((resolved.servers.filter fun s => perms.isConnectorEnabled s.connectorId).filterMap
                MCPServerConfig.instructions)))
          else do
            let resolved ← signedSession userId agentId verifiedFlowId resolved
            if method = toolsList then
              let answer ← handleToolsList env config userId reqId resolved.servers
                resolved.connectedToolkits perms traceparent verifiedFlowId
              pure (some answer)
            else
              let answer ← handleToolsCall env config userId reqId
                ((field body "params").getD (.object [])) resolved perms traceparent
                verifiedFlowId
              pure (some answer)

end Nasiko.McpGateway
