import Nasiko.Json.Serde
import Nasiko.Text.Uuid

/-!
# Types of the MCP gateway

The gateway stands between an agent and the tools of its user. A backend is a generic MCP server,
one of the platform's own servers (`system`), or the Composio session of the user. Tools of a
generic server are known to the agent by the prefix of its connector, `{prefix}__{tool}`.
-/

namespace Nasiko.McpGateway

/-- A document; the numbers are kept as they were written. -/
abbrev Value := Json Str

/-- The first 16 digits of a connector's id. -/
def connectorPrefix (id : Uuid) : Str := (Uuid.digits id 0 32).take 16

/-- Per-tool permission stance for an agent. -/
inductive Stance where
  | allow
  | ask
  | block
  deriving DecidableEq

def Stance.asStr : Stance → Str
  | allow => "allow"
  | ask => "ask"
  | block => "block"

def Stance.fromStr (s : Str) : Option Stance :=
  if s = "allow" then some .allow
  else if s = "ask" then some .ask
  else if s = "block" then some .block
  else none

inductive ServerType where
  | composio
  | mcp
  deriving DecidableEq

/-- A backend with the credentials of the user already injected. The connector of the Composio
session is the nil id; its tools belong to the connectors of their toolkits. -/
structure MCPServerConfig where
  connectorId : Uuid
  kind : ServerType
  name : Str
  url : Str
  headers : List (Str × Str)
  trusted : Bool
  system : Bool
  /-- The tools of a system backend, from the synced catalog. -/
  toolNames : List Str
  /-- What the backend says about itself. -/
  instructions : Option Str
  /-- The flags are set where generic and system backends are built; `composio_config` leaves them
  off. -/
  composioPlain : kind = .composio → trusted = false ∧ system = false
  deriving DecidableEq

/-- Why a connector's credential cannot be used. -/
inductive ConnectorUnusable where
  | notConfigured
  | missingCredential
  | authRequired
  deriving DecidableEq

structure UnusableConnector where
  reason : ConnectorUnusable
  name : Str
  deriving DecidableEq

structure ResolvedSession where
  servers : List MCPServerConfig
  connectedToolkits : List Str
  /-- The connectors of the Composio toolkits that the user has connected. -/
  toolkitToConnector : List (Str × Uuid)
  unusableConnectors : List (Uuid × UnusableConnector)

/-! ## Errors -/

/-- The codes of the errors that the gateway answers. -/
inductive RpcCode where
  | methodNotFound
  | invalidParams
  | internalError
  | toolBlocked
  | toolAsk
  | authRequired
  deriving DecidableEq

def RpcCode.number : RpcCode → Int
  | methodNotFound => -32601
  | invalidParams => -32602
  | internalError => -32603
  | toolBlocked => -32000
  | toolAsk => -32001
  | authRequired => -32002

/-- What can go wrong in the gateway. The texts of the database, the cache, the HTTP client and the
serializer only reach the log and are not modelled. -/
inductive McpError where
  | notFound (message : Str)
  | badRequest (message : Str)
  | forbidden (message : Str)
  | conflict (message : Str)
  | backend (message : Str)
  | oauth (message : Str)
  | notConfigured (message : Str)
  | database
  /-- `connection` says whether the request failed to connect or timed out. -/
  | http (connection : Bool)
  | serde
  | internal (message : Str)
  deriving DecidableEq

namespace McpError

def jsonRpcCode : McpError → RpcCode
  | badRequest _ | conflict _ => .invalidParams
  | notFound _ => .methodNotFound
  | forbidden _ => .toolBlocked
  | _ => .internalError

/-- `Display`. -/
def toStr : McpError → Str
  | notFound m => "not found: " ++ m
  | badRequest m => "bad request: " ++ m
  | forbidden m => "forbidden: " ++ m
  | conflict m => "conflict: " ++ m
  | backend m => "backend error: " ++ m
  | oauth m => "oauth error: " ++ m
  | notConfigured m => "not configured: " ++ m
  | database => "database error: "
  | http _ => "http error: "
  | serde => "serialization error: "
  | internal m => "internal error: " ++ m

/-- The message that an agent sees. -/
def toJsonRpc : McpError → Str
  | database | serde | internal _ => "internal error"
  | http _ | backend _ => "backend request failed"
  | oauth _ => "authorization error"
  | e => e.toStr

end McpError

end Nasiko.McpGateway
