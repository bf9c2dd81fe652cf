import Nasiko.Concurrency.Program
import Nasiko.Json.Reader
import Nasiko.Json.Writer
import Nasiko.McpGateway.Permissions
import Nasiko.McpGateway.Router

/-!
# What the gateway asks of others

The handlers of the gateway are programs over the commands of this module: queries of the database,
the cache, the search index, and requests to the backends. How a command is answered is left open,
so that what is proved of a handler holds whatever the answers are.
-/

namespace Nasiko.McpGateway

open Concurrency Program Json

/-- What the gateway takes from other crates. -/
structure Env where
  /-- The first 16 hexadecimal digits of a SHA-256. -/
  sha256Hex16 : Str → Str
  /-- `Uuid::from_str` and its `Display`. -/
  parseUuid : Str → Option Uuid
  uuidText : Uuid → Str
  /-- A list of strings as `Debug` writes it. -/
  debugList : List Str → Str
  /-- `serde_json::from_str` and `serde_json::to_string`. -/
  parseJson : Str → Option Value
  jsonText : Value → Str

inductive ToolSearchMode where
  | semantic
  | keyword
  | none
  deriving DecidableEq

structure Config where
  toolSearchMode : ToolSearchMode
  toolSearchToolLimit : Nat
  toolSearchMetaLimit : Nat
  gatewayInstructions : Str
  /-- Whether there is a key for Composio. -/
  composio : Bool

/-- A tool found by the search. -/
structure ToolMatch where
  connectorId : Uuid
  toolName : Str
  description : Option Str
  inputSchema : Option Value

/-- What the gateway reads of a row of `mcp_connectors`. -/
structure McpConnector where
  id : Uuid
  name : Str
  isComposio : Bool
  authConfigId : Option Str

structure ResolvedApproval where
  humanResponse : Option Value

inductive Command where
  | loadPermissionContext (agentId : Uuid)
  | resolveSession (userId : Uuid)
  /-- Signs the identity of the caller; the clock is read here. -/
  | signIdentity (agentId userId : Uuid) (flowId : Option Str)
  | canAccessConnector (userId connectorId : Uuid)
  | listAccessibleConnectors (userId : Uuid)
  | getConnectorById (connectorId : Uuid)
  | getComposioConnectorByName (name : Str)
  | getUserConnection (userId connectorId : Uuid)
  | sessionOfTrace (traceId : Str)
  | flowTitle (flowId : Str)
  | compressionOriginal (handle userId : Uuid) (flowId : Str)
  | resolveStableSessionContext (userId agentId : Uuid) (contextId : Str)
  | hasActiveSessionGrant (userId agentId connectorId : Uuid) (toolName contextId : Str)
  | claimResolvedToolApproval (userId agentId connectorId : Uuid) (toolName contextId : Str)
  | createPendingToolApproval (agentId ownerUserId connectorId : Uuid) (toolName contextId : Str)
      (question : Value)
  | createPendingAuthRequired (agentId ownerUserId connectorId : Uuid) (contextId : Str)
      (question : Value)
  /-- The link under which the user connects a Composio connector, if one was made. -/
  | composioConnect (userId connectorId : Uuid)
  | checkConnectionStatus (userId : Uuid) (authConfigId : Str)
  | searchTools (query : Str) (accessible : List Uuid) (perms : PermissionContext) (limit : Nat)
  | manifestGet (key : Str)
  | manifestSet (key : Str) (tools : List Value)
  | listTools (server : MCPServerConfig) (traceparent : Option Str)
  | callTool (server : MCPServerConfig) (reqId : Value) (toolName : Str) (arguments : Value)
      (traceparent : Option Str)
  | refreshEndpoint (connectorId : Uuid)

abbrev Reply : Command → Type
  | .loadPermissionContext _ => PermissionContext
  | .resolveSession _ => ResolvedSession
  | .signIdentity _ _ _ => Str
  | .canAccessConnector _ _ => Bool
  | .listAccessibleConnectors _ => List Uuid
  | .getConnectorById _ => Option McpConnector
  | .getComposioConnectorByName _ => Option McpConnector
  | .getUserConnection _ _ => Option Str
  | .sessionOfTrace _ => Option Str
  | .flowTitle _ => Option Str
  | .compressionOriginal _ _ _ => Option (Str × Str)
  | .resolveStableSessionContext _ _ _ => Option Str
  | .hasActiveSessionGrant _ _ _ _ _ => Bool
  | .claimResolvedToolApproval _ _ _ _ _ => Option ResolvedApproval
  | .createPendingToolApproval _ _ _ _ _ _ => Uuid
  | .createPendingAuthRequired _ _ _ _ _ => Uuid
  | .composioConnect _ _ => Option Str
  | .checkConnectionStatus _ _ => Str
  | .searchTools _ _ _ _ => List ToolMatch
  | .manifestGet _ => Option (List Value)
  | .manifestSet _ _ => Unit
  | .listTools _ _ => List Value
  | .callTool _ _ _ _ _ => Value
  | .refreshEndpoint _ => Option Str

/-- A handler of the gateway. -/
abbrev Prog (α : Type) := Program Command Reply McpError α

/-- How the commands of a handler are answered. -/
abbrev Respond := (c : Command) → Except McpError (Reply c)

/-- The answer of a query, where an error counts as no answer. -/
def okOrNone {α : Type} (p : Prog (Option α)) : Prog (Option α) := do
  match ← attempt p with
  | .ok a => pure a
  | .error _ => pure none

/-- The rows of a query, where an error counts as no rows. -/
def okOrEmpty {α : Type} (p : Prog (List α)) : Prog (List α) := do
  match ← attempt p with
  | .ok a => pure a
  | .error _ => pure []

/-! ## Documents -/

/-- `Value::get` with a key. -/
def field (v : Value) (key : Str) : Option Value :=
  match v with
  | .object fields => Entries.get? fields key
  | _ => none

def strField (v : Value) (key : Str) : Option Str := (field v key).bind asStr

def setField (key : Str) (x : Value) : Value → Value
  | .object fields => .object (fields.map fun e => if e.1 = key then (key, x) else e)
  | v => v

def codeNumber (code : RpcCode) : Value :=
  .number ("-" ++ Nat.toDigits 10 code.number.natAbs)

def okResponse (reqId result : Value) : Value := .object
  [("id", reqId), ("jsonrpc", .string "2.0"), ("result", result)]

def errResponse (reqId : Value) (code : RpcCode) (message : Str) : Value := .object
  [("error", .object
      [("code", codeNumber code), ("message", .string message)]),
    ("id", reqId), ("jsonrpc", .string "2.0")]

def errDataResponse (reqId : Value) (code : RpcCode) (message : Str) (data : Value) : Value :=
  .object
    [("error", .object
        [("code", codeNumber code), ("data", data),
          ("message", .string message)]),
      ("id", reqId), ("jsonrpc", .string "2.0")]

/-- `slice::join`. -/
def joinTexts (sep : Str) : List Str → Str
  | [] => []
  | [s] => s
  | s :: rest => s ++ sep ++ joinTexts sep rest

/-! ## A gateway to evaluate -/

mutual

def writeValue : Value → Str
  | .null => "null"
  | .bool true => "true"
  | .bool false => "false"
  | .number n => n
  | .string s => writeString s
  | .array vs => "[" ++ writeItems vs ++ "]"
  | .object fs => "\x7b" ++ writeFields fs ++ "\x7d"

def writeItems : List Value → Str
  | [] => []
  | [v] => writeValue v
  | v :: w :: vs => writeValue v ++ "," ++ writeItems (w :: vs)

def writeFields : List (Str × Value) → Str
  | [] => []
  | [(k, v)] => writeString k ++ ":" ++ writeValue v
  | (k, v) :: f :: fs =>
    writeString k ++ ":" ++ writeValue v ++ "," ++ writeFields (f :: fs)

end

/-- An environment in which the handlers can be evaluated, with the hashes that `hashes` lists. -/
def sample (hashes : List (Str × Str)) : Env where
  sha256Hex16 s := match hashes.find? fun x => x.1 = s with
    | some x => x.2
    | none => []
  parseUuid := Uuid.parseStr
  uuidText := Uuid.toStr
  debugList ss :=
    "[" ++ joinTexts ", " (ss.map writeString) ++ "]"
  parseJson s := (readDoc some s).map toValue
  jsonText := writeValue

/-- Every query finds nothing, and no backend answers. -/
def silent : Respond
  | .loadPermissionContext _ | .resolveSession _ | .signIdentity _ _ _ => .error .database
  | .canAccessConnector _ _ => .ok true
  | .listAccessibleConnectors _ => .ok []
  | .getConnectorById _ | .getComposioConnectorByName _ | .getUserConnection _ _ => .ok none
  | .sessionOfTrace _ | .flowTitle _ | .compressionOriginal _ _ _ => .ok none
  | .resolveStableSessionContext _ _ _ => .ok none
  | .hasActiveSessionGrant _ _ _ _ _ => .ok false
  | .claimResolvedToolApproval _ _ _ _ _ => .ok none
  | .createPendingToolApproval _ _ _ _ _ _ | .createPendingAuthRequired _ _ _ _ _ =>
    .error .database
  | .composioConnect _ _ => .ok none
  | .checkConnectionStatus _ _ => .error (.http true)
  | .searchTools _ _ _ _ => .ok []
  | .manifestGet _ => .ok none
  | .manifestSet _ _ => .ok ()
  | .listTools _ _ | .callTool _ _ _ _ _ => .error (.http true)
  | .refreshEndpoint _ => .ok none

def notesId : Uuid := 0xb0b0b0b0b0b0b0b0b0b0b0b0b0b0b0b0#128

end Nasiko.McpGateway
