import Nasiko.McpGateway.Commands
import Nasiko.Json.Integers

/-!
# The list of tools

`aggregateTools` asks every backend for its tools, gives the tools of generic backends their prefix,
leaves out what the agent may not use, and keeps the result in the cache. System backends keep their
bare names, and so do the tools of Composio.
-/

namespace Nasiko.McpGateway

open Concurrency Program Command

variable (env : Env)

/-! ## The key of the cache -/

def identityHeader : Str := "x-nasiko-identity"

/-- The headers of a backend in one hash, except for the identity, which is new with every
request. -/
def headersFingerprint (headers : List (Str × Str)) : Str :=
  let pairs := headers.filter fun h => Str.toAsciiLowercase h.1 ≠ identityHeader
  if pairs = [] then []
  else
    let sorted := (pairs.map fun h => [h.1, h.2]).insertionSort (· ≤ ·)
    env.sha256Hex16 (Json.Integers.write (.array (sorted.map fun h => .array (h.map .string))))

def manifestKey (userId : Uuid) (servers : List MCPServerConfig) (connectedToolkits : List Str)
    (permsHash : Str) : Str :=
  let backends := ((servers.filter MCPServerConfig.active).map fun s =>
    [env.uuidText s.connectorId, s.url, headersFingerprint env s.headers]).insertionSort (· ≤ ·)
  let toolkits := connectedToolkits.insertionSort (· ≤ ·)
  let raw := Json.Integers.write (.array [.array (backends.map fun b => .array (b.map .string)),
    .array (toolkits.map .string)])
  "mcp:manifest:" ++ env.uuidText userId ++ ":" ++ env.sha256Hex16 raw ++ ":" ++
    permsHash

/-! ## The list -/

def nameOf (tool : Value) : Option Str := strField tool "name"

/-- A tool of Composio is listed unless it is a meta-tool. -/
def composioTool (tool : Value) : Option Value :=
  match nameOf tool with
  | some name => if "COMPOSIO_".toList.isPrefixOf name then none else some tool
  | none => some tool

/-- The name under which a tool of a generic backend is listed. -/
def listedName (server : MCPServerConfig) (original : Str) : Str :=
  if server.system then original else connectorPrefix server.connectorId ++ separator ++ original

variable (perms : PermissionContext)

/-- A tool of a generic backend is listed if the agent may use it. A system backend lists only what
its catalog has. -/
def genericTool (server : MCPServerConfig) (tool : Value) : Option Value :=
  match nameOf tool with
  | none => none
  | some original =>
    if server.system && !server.toolNames.contains original then none
    else if perms.decide server.connectorId original = .denied then none
    else if server.system then some tool
    else some (setField "name" (.string (listedName server original)) tool)

/-- What is listed of a tool that a backend reports. -/
def listTool (server : MCPServerConfig) (tool : Value) : Option Value :=
  if server.kind = .composio then composioTool tool
  else if perms.isConnectorEnabled server.connectorId then genericTool perms server tool
  else none

/-- All tools that the backends report. A backend that fails is left out. -/
def reported (results : List (MCPServerConfig × Except McpError (List Value))) :
    List (MCPServerConfig × Value) :=
  results.flatMap fun x => match x.2 with
    | .ok tools => tools.map fun t => (x.1, t)
    | .error _ => []

def mergeTools (results : List (MCPServerConfig × Except McpError (List Value))) : List Value :=
  (reported results).filterMap fun x => listTool perms x.1 x.2

/-- The tools of all backends; one that fails does not stop the others. -/
def listAll (traceparent : Option Str) :
    List MCPServerConfig → Prog (List (MCPServerConfig × Except McpError (List Value)))
  | [] => pure []
  | s :: rest => do
    let tools ← attempt (perform (listTools s traceparent))
    let results ← listAll traceparent rest
    pure ((s, tools) :: results)

def aggregateTools (userId : Uuid) (servers : List MCPServerConfig) (connectedToolkits : List Str)
    (perms : PermissionContext) (traceparent : Option Str) : Prog (List Value) := do
  let key := manifestKey env userId servers connectedToolkits perms.hash
  match ← okOrNone (perform (manifestGet key)) with
  | some cached => pure cached
  | none =>
    let results ← listAll traceparent (servers.filter MCPServerConfig.active)
    let merged := mergeTools perms results
    let _ ← attempt (perform (manifestSet key merged))
    pure merged

end Nasiko.McpGateway
