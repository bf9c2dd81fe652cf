import Nasiko.Concurrency.System
import Nasiko.McpGateway.Aggregator

/-!
# The permissions of an agent, kept and cached

The table `mcp_agent_connector_access` has one row for an agent and a connector: whether the
connector is enabled for the agent, and the rules for its tools. A request is decided by the context
that is computed from these rows. The context is kept in the cache for a while, and every write of
the rows ends with dropping it from there.

The readers and writers are programs over the commands of this module. Redis never fails a request:
a read that fails is a miss, and a write that fails is skipped.
-/

namespace Nasiko.McpGateway

open Concurrency Program Prod

/-- A row of `mcp_agent_connector_access`. -/
structure AccessRow where
  agentId : Uuid
  connectorId : Uuid
  enabled : Bool
  toolRules : Value
  deriving DecidableEq

/-! ## The context -/

/-- `serde` reads a rule from an object with its fields, or from an array in their order. -/
def readToolRule (v : Value) : Option (Str × Str) :=
  match v with
  | .array [.string pattern, .string stance] => some (pattern, stance)
  | v => (strField v "pattern").bind fun pattern =>
      (strField v "stance").map fun stance => (pattern, stance)

/-- The rules of a row; none if one of them cannot be read. -/
def parseToolRules (raw : Value) : List (Str × Str) :=
  ((Json.asArray raw).bind fun vs => vs.mapM readToolRule).getD []

def rulesOf (row : AccessRow) : List PermissionRule :=
  (parseToolRules row.toolRules).filterMap fun tr =>
    (Stance.fromStr tr.2).map fun stance => ⟨row.connectorId, tr.1, stance⟩

variable (env : Env)

def computeHash (rules : List PermissionRule) (enabled : List Uuid) : Str :=
  let data := (rules.map fun r =>
    [env.uuidText r.connectorId, r.toolPattern, r.stance.asStr]).insertionSort (· ≤ ·)
  let enabledSorted := (enabled.map env.uuidText).insertionSort (· ≤ ·)
  let all := data ++ enabledSorted.map fun s => ["__enabled__".toList, s, "allow".toList]
  env.sha256Hex16 (Json.Integers.write (.array (all.map fun d => .array (d.map .string))))

variable (agentId : Uuid)

def contextOf (rows : List AccessRow) : PermissionContext :=
  let own := rows.filter fun r => r.agentId = agentId
  let enabled := (own.filter fun r => r.enabled).map AccessRow.connectorId
  let rules := own.flatMap rulesOf
  ⟨agentId, enabled, rules, computeHash env rules enabled⟩

/-! ## Commands -/

inductive AccessCommand where
  | cacheGet (agentId : Uuid)
  | cacheSet (agentId : Uuid) (context : PermissionContext)
  | cacheDelete (agentId : Uuid)
  | selectAccess (agentId : Uuid)
  | selectAccessRow (agentId connectorId : Uuid)
  | upsertAccess (row : AccessRow)
  | deleteAllAccess (agentId : Uuid)
  | canAccessConnector (userId connectorId : Uuid)
  | agentHasConnectorGrant (agentId connectorId : Uuid)
  /-- What other parts of the platform do: connections, shares and agents come and go. -/
  | replaceRows (rows : List AccessRow)
  | replaceReach (reachable granted : List (Uuid × Uuid))

abbrev AccessReply : AccessCommand → Type
  | .cacheGet _ => Option PermissionContext
  | .selectAccess _ => List AccessRow
  | .selectAccessRow _ _ => Option AccessRow
  | .upsertAccess _ => AccessRow
  | .deleteAllAccess _ => Nat
  | .canAccessConnector _ _ | .agentHasConnectorGrant _ _ => Bool
  | .cacheSet _ _ | .cacheDelete _ | .replaceRows _ | .replaceReach _ _ => Unit

abbrev AccessProg (α : Type) := Program AccessCommand AccessReply McpError α

/-! ## Reading -/

def loadPermissionContext : AccessProg PermissionContext := do
  match ← attempt (perform (AccessCommand.cacheGet agentId)) with
  | .ok (some context) => pure context
  | _ =>
    let rows ← perform (AccessCommand.selectAccess agentId)
    let context := contextOf env agentId rows
    let _ ← attempt (perform (AccessCommand.cacheSet agentId context))
    pure context

/-! ## Writing -/

def invalidatePermissionCache : AccessProg Unit := do
  let _ ← attempt (perform (AccessCommand.cacheDelete agentId))
  pure ()

def connectorNotFound (connectorId : Uuid) : McpError :=
  .notFound ("connector '" ++ env.uuidText connectorId ++ "' not found")

/-- Whether the caller may set up this connector for the agent. -/
def reachable (userId agentId connectorId : Uuid) : AccessProg Bool := do
  if ← perform (AccessCommand.canAccessConnector userId connectorId) then pure true
  else perform (AccessCommand.agentHasConnectorGrant agentId connectorId)

/-- `PUT /agents/x/connectors/y`: switch a connector on or off, keeping its rules. -/
def setConnectorAccessView (userId agentId connectorId : Uuid) (enabled : Bool) :
    AccessProg Value := do
  if ← reachable userId agentId connectorId then
    let existing ← perform (AccessCommand.selectAccessRow agentId connectorId)
    let existingRules := (existing.map AccessRow.toolRules).getD (.array [])
    let row ← perform (AccessCommand.upsertAccess ⟨agentId, connectorId, enabled, existingRules⟩)
    invalidatePermissionCache agentId
    pure (.object [("connector_id", .string (env.uuidText row.connectorId)),
      ("enabled", .bool row.enabled)])
  else fail (connectorNotFound env connectorId)

structure ToolRuleInput where
  connectorId : Uuid
  toolPattern : Str
  stance : Str
  deriving DecidableEq

def stances : List Str := ["allow", "ask", "block"]

def lastStance (rules : List ToolRuleInput) (connectorId : Uuid) (pattern : Str) : Option Str :=
  (rules.reverse.find? fun r => r.connectorId = connectorId ∧ r.toolPattern = pattern).map
    ToolRuleInput.stance

/-- The rules by connector and pattern, in the order in which the two hash maps are iterated. This
order is not fixed: any list with the same entries can come up. -/
structure Grouping (rules : List ToolRuleInput) where
  entries : List (Uuid × List (Str × Str))
  connectorsOnce : (entries.map fst).Nodup
  connectors : ∀ connectorId, connectorId ∈ entries.map fst ↔
    ∃ r ∈ rules, r.connectorId = connectorId
  patterns : ∀ e ∈ entries, (e.2.map fst).Nodup ∧
    ∀ pattern stance, (pattern, stance) ∈ e.2 ↔ lastStance rules e.1 pattern = some stance

def ruleValue (tr : Str × Str) : Value := .object
  [("pattern", .string tr.1), ("stance", .string tr.2)]

/-- Replace the rules of one connector. -/
def updateConnectorTools (userId agentId : Uuid) (e : Uuid × List (Str × Str)) :
    AccessProg (List Value) := do
  if ← perform (AccessCommand.canAccessConnector userId e.1) then
    let existing ← perform (AccessCommand.selectAccessRow agentId e.1)
    let enabled := (existing.map AccessRow.enabled).getD true
    let _ ← perform (AccessCommand.upsertAccess
      ⟨agentId, e.1, enabled, .array (e.2.map ruleValue)⟩)
    pure (e.2.map fun tr => .object [("connector_id", .string (env.uuidText e.1)),
      ("stance", .string tr.2), ("tool_pattern", .string tr.1)])
  else fail (connectorNotFound env e.1)

def updateAll (env : Env) (userId agentId : Uuid) :
    List (Uuid × List (Str × Str)) → AccessProg (List Value)
  | [] => pure []
  | e :: es => do
    let applied ← updateConnectorTools env userId agentId e
    let rest ← updateAll env userId agentId es
    pure (applied ++ rest)

/-- `PUT /agents/x/tools`: replace the rules of the connectors that are named. -/
def bulkUpdateTools (userId agentId : Uuid) (rules : List ToolRuleInput)
    (grouping : Grouping rules) : AccessProg Value :=
  if rules.any fun r => !stances.contains r.stance then
    fail (.badRequest ("stance must be one of " ++ env.debugList stances))
  else do
    let applied ← updateAll env userId agentId grouping.entries
    invalidatePermissionCache agentId
    pure (.object [("rules", .array applied)])

/-- `DELETE /agents/x/permissions`. -/
def resetPermissions : AccessProg Nat := do
  let deleted ← perform (AccessCommand.deleteAllAccess agentId)
  invalidatePermissionCache agentId
  pure deleted

/-! ## The state -/

structure AccessState where
  rows : List AccessRow
  /-- The contexts in Redis. -/
  cache : List (Uuid × PermissionContext)
  /-- The users and the connectors that they can reach. -/
  reachable : List (Uuid × Uuid)
  /-- The agents and the connectors that were shared with them. -/
  granted : List (Uuid × Uuid)

namespace AccessState

variable (s : AccessState)

def cached (agentId : Uuid) : Option PermissionContext :=
  (s.cache.find? fun e => e.1 = agentId).map snd

def uncache (agentId : Uuid) : AccessState :=
  { s with cache := s.cache.filter fun e => e.1 ≠ agentId }

def recache (agentId : Uuid) (context : PermissionContext) : AccessState :=
  { s with cache := (agentId, context) :: (s.uncache agentId).cache }

def row (agentId connectorId : Uuid) : Option AccessRow :=
  s.rows.find? fun r => r.agentId = agentId ∧ r.connectorId = connectorId

/-- Replace the row of an agent and a connector, or add one. -/
def upsert (row : AccessRow) : AccessState :=
  let same := fun r : AccessRow => r.agentId = row.agentId ∧ r.connectorId = row.connectorId
  { s with rows := if s.rows.any fun r => same r then s.rows.map fun r => if same r then row else r
      else s.rows ++ [row] }

def run : (c : AccessCommand) → AccessReply c × AccessState
  | .cacheGet agentId => (s.cached agentId, s)
  | .cacheSet agentId context => ((), s.recache agentId context)
  | .cacheDelete agentId => ((), s.uncache agentId)
  | .selectAccess agentId => (s.rows.filter fun r => r.agentId = agentId, s)
  | .selectAccessRow agentId connectorId => (s.row agentId connectorId, s)
  | .upsertAccess row => (row, s.upsert row)
  | .deleteAllAccess agentId => ((s.rows.filter fun r => r.agentId = agentId).length,
      { s with rows := s.rows.filter fun r => r.agentId ≠ agentId })
  | .canAccessConnector userId connectorId => (s.reachable.contains (userId, connectorId), s)
  | .agentHasConnectorGrant agentId connectorId => (s.granted.contains (agentId, connectorId), s)
  | .replaceRows rows => ((), { s with rows := rows })
  | .replaceReach reachable granted => ((), { s with reachable := reachable, granted := granted })

/-- A command is one statement: it happens or not, and its answer may be lost. -/
def exec (c : AccessCommand) : Outcome → Option (Except McpError (AccessReply c) × AccessState)
  | .done => some (.ok (s.run c).1, (s.run c).2)
  | .failed => some (.error .database, s)
  | .lost => some (.error .database, (s.run c).2)

end AccessState

end Nasiko.McpGateway
