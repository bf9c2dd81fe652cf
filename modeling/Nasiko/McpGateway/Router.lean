import Nasiko.McpGateway.Types
import Nasiko.Text.Search

/-!
# Routing

`routeTool` finds the backend of a tool name and the name that the backend knows it by. A name with
the separator `__` belongs to the generic backend with that prefix; another name belongs to the
first system backend whose catalog lists it, and else to the Composio session.
-/

namespace Nasiko.McpGateway

open Text Option List

def separator : Str := "__"

/-- `split_once("__")`. -/
def splitOnce (s : Str) : Option (Str × Str) :=
  (splitFirst separator s).map fun ab => (ab.1, ab.2.drop 2)

namespace MCPServerConfig

variable (s : MCPServerConfig)

def active : Bool := s.url ≠ []

/-- A generic backend with this prefix. -/
def hasPrefix (pre : Str) : Bool :=
  s.kind = .mcp && s.active && connectorPrefix s.connectorId = pre

/-- A system backend whose catalog lists the tool. -/
def ownsName (toolName : Str) : Bool :=
  s.system && s.active && s.toolNames.contains toolName

def isComposio : Bool := s.kind = .composio && s.active

end MCPServerConfig

def notAvailable (connector : Str) : Str :=
  "Connector '" ++ connector ++ "' is not available for this agent. " ++
    "It may be disabled in the agent's permission settings."

/-- The backend of a tool name, and the name of the tool there. -/
def routeTool (toolName : Str) (servers : List MCPServerConfig) :
    Except McpError (MCPServerConfig × Str) :=
  match splitOnce toolName with
  | some (pre, original) =>
    match servers.find? fun s => s.hasPrefix pre with
    | some s => .ok (s, original)
    | none => .error (.badRequest (notAvailable pre))
  | none =>
    match servers.find? fun s => s.ownsName toolName with
    | some system => .ok (system, toolName)
    | none =>
      match servers.find? fun s => s.isComposio with
      | some composio => .ok (composio, toolName)
      | none => .error (.badRequest
          ("Unknown tool '" ++ toolName ++ "' — no matching connector."))

/-- The connector whose prefix a tool name has, among those that cannot be used. -/
def unusableReasonForPrefix (toolName : Str) (unusable : List (Uuid × UnusableConnector)) :
    Option (Uuid × UnusableConnector) :=
  match splitOnce toolName with
  | some (pre, _) => unusable.find? fun x => connectorPrefix x.1 = pre
  | none => none

/-! ## Names with a prefix -/

theorem splitOnce_prefix (id : Uuid) (original : Str) :
    splitOnce (connectorPrefix id ++ separator ++ original) =
      some (connectorPrefix id, original) := by
  have hnot : NotIn separator (connectorPrefix id) (separator ++ original) := by
    rintro u v huv hv ⟨r, hr⟩
    obtain ⟨c, v, rfl⟩ := exists_cons_of_ne_nil hv
    have hc : c = '_' := (cons.inj hr).1.symm
    have hmem : '_' ∈ connectorPrefix id := by
      rw [huv, ← hc]
      exact mem_append_right u mem_cons_self
    cases Uuid.isHexDigit_of_mem_digits (mem_of_mem_take hmem)
  rw [splitOnce, append_assoc, splitFirst_of_notIn hnot (prefix_append _ _)]
  simp [separator]

theorem splitOnce_eq_none_iff {s : Str} : splitOnce s = none ↔ ¬ separator <:+: s := by
  rw [splitOnce, map_eq_none_iff, splitFirst_eq_none_iff]

/-- What stands behind the separator is not the whole name. -/
theorem splitOnce_ne {s pre original : Str} (h : splitOnce s = some (pre, original)) :
    original ≠ s := by
  obtain ⟨⟨a, b⟩, hspl, heq⟩ := map_eq_some_iff.1 h
  obtain ⟨rfl, hpre, -⟩ := splitFirst_sound hspl
  cases heq
  intro hdrop
  have hlen := congrArg length hdrop
  have hle : 2 ≤ b.length := hpre.length_le
  simp only [length_drop, length_append] at hlen
  omega

end Nasiko.McpGateway
