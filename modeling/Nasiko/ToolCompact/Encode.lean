import Nasiko.ToolCompact.Decode
import Nasiko.ToolCompact.Render

/-!
# Tool definitions and calls to compact text
-/

namespace Nasiko.ToolCompact

open SerdeJson

/-- Longest tool name that is accepted. -/
def maxNameLen : Nat := 64

variable {N F : Type} [SerdeJson N F]

def isToolNameByte (c : Char) : Bool := isAsciiAlphanumeric c || c == '_' || c == '-'

def checkName (tool : ToolDef N) (earlier : List (ToolDef N)) : Except CompactError Unit :=
  let invalid (reason : String) : Except CompactError Unit :=
    .error (.invalidTool tool.name reason.toList)
  if tool.name.isEmpty || maxNameLen < Str.utf8Len tool.name then
    invalid "name must be 1-64 characters"
  else if !tool.name.all isToolNameByte then
    invalid "name may only contain letters, digits, `_` and `-`"
  else if earlier.any fun t => t.name == tool.name then invalid "duplicate tool name"
  else .ok ()

def renderTool (u : Unicode) (policy : DescriptionPolicy) (tool : ToolDef N) :
    Except CompactError Str := do
  let params ← parameters tool
  let renderer : Renderer := ⟨policy, words u tool.name, u⟩
  let closedMark := if params.closed && tool.parameters.isSome then ['!'] else []
  let description :=
    match tool.description with
    | some desc => if desc.isEmpty then [] else " - " ++ pushEscaped desc []
    | none => []
  return tool.name ++ '(' :: (renderer.fields params.fields ++ ')' :: (closedMark ++ description))

/-- The loop of `encode_tools_with`: `earlier` are the tools in front. -/
def encodeLoop (u : Unicode) (policy : DescriptionPolicy) (earlier : List (ToolDef N)) :
    List (ToolDef N) → Except CompactError Str
  | [] => .ok []
  | tool :: tools => do
    checkName tool earlier
    let line ← renderTool u policy tool
    let rest ← encodeLoop u policy (earlier ++ [tool]) tools
    return (if earlier.isEmpty then [] else ['\n']) ++ line ++ rest

/-- The definitions text: one line per tool, in request order. -/
def encodeToolsWith (u : Unicode) (policy : DescriptionPolicy) (tools : List (ToolDef N)) :
    Except CompactError Str :=
  encodeLoop u policy [] tools

/-- `ToolCall::arguments_json` -/
def ToolCall.argumentsJson (c : ToolCall N) : Str := toText (.object c.arguments)

def renderCall (c : ToolCall N) : Str :=
  callOpen ++ ([' '] ++ (c.name ++ ([' '] ++ (c.argumentsJson ++ callClose))))

/-- Calls in the compact call format, one per line. -/
def renderCalls : List (ToolCall N) → Str
  | [] => []
  | c :: cs => renderCall c ++ if cs.isEmpty then [] else '\n' :: renderCalls cs

end Nasiko.ToolCompact
