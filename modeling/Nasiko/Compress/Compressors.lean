import Nasiko.Compress.Detect

/-!
# The compressors

A compressor says what is left of a payload of its shape, or that there is nothing to save. Those
for lines decide for each line whether it is kept, and put one mark where a run of lines was.
-/

namespace Nasiko.Compress

/-! ## Lines -/

/-- A mark for the lines that were dropped, on a line of its own. -/
def markLine (marker : Nat → Str) (dropped : Nat) : Str :=
  if 0 < dropped then marker dropped ++ ['\n'] else []

/-- The loop over the lines and their flags. -/
def render (marker : Nat → Str) : Nat → List (Str × Bool) → Str
  | dropped, [] => markLine marker dropped
  | dropped, (line, true) :: rest =>
    markLine marker dropped ++ line ++ ['\n'] ++ render marker 0 rest
  | dropped, (_, false) :: rest => render marker (dropped + 1) rest

/-! ## Logs -/

namespace Log

def severe : List String := ["ERROR", "WARN", "WARNING", "FATAL", "PANIC"]

def isSevere (line : Str) : Bool := severe.any fun lvl => contains (takeChars line 120) lvl

/-- A frame that names a place in a file of this kind. -/
def namesPlace (trimmed : Str) (ext : String) : Bool := contains trimmed ":" && contains trimmed ext

def isStackFrame (line : Str) : Bool :=
  let trimmed := Str.trimStart line
  if Str.utf8Len line = Str.utf8Len trimmed then
    startsWith trimmed "Caused by" || startsWith trimmed "Traceback"
  else
    startsWith trimmed "at " || startsWith trimmed "File \"" || startsWith trimmed "Caused by" ||
      namesPlace trimmed ".rs" || namesPlace trimmed ".py" || namesPlace trimmed ".js"

/-- Is the line with this number kept for itself? -/
def keeps (head tail total : Nat) (line : Str) (i : Nat) : Bool :=
  i < head || total - tail ≤ i || isSevere line || isStackFrame line

/-- Frames directly behind a severe line that is kept are kept; `raised` says that the lines so far
lead up to such a line. -/
def attachFrames : Bool → List (Str × Bool) → List (Str × Bool)
  | _, [] => []
  | raised, (line, keep) :: rest =>
    let kept := keep || (raised && isStackFrame line)
    (line, kept) :: attachFrames ((kept && isSevere line) || (raised && isStackFrame line)) rest

def flags (head tail : Nat) (lines : List Str) : List (Str × Bool) :=
  attachFrames false
    (lines.zipIdx.map fun e => (e.1, keeps head tail lines.length e.1 e.2))

def compress (input : Str) (policy : Policy) : Option Str :=
  let lines := Str.lines input
  let (head, tail) := policy.level.logHeadTail
  if lines.length ≤ head + tail + 1 then none
  else some (render (elidedLines · policy.recoveryRef) 0 (flags head tail lines))

end Log

/-! ## Diffs -/

namespace Diff

def isStructural (line : Str) : Bool :=
  startsWith line "diff --git" || startsWith line "index " || startsWith line "--- " ||
    startsWith line "+++ " || startsWith line "@@" || startsWith line "new file mode" ||
    startsWith line "deleted file mode" || startsWith line "rename " ||
    startsWith line "similarity index"

def isChange (line : Str) : Bool :=
  (startsWith line "+" || startsWith line "-") && !isStructural line

def changed (lines : List Str) : List Nat :=
  (lines.zipIdx.filter fun e => isChange e.1).map Prod.snd

def keeps (context : Nat) (changed : List Nat) (line : Str) (i : Nat) : Bool :=
  isStructural line || isChange line ||
    changed.any fun j => j - context ≤ i && i < j + context + 1

def flags (context : Nat) (lines : List Str) : List (Str × Bool) :=
  lines.zipIdx.map fun e => (e.1, keeps context (changed lines) e.1 e.2)

def compress (input : Str) (policy : Policy) : Option Str :=
  let marked := flags policy.level.diffContext (Str.lines input)
  if marked.all fun e => e.2 then none
  else some (render (elidedLines · policy.recoveryRef) 0 marked)

end Diff

/-! ## Hits of a search -/

namespace Search

def diagnostic : List String :=
  ["error", "panic", "unsafe", "warning", "FIXME", "TODO", "deprecated"]

def isDiagnostic (line : Str) : Bool :=
  diagnostic.any fun t => Text.occurs (Str.toAsciiLowercase t.toList) line.toAsciiLowercase

def hits (lines : List Str) : List Nat :=
  (lines.zipIdx.filter fun e => isSearchHit e.1).map Prod.snd

def keeps (head tail : Nat) (hits : List Nat) (line : Str) (i : Nat) : Bool :=
  i ∈ hits.take head || i ∈ hits.drop (hits.length - tail) ||
    (isSearchHit line && isDiagnostic line) || !isSearchHit line

def flags (head tail : Nat) (lines : List Str) : List (Str × Bool) :=
  lines.zipIdx.map fun e => (e.1, keeps head tail (hits lines) e.1 e.2)

/-- The hits that are left out. -/
def elided (marked : List (Str × Bool)) : List Str :=
  (marked.filter fun e => !e.2).map Prod.fst

def distinctFiles (elided : List Str) : Nat :=
  (elided.map fun line => line.takeWhile (· ≠ ':')).dedup.length

def compress (input : Str) (policy : Policy) : Option Str :=
  let lines := Str.lines input
  let (head, tail) := policy.level.searchHeadTail
  if (hits lines).length ≤ head + tail + 1 then none
  else
    let marked := flags head tail lines
    if (elided marked).isEmpty then none
    else
      let files := distinctFiles (elided marked)
      some (render (elidedMatches · files policy.recoveryRef) 0 marked)

end Search

/-! ## JSON -/

namespace JsonDoc

def preservedKeys : List String :=
  ["error", "errors", "message", "stack", "stacktrace", "detail", "exception"]

def isPreserved (key : Str) : Bool :=
  preservedKeys.any fun k => k.toList == key.map Char.toLower

variable {N : Type}

def discriminant : Json N → Nat
  | .null => 0
  | .bool _ => 1
  | .number _ => 2
  | .string _ => 3
  | .array _ => 4
  | .object _ => 5

def isHomogeneous : List (Json N) → Bool
  | [] => false
  | first :: items => (first :: items).all fun v => discriminant v = discriminant first

variable (policy : Policy)

def reduceString (s : Str) : Str :=
  let max := policy.level.maxStringChars
  (headTail s (max * 2 / 3) (max / 3) policy.recoveryRef).getD s

/-- Is an array with these elements cut? -/
def collapses (items : List (Json N)) : Bool :=
  let (head, tail) := policy.level.jsonArrayHeadTail
  !(items.length ≤ head + tail + 1) && isHomogeneous items

/-- The array of these reduced elements, cut in the middle. -/
def collapse (reduced : List (Json N)) : List (Json N) :=
  let (head, tail) := policy.level.jsonArrayHeadTail
  reduced.take head ++
    .string (elidedItems (reduced.length - head - tail) reduced.length policy.recoveryRef) ::
      reduced.drop (reduced.length - tail)

mutual

def reduce (policy : Policy) : Json N → Json N
  | .object fields => .object (reduceFields policy fields)
  | .array items =>
    if collapses policy items then .array (collapse policy (reduceItems policy items))
    else .array (reduceItems policy items)
  | .string s => .string (reduceString policy s)
  | .null => .null
  | .bool b => .bool b
  | .number n => .number n
termination_by structural v => v

def reduceItems (policy : Policy) : List (Json N) → List (Json N)
  | [] => []
  | v :: vs => reduce policy v :: reduceItems policy vs
termination_by structural vs => vs

def reduceFields (policy : Policy) : List (Str × Json N) → List (Str × Json N)
  | [] => []
  | (key, v) :: fs =>
    (key, if isPreserved key then v else reduce policy v) :: reduceFields policy fs
termination_by structural fs => fs

end

def compress (N : Type) {F : Type} [SerdeJson N F] (input : Str) (policy : Policy) : Option Str :=
  (SerdeJson.fromStr input : Option (Json N)).map fun parsed =>
    SerdeJson.toText (reduce policy parsed)

end JsonDoc

/-! ## By shape -/

def dispatch (N : Type) {F : Type} [SerdeJson N F] (kind : ContentType) (input : Str)
    (policy : Policy) : Option Str :=
  match kind with
  | .json => JsonDoc.compress N input policy
  | .log => Log.compress input policy
  | .diff => Diff.compress input policy
  | .searchResults => Search.compress input policy
  | .code | .markup | .prose => none

end Nasiko.Compress
