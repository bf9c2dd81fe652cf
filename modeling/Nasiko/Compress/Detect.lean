import Nasiko.Compress.Policy
import Nasiko.Compress.Marker
import Nasiko.Json.Serde
import Nasiko.Text.Lines

/-!
# The shape of a payload

`detect` tries the shapes in a fixed order. JSON is recognised by reading all of it, the others by
what their lines look like.
-/

namespace Nasiko.Compress

open Text (occurs)

def startsWith (line : Str) (pat : String) : Bool := pat.toList.isPrefixOf line

def contains (text : Str) (pat : String) : Bool := occurs pat.toList text

/-! ## JSON and diffs -/

def isJson (N : Type) {F : Type} [SerdeJson N F] (trimmed : Str) : Bool :=
  (startsWith trimmed "\x7b" || startsWith trimmed "[") &&
    (SerdeJson.fromStr trimmed : Option (Json N)).isSome

/-- `line.matches("@@").count()` -/
def countHunkMarks : Str → Nat
  | '@' :: '@' :: s => countHunkMarks s + 1
  | _ :: s => countHunkMarks s
  | [] => 0

def isHunk (line : Str) : Bool := startsWith line "@@" && 2 ≤ countHunkMarks line

/-- A line that counts as a change when a diff is looked for. -/
def isChangeLine (line : Str) : Bool :=
  !isHunk line && (startsWith line "+" || startsWith line "-") &&
    !startsWith line "+++" && !startsWith line "---"

def isDiff (trimmed : Str) : Bool :=
  contains trimmed "diff --git" ||
    (2 ≤ (Str.lines trimmed).countP isHunk && 0 < (Str.lines trimmed).countP isChangeLine)

/-! ## Logs -/

def logLevels : List String := ["ERROR", "WARN", "WARNING", "INFO", "DEBUG", "TRACE", "FATAL"]

def hasLogLevel (line : Str) : Bool := logLevels.any fun lvl => contains (takeChars line 120) lvl

/-- Four digits and a hyphen. -/
def isDate : Str → Bool
  | a :: b :: c :: d :: e :: _ => a.isDigit && b.isDigit && c.isDigit && d.isDigit && e = '-'
  | _ => false

/-- `HH:M` and one more character. -/
def isClock : Str → Bool
  | a :: b :: c :: d :: _ :: _ => a.isDigit && b.isDigit && c = ':' && d.isDigit
  | _ => false

/-- `line.get(1..end)`, where `end` is the place of the first `]` and at most 40. -/
def bracketText (line : Str) : Option Str :=
  if ']' ∈ line ∧ Str.utf8Len (line.takeWhile (· ≠ ']')) ≤ 40 then
    match line.takeWhile (· ≠ ']') with
    | [] => none
    | c :: inner => if c.utf8Size = 1 then some inner else none
  else none

/-- A time in brackets: there is a colon and a digit in them. -/
def isBracketed (line : Str) : Bool :=
  (Str.trimStart line).head? = some '[' &&
    ((bracketText line).map fun inner => inner.contains ':' && inner.any Char.isDigit).getD false

def startsWithTimestamp (line : Str) : Bool :=
  isDate (Str.trimStart line) || isClock (Str.trimStart line) || isBracketed line

def isLogLine (line : Str) : Bool := hasLogLevel line || startsWithTimestamp line

def inkedLines (trimmed : Str) : List Str :=
  (Str.lines trimmed).filter fun line => !(Str.trim line).isEmpty

def isLog (trimmed : Str) : Bool :=
  4 ≤ (inkedLines trimmed).length &&
    (inkedLines trimmed).length ≤ (inkedLines trimmed).countP isLogLine * 2

/-! ## Hits of a search -/

/-- What stands in front of the first colon, what stands between the first two, and whether there
are two. -/
def hitParts (line : Str) : Option (Str × Str) :=
  match line.dropWhile (· ≠ ':') with
  | [] => none
  | _ :: rest =>
    if ':' ∈ rest then some (line.takeWhile (· ≠ ':'), rest.takeWhile (· ≠ ':')) else none

/-- `path:line:content` -/
def isSearchHit (line : Str) : Bool :=
  match hitParts line with
  | none => false
  | some (path, number) =>
    !path.isEmpty && !path.any Str.isWhitespace && !number.isEmpty && number.all Char.isDigit

def isSearchResults (trimmed : Str) : Bool := 5 ≤ (Str.lines trimmed).countP isSearchHit

/-! ## Code and markup -/

def keywords : List String :=
  ["fn ", "def ", "class ", "import ", "function ", "func ", "package ", "struct ", "impl ",
    "const "]

def isCode (trimmed : Str) : Bool :=
  3 ≤ keywords.countP (fun kw => contains trimmed kw) &&
    (contains trimmed "\x7b" ||
      3 ≤ (Str.lines trimmed).countP fun line => startsWith line "    ")

/-- The names behind the opening brackets. -/
def tagNames : Str → List Str
  | [] => []
  | c :: s => if c = '<' then s.takeWhile Char.isAlphanum :: tagNames s else tagNames s

def isMarkup (trimmed : Str) : Bool :=
  startsWith trimmed "<" && 3 ≤ ((tagNames trimmed).filter fun tag => !tag.isEmpty).dedup.length

/-! ## The order -/

def detect (N : Type) {F : Type} [SerdeJson N F] (text : Str) : ContentType :=
  let trimmed := Str.trim text
  if trimmed.isEmpty then .prose
  else if isJson N trimmed then .json
  else if isDiff trimmed then .diff
  else if isLog trimmed then .log
  else if isSearchResults trimmed then .searchResults
  else if isCode trimmed then .code
  else if isMarkup trimmed then .markup
  else .prose

end Nasiko.Compress
