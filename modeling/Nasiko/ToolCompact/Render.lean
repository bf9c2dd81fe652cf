import Nasiko.ToolCompact.Schema

/-!
# Schema model to compact definition text

`Renderer.fields` writes the fields of an object in the notation of the crate:
`city:str, unit?:c|f='c' 'text'`. A renderer appends to its output in the source; here every
function returns the text it appends.

Under the policy `auto` a property description is dropped when every word in it is already said by
the property name, its type or the tool name. What a word is rests on the character classes of
Unicode, which are a parameter.
-/

namespace Nasiko.ToolCompact

open SerdeJson

/-- Type keywords; a string literal equal to one of these is quoted. -/
def keywords : List Str :=
  ["str", "int", "num", "bool", "any", "obj",
    "null", "true", "false", "datetime", "date", "time",
    "email", "uri", "uuid"]

/-- Words that never carry meaning on their own. -/
def stopwords : List Str :=
  ["a", "an", "the", "of", "in", "on", "at",
    "to", "for", "and", "or", "is", "be", "by",
    "as", "with", "this", "that", "it", "its",
    "e", "g", "eg", "ie"]

/-- Shortest word that may match another by prefix. -/
def minPrefixLen : Nat := 3

/-- What happens to property descriptions. -/
inductive DescriptionPolicy where
  | auto
  | keep
  deriving DecidableEq

/-- The character classes of Unicode that `char` offers. -/
structure Unicode where
  isAlphanumeric : Char → Bool
  isUppercase : Char → Bool
  isLowercase : Char → Bool
  isNumeric : Char → Bool
  toLowercase : Char → Str

structure Renderer where
  policy : DescriptionPolicy
  toolWords : List Str
  unicode : Unicode

/-! ## Quoting -/

/-- One character with its escape, where `extra` has further characters to escape. -/
def escapeChar (extra : List Char) (c : Char) : Str :=
  if c = '\\' then ['\\', '\\']
  else if c = '\n' then ['\\', 'n']
  else if c = '\r' then ['\\', 'r']
  else if c = '\t' then ['\\', 't']
  else if extra.contains c then ['\\', c]
  else [c]

/-- Backslash, line breaks, tabs and the given extra characters escaped. -/
def pushEscaped (s : Str) (extra : List Char) : Str := s.flatMap (escapeChar extra)

/-- `'text'` -/
def pushQuoted (s : Str) : Str := '\'' :: (pushEscaped s ['\''] ++ ['\''])

/-- A letter or `_`, then letters, digits, `_`, `-`, `.`, `/`. -/
def isBareWord : Str → Bool
  | [] => false
  | c :: s => (isAsciiAlphabetic c || c == '_') &&
      s.all fun c => isAsciiAlphanumeric c || c == '_' || c == '-' || c == '.' || c == '/'

/-- A letter or `_`, then letters, digits, `_`. -/
def isIdent : Str → Bool
  | [] => false
  | c :: s => (isAsciiAlphabetic c || c == '_') &&
      (c :: s).all fun c => isAsciiAlphanumeric c || c == '_'

def pushKey (name : Str) : Str := if isIdent name then name else pushQuoted name

variable {N F : Type} [SerdeJson N F]

def pushLiteral : Json N → Str
  | .string s => if isBareWord s && !keywords.contains s then s else pushQuoted s
  | v => toText v

def pushRange (r : Range N) : Str :=
  if r.isEmpty then []
  else '(' :: ((r.min.map numText).getD [] ++ ".." ++ (r.max.map numText).getD [] ++ [')'])

/-! ## Redundant descriptions -/

/-- The loop of `words`: the words closed so far, the open one, and whether the last character was
lower case. -/
def wordsLoop (u : Unicode) : Str → List Str → Str → Bool → List Str
  | [], out, cur, _ => if cur.isEmpty then out else out ++ [cur]
  | c :: text, out, cur, prevLower =>
    if u.isAlphanumeric c then
      let split := u.isUppercase c && prevLower && !cur.isEmpty
      wordsLoop u text (if split then out ++ [cur] else out)
        ((if split then [] else cur) ++ u.toLowercase c) (u.isLowercase c || u.isNumeric c)
    else wordsLoop u text (if cur.isEmpty then out else out ++ [cur]) [] false

/-- Lower-cased alphanumeric words, split on punctuation, `_` and camelCase, minus stopwords. -/
def words (u : Unicode) (text : Str) : List Str :=
  (wordsLoop u text [] [] false).filter fun w => !stopwords.contains w

def isKnown (word : Str) (known : List Str) : Bool :=
  known.any fun k =>
    word == k || (minPrefixLen ≤ min (Str.utf8Len word) (Str.utf8Len k) &&
      (k.isPrefixOf word || word.isPrefixOf k))

/-- Words a type keyword already conveys to the model. -/
def typeWords : Kind N (Ty N) → List Str
  | .str none => ["string", "text"]
  | .str (some .dateTime) =>
    ["date", "time", "datetime", "timestamp", "iso",
      "8601", "rfc", "3339", "utc"]
  | .str (some .date) => ["date", "day", "iso", "8601"]
  | .str (some .time) => ["time", "iso", "8601"]
  | .str (some .email) => ["email", "address"]
  | .str (some .uri) => ["url", "uri", "link"]
  | .str (some .uuid) => ["uuid", "id", "identifier"]
  | .int _ => ["integer", "int", "number", "whole"]
  | .num _ => ["number", "numeric", "float", "decimal"]
  | .bool =>
    ["boolean", "bool", "flag", "whether", "true",
      "false"]
  | .array _ => ["list", "array"]
  | .any | .anyObject | .enum _ | .object _ => []

namespace Renderer

def keepDescription (r : Renderer) (desc : Str) (kind : Kind N (Ty N)) (fieldName : Option Str) :
    Bool :=
  match r.policy with
  | .keep => true
  | .auto =>
    let ofName := (fieldName.map (words r.unicode)).getD []
    let ofEnum :=
      match kind with
      | .enum values => values.flatMap fun v => words r.unicode (toText v)
      | _ => []
    let known := ofName ++ typeWords kind ++ ofEnum
    !(words r.unicode desc).all fun w => r.toolWords.contains w || isKnown w known

/-! ## Types -/

/-- `|null` for a nullable type that is not an enum. -/
def nullMark (kind : Kind N (Ty N)) (nullable : Bool) : Str :=
  match kind with
  | .enum _ => []
  | _ => if nullable then "|null" else []

/-- What stands behind the alternatives of a type: default and description. -/
def suffix (r : Renderer) (kind : Kind N (Ty N)) (description : Option Str)
    (default : Option (Json N)) (fieldName : Option Str) : Str :=
  (match default with
    | some d => '=' :: toText d
    | none => []) ++
  (match description with
    | some desc => if r.keepDescription desc kind fieldName then ' ' :: pushQuoted desc else []
    | none => [])

/-- The members of an enum, separated by `|`. -/
def literals : List (Json N) → Str
  | [] => []
  | v :: vs => pushLiteral v ++ if vs.isEmpty then [] else '|' :: literals vs

mutual

def ty (r : Renderer) : Ty N → Option Str → Str
  | ⟨kind, nullable, description, default⟩, fieldName =>
    r.kind kind ++ nullMark kind nullable ++ r.suffix kind description default fieldName
termination_by structural t => t

def kind (r : Renderer) : Kind N (Ty N) → Str
  | .str none => "str"
  | .str (some f) => f.keyword
  | .int range => "int" ++ pushRange range
  | .num range => "num" ++ pushRange range
  | .bool => "bool"
  | .any => "any"
  | .anyObject => "obj"
  | .enum values => literals values
  | .array items => '[' :: (r.ty items none ++ [']'])
  | .object obj => r.object obj
termination_by structural k => k

/-- A nested object in braces. -/
def object (r : Renderer) : Object (Ty N) → Str
  | ⟨fields, closed⟩ =>
    '{' :: (r.fields fields ++ '}' :: if closed then ['!'] else [])
termination_by structural o => o

/-- `field, field, ...` -/
def fields (r : Renderer) : List (Field (Ty N)) → Str
  | [] => []
  | ⟨name, required, t⟩ :: fs =>
    pushKey name ++ (if required then [] else ['?']) ++ ':' :: r.ty t (some name) ++
      if fs.isEmpty then [] else ", ".toList ++ r.fields fs
termination_by structural fs => fs

end

end Renderer

end Nasiko.ToolCompact
