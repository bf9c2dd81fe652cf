import Nasiko.Text.Lines
import Nasiko.ToolCompact.Encode

/-!
# Compact definition text to tool definitions

The reader of the notation that `Render` writes, one tool per line. A `Cursor` is what is left of
the line and the byte offset where that starts, which error messages report as a column.

The functions that read types call each other; here they count their calls down. A call either
consumes a character or is one of four nested calls that do not, so a count of four for every
character is never used up.
-/

namespace Nasiko.ToolCompact

open SerdeJson

/-- A recursive-descent reader over one definition line. -/
structure Cursor where
  i : Nat
  rest : Str

namespace Cursor

variable (c : Cursor)

/-- The cursor further on, where `rest` is left. -/
def skipTo (rest : Str) : Cursor := ⟨c.i + (Str.utf8Len c.rest - Str.utf8Len rest), rest⟩

def peek : Option Char := c.rest.head?

def column : Str := (toString (c.i + 1)).toList

def eat (b : Char) : Bool × Cursor :=
  if c.peek = some b then (true, ⟨c.i + 1, c.rest.tail⟩) else (false, c)

def expect (b : Char) : Except Str Cursor :=
  match c.eat b with
  | (true, c) => .ok c
  | (false, c) => .error ("expected `" ++ [b] ++ "` at column " ++ c.column)

def takeWhile (f : Char → Bool) : Str × Cursor :=
  (c.rest.takeWhile f, c.skipTo (c.rest.dropWhile f))

end Cursor

/-! ## Quoted text -/

def unescapeChar (e : Char) : Except Str Char :=
  if e = 'n' then .ok '\n'
  else if e = 'r' then .ok '\r'
  else if e = 't' then .ok '\t'
  else if e = '\\' ∨ e = '\'' then .ok e
  else .error ("unknown escape `\\" ++ [e] ++ "`")

/-- The characters up to the closing quote, and the text behind it. -/
def quotedChars : Str → Except Str (Str × Str)
  | [] => .error "unterminated quoted string"
  | ['\\'] => .error "unterminated quoted string"
  | '\\' :: e :: s => do
    let x ← unescapeChar e
    let (out, rest) ← quotedChars s
    return (x :: out, rest)
  | c :: s =>
    if c = '\'' then .ok ([], s)
    else do
      let (out, rest) ← quotedChars s
      return (c :: out, rest)

/-- `'...'` -/
def quoted (c : Cursor) : Except Str (Str × Cursor) := do
  let c ← c.expect '\''
  let (out, rest) ← quotedChars c.rest
  return (out, c.skipTo rest)

/-- Reverses `pushEscaped` for a tool description. -/
def unescape : Str → Except Str Str
  | [] => .ok []
  | ['\\'] => .error "dangling `\\`"
  | '\\' :: e :: s => do
    let x ← unescapeChar e
    return x :: (← unescape s)
  | c :: s => do
    return c :: (← unescape s)

/-! ## Literals, ranges and defaults -/

variable {N F : Type} [SerdeJson N F]

def number (s : Str) : Except Str N :=
  match numberFromStr s with
  | some n => .ok n
  | none => .error ("`" ++ s ++ "` is not a type or a value")

def rangeBound (s : Str) : Except Str (Option N) :=
  if s.isEmpty then .ok none else some <$> number s

/-- Optional `(min..max)` after `int` / `num`. -/
def parseRange (c : Cursor) : Except Str (Range N × Cursor) :=
  match c.eat '(' with
  | (false, c) => .ok (⟨none, none⟩, c)
  | (true, c) => do
    let (inner, c) := c.takeWhile (· ≠ ')')
    let c ← c.expect ')'
    match Text.splitFirst ".." inner with
    | none => .error ("bad range `" ++ inner ++ "`")
    | some (lo, hi) =>
      let min ← rangeBound lo
      let max ← rangeBound (hi.drop 2)
      return (⟨min, max⟩, c)

/-- The bracket counter of `json_value` stops as soon as nothing is open. -/
def closesValue (b : Json.Nesting) (c : Char) : Bool := !(b.step c).isOpen

def endsScalar (c : Char) : Bool :=
  c == ',' || c == ')' || c == '}' || c == ']' || c == '|' || c == ' '

/-- A JSON default value: a string, array or object (balanced) or a scalar token. -/
def jsonValue (c : Cursor) : Except Str (Json N × Cursor) :=
  let raw := if c.peek = some '"' ∨ c.peek = some '[' ∨ c.peek = some '{' then
      match Json.cutAfter closesValue (.outside 0) c.rest with
      | some (raw, _) => raw
      | none => c.rest
    else c.rest.takeWhile fun b => !endsScalar b
  match fromStr raw with
  | some v => .ok (v, c.skipTo (c.rest.drop raw.length))
  | none => .error ("bad default `" ++ raw ++ "`: " ++ parseError N raw)

inductive Alt (N : Type) where
  | type (kind : Kind N (Ty N))
  | literal (v : Json N)

/-- The values, if all alternatives are literals. -/
def allLiterals : List (Alt N) → Option (List (Json N))
  | [] => some []
  | .literal v :: alts => (v :: ·) <$> allLiterals alts
  | .type _ :: _ => none

/-- The loop over the alternatives of `T|null`. -/
def combineLoop (kind : Option (Kind N (Ty N))) (nullable : Bool) :
    List (Alt N) → Except Str (Option (Kind N (Ty N)) × Bool)
  | [] => .ok (kind, nullable)
  | .literal .null :: alts => combineLoop kind true alts
  | .type k :: alts =>
    if kind.isNone then combineLoop (some k) nullable alts
    else .error "only `T|null` unions are supported"
  | .literal _ :: _ => .error "only `T|null` unions are supported"

/-- Literals only: an enum. One type plus an optional `null`: that type, nullable. -/
def combine (alts : List (Alt N)) : Except Str (Ty N) :=
  match allLiterals alts with
  | some values => .ok (Ty.plain (.enum values))
  | none => do
    let (kind, nullable) ← combineLoop none false alts
    return { Ty.plain (kind.getD .any) with nullable }

def keywordOrLiteral (word : Str) (c : Cursor) : Except Str (Alt N × Cursor) :=
  if word = [] then .error ("expected a type at column " ++ c.column)
  else if word = "str" then .ok (.type (.str none), c)
  else if word = "int" then do
    let (r, c) ← parseRange c
    return (.type (.int r), c)
  else if word = "num" then do
    let (r, c) ← parseRange c
    return (.type (.num r), c)
  else if word = "bool" then .ok (.type .bool, c)
  else if word = "any" then .ok (.type .any, c)
  else if word = "obj" then .ok (.type .anyObject, c)
  else if word = "null" then .ok (.literal .null, c)
  else if word = "true" then .ok (.literal (.bool true), c)
  else if word = "false" then .ok (.literal (.bool false), c)
  else
    match Format.all.find? fun f => f.keyword == word with
    | some f => .ok (.type (.str (some f)), c)
    | none =>
      if isBareWord word && !keywords.contains word then .ok (.literal (.string word), c)
      else do
        let n ← number word
        return (.literal (.number n), c)

def endsWord (c : Char) : Bool :=
  c == ',' || c == ')' || c == '}' || c == ']' || c == '|' || c == '=' || c == '(' || c == ' ' ||
    c == '\''

/-- An optional default: `["=" json]`. -/
def tyDefault (t : Ty N) (c : Cursor) : Except Str (Ty N × Cursor) :=
  match c.eat '=' with
  | (true, c) => do
    let (v, c) ← jsonValue c
    return ({ t with default := some v }, c)
  | (false, c) => .ok (t, c)

/-- An optional description: `[" " quoted]`. -/
def tyDescription (t : Ty N) (c : Cursor) : Except Str (Ty N × Cursor) :=
  if " '".toList.isPrefixOf c.rest then do
    let (d, c) ← quoted ⟨c.i + 1, c.rest.tail⟩
    return ({ t with description := some d }, c)
  else .ok (t, c)

/-- The name of a field, which may be quoted. -/
def fieldKey (c : Cursor) : Except Str (Str × Cursor) :=
  if c.peek = some '\'' then quoted c
  else .ok (c.takeWhile fun b => isAsciiAlphanumeric b || b == '_')

/-- The message for a count that is used up, which never happens. -/
def outOfFuel : Str := "out of fuel"

mutual

/-- `alt ("|" alt)* ["=" json] [" " quoted]` -/
def parseTy : Nat → Cursor → Except Str (Ty N × Cursor)
  | 0, _ => .error outOfFuel
  | fuel + 1, c => do
    let (a, c) ← parseAlt fuel c
    let (as, c) ← parseAlts fuel c
    let t ← combine (a :: as)
    let (t, c) ← tyDefault t c
    tyDescription t c

/-- `("|" alt)*` -/
def parseAlts : Nat → Cursor → Except Str (List (Alt N) × Cursor)
  | 0, _ => .error outOfFuel
  | fuel + 1, c =>
    match c.eat '|' with
    | (false, c) => .ok ([], c)
    | (true, c) => do
      let (a, c) ← parseAlt fuel c
      let (as, c) ← parseAlts fuel c
      return (a :: as, c)

def parseAlt : Nat → Cursor → Except Str (Alt N × Cursor)
  | 0, _ => .error outOfFuel
  | fuel + 1, c =>
    if c.peek = some '[' then do
      let (items, c) ← parseTy fuel ⟨c.i + 1, c.rest.tail⟩
      let c ← c.expect ']'
      return (.type (.array items), c)
    else if c.peek = some '{' then do
      let (obj, c) ← parseFields fuel '}' ⟨c.i + 1, c.rest.tail⟩
      let c ← c.expect '}'
      let (closed, c) := c.eat '!'
      return (.type (.object { obj with closed }), c)
    else if c.peek = some '\'' then do
      let (s, c) ← quoted c
      return (.literal (.string s), c)
    else
      let (word, c) := c.takeWhile fun b => !endsWord b
      keywordOrLiteral word c

/-- `field (", " field)*` up to (not consuming) `close`. -/
def parseFields : Nat → Char → Cursor → Except Str (Object (Ty N) × Cursor)
  | 0, _, _ => .error outOfFuel
  | fuel + 1, close, c =>
    if c.peek = some close then .ok (Object.sortFields ⟨[], false⟩, c)
    else do
      let (fields, c) ← parseFieldList fuel c
      return (Object.sortFields ⟨fields, false⟩, c)

def parseFieldList : Nat → Cursor → Except Str (List (Field (Ty N)) × Cursor)
  | 0, _ => .error outOfFuel
  | fuel + 1, c => do
    let (f, c) ← parseField fuel c
    match c.eat ',' with
    | (false, c) => return ([f], c)
    | (true, c) => do
      let (_, c) := c.eat ' '
      let (fs, c) ← parseFieldList fuel c
      return (f :: fs, c)

def parseField : Nat → Cursor → Except Str (Field (Ty N) × Cursor)
  | 0, _ => .error outOfFuel
  | fuel + 1, c => do
    let (name, c) ← fieldKey c
    if name.isEmpty then .error ("expected a field name at column " ++ c.column)
    else do
      let (optional, c) := c.eat '?'
      let c ← c.expect ':'
      let (t, c) ← parseTy fuel c
      return (⟨name, !optional, t⟩, c)

end

/-! ## Lines -/

/-- The description of a tool: the rest of its line. -/
def toolDescription (c : Cursor) : Except Str (Option Str) :=
  if " - ".toList.isPrefixOf c.rest then some <$> unescape (c.rest.drop 3)
  else if c.rest.isEmpty then .ok none
  else .error ("unexpected text `" ++ c.rest ++ "`")

/-- What a line says: the name of a tool, its arguments and its description. -/
def toolParts (line : Str) : Except Str (Str × Object (Ty N) × Option Str) := do
  let (name, c) := Cursor.takeWhile ⟨0, line⟩ isToolNameByte
  if name.isEmpty then .error "missing tool name"
  else do
    let c ← c.expect '('
    let (obj, c) ← parseFields (4 * line.length + 4) ')' c
    let c ← c.expect ')'
    let (closed, c) := c.eat '!'
    let description ← toolDescription c
    return (name, { obj with closed }, description)

def toolLine (line : Str) : Except Str (ToolDef N) := do
  let (name, obj, description) ← toolParts line
  return ⟨name, description, some (Ty.toJson (Ty.plain (.object obj)))⟩

/-- The tools of some lines, where `line` is the number of the first. -/
def toolLines (line : Nat) : List Str → Except CompactError (List (ToolDef N))
  | [] => .ok []
  | s :: lines =>
    if s.all Str.isWhitespace then toolLines (line + 1) lines
    else
      match toolLine s with
      | .error reason => .error (.malformedDefinitions line reason)
      | .ok tool => (tool :: ·) <$> toolLines (line + 1) lines

/-- Parse compact definitions (one tool per line) back into tool definitions. -/
def definitions (text : Str) : Except CompactError (List (ToolDef N)) :=
  toolLines 1 (Str.lines text)

/-- Rebuild tool definitions from compact definitions. -/
def decodeTools (compact : Str) : Except CompactError (List (ToolDef N)) := definitions compact

end Nasiko.ToolCompact
