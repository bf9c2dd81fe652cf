import Nasiko.Text.Search
import Nasiko.Json.Brackets
import Nasiko.ToolCompact.Validate

/-!
# Model output to tool calls

The decoder of the text a model writes: prose with calls `<<call NAME {JSON}>>` in it.
`StreamDecoder.push` adds a chunk of text and returns the events it completes,
`StreamDecoder.finish` ends the stream, and `decode` is both on the whole text.

A position in the buffer is what is left of the buffer from there on, so a scan that ends at
`len` returns the text behind it. Every byte the scanner compares with is ASCII, so the buffer is
a list of characters; only the size limit counts bytes.
-/

namespace Nasiko.ToolCompact

open SerdeJson

/-! ## Tools, calls and errors -/

variable (N : Type)

/-- A function tool as a client declares it. -/
structure ToolDef where
  name : Str
  description : Option Str
  /-- JSON Schema of the arguments object; `none` means that the tool takes no arguments. -/
  parameters : Option (Json N)
  deriving DecidableEq

/-- A decoded, schema-valid tool call. -/
structure ToolCall where
  name : Str
  arguments : Entries (Json N)
  deriving DecidableEq

inductive CompactError where
  | unsupported (tool reason : Str)
  | invalidTool (tool reason : Str)
  | unknownTool (name : Str)
  | invalidArguments (tool path reason : Str)
  | malformedCall (reason : Str)
  | malformedDefinitions (line : Nat) (reason : Str)
  deriving DecidableEq

def callOpen : Str := "<<call"

/-- Closing marker of a call. -/
def callClose : Str := ">>"

/-- Longest call the decoder buffers. -/
def maxCallBytes : Nat := 2 ^ 20

def malformed (reason : String) : CompactError := .malformedCall reason.toList

/-! ## Repeated keys -/

section

variable {N F : Type} [SerdeJson N F]

mutual

/-- The walk of `NoDuplicatesVisitor`: does it meet a key twice in one object? -/
def repeatsKey : Json N → Bool
  | .array vs => repeatsKeyItems vs
  | .object fs => repeatsKeyFields fs []
  | _ => false
termination_by structural v => v

def repeatsKeyItems : List (Json N) → Bool
  | [] => false
  | v :: vs => repeatsKey v || repeatsKeyItems vs
termination_by structural vs => vs

/-- `seen` holds the keys met so far. -/
def repeatsKeyFields : List (Str × Json N) → List Str → Bool
  | [], _ => false
  | (k, v) :: fs, seen => seen.contains k || repeatsKey v || repeatsKeyFields fs (k :: seen)
termination_by structural fs => fs

end

variable (N) in
/-- `true` if a text that is valid JSON has an object with a repeated key. -/
def hasDuplicateKeys (raw : Str) : Bool :=
  match (parse raw : Option (Json N)) with
  | none => true
  | some t => repeatsKey t

/-- The arguments object that a text holds. -/
def parseArgs (name raw : Str) : Except CompactError (Entries (Json N)) :=
  match (fromStr raw : Option (Json N)) with
  | some (.object map) =>
    if hasDuplicateKeys N raw then
      .error (.invalidArguments name "$" "an object repeats a key")
    else .ok map
  | _ =>
    .error (.invalidArguments name "$" "arguments are not a valid JSON object")

end

/-! ## Scanning one call -/

/-- `u8::is_ascii_whitespace` -/
def isAsciiWhitespace (c : Char) : Bool :=
  c == ' ' || c == '\t' || c == '\n' || c == '\x0c' || c == '\r'

def isNameByte (c : Char) : Bool := isAsciiAlphanumeric c || c == '_' || c == '-' || c == '.'

def skipWs (s : Str) : Str := s.dropWhile isAsciiWhitespace

/-- `some true` if `>>` starts here, `none` if the input may still become `>>`. -/
def closing (rest : Str) : Option Bool :=
  if rest.length < callClose.length then
    if rest.isPrefixOf callClose then none else some false
  else some (callClose.isPrefixOf rest)

/-- The bracket counter stops at the bracket that closes the first one. -/
def closesObject (b : Json.Nesting) (c : Char) : Bool :=
  !b.inString && (c == '}' || c == ']') && (b.step c).depth == 0

/-- Cut behind the JSON object that starts here, if it is closed. -/
def jsonObjectEnd (s : Str) : Option (Str × Str) :=
  Json.cutAfter closesObject (.outside 0) s

inductive Scan where
  /-- The call is not complete yet. -/
  | needMore
  /-- A complete call, and the text behind it. -/
  | done (name : Str) (args : Entries (Json N)) (rest : Str)

section

variable {N F : Type} [SerdeJson N F]

/-- The part of a call behind its arguments. -/
def scanClose (name : Str) (args : Entries (Json N)) (s : Str) (otherwise : String) :
    Except CompactError (Scan N) :=
  match closing s with
  | some true => .ok (.done name args (s.drop callClose.length))
  | some false => .error (malformed otherwise)
  | none => .ok .needMore

/-- The part of a call behind its name. -/
def scanArgs (name s : Str) : Except CompactError (Scan N) :=
  match s with
  | [] => .ok .needMore
  | c :: s =>
    if c = '>' then scanClose name [] (c :: s) "expected `\x7b` or `>>` after the tool name"
    else if c = '{' then
      match jsonObjectEnd (c :: s) with
      | none => .ok .needMore
      | some (raw, rest) => do
        let args ← parseArgs name raw
        scanClose name args (skipWs rest) "expected `>>` after the arguments"
    else .error (malformed "expected `\x7b` or `>>` after the tool name")

variable (checkName : Str → Except CompactError Unit)

/-- The part of a call from its name on. -/
def scanName (s : Str) : Except CompactError (Scan N) :=
  let name := s.takeWhile isNameByte
  match s.dropWhile isNameByte with
  | [] => .ok .needMore
  | rest =>
    if name.isEmpty then .error (malformed "missing tool name")
    else do
      checkName name
      scanArgs name (skipWs rest)

/-- Scan one call at the start of a buffer that begins with `callOpen`. -/
def scanCall (buf : Str) : Except CompactError (Scan N) :=
  match buf.drop callOpen.length with
  | [] => .ok .needMore
  | c :: s =>
    if isAsciiWhitespace c then scanName checkName (skipWs (c :: s))
    else .error (malformed "expected a space after `<<call`")

end

/-! ## The catalog -/

/-- Tool name to argument schema. -/
structure Catalog where
  tools : List (Str × Object (Ty N))

section

variable {N F : Type} [SerdeJson N F]

/-- The tool's argument object; a tool without `parameters` takes an empty, closed object. -/
def parameters (t : ToolDef N) : Except CompactError (Object (Ty N)) :=
  match t.parameters with
  | none => .ok ⟨[], true⟩
  | some schema =>
    match Ty.parametersFromJson schema with
    | .ok obj => .ok obj
    | .error reason => .error (.unsupported t.name reason)

namespace Catalog

/-- The loop of `new`, with the entries made so far. -/
def newFrom (out : List (Str × Object (Ty N))) :
    List (ToolDef N) → Except CompactError (Catalog N)
  | [] => .ok ⟨out⟩
  | t :: ts =>
    if out.any fun e => e.1 == t.name then
      .error (.invalidTool t.name "duplicate tool name")
    else do
      let obj ← parameters t
      newFrom (out ++ [(t.name, obj)]) ts

def new (tools : List (ToolDef N)) : Except CompactError (Catalog N) := newFrom [] tools

def get (c : Catalog N) (name : Str) : Option (Object (Ty N)) :=
  (c.tools.find? fun e => e.1 == name).map Prod.snd

def checkName (c : Catalog N) (name : Str) : Except CompactError Unit :=
  match c.get name with
  | some _ => .ok ()
  | none => .error (.unknownTool name)

def validate (c : Catalog N) (name : Str) (args : Entries (Json N)) :
    Except CompactError (ToolCall N) :=
  match c.get name with
  | none => .error (.unknownTool name)
  | some schema =>
    match Validate.object args schema "$" with
    | .error (path, reason) => .error (.invalidArguments name path reason)
    | .ok _ => .ok ⟨name, Validate.fillOmittedNullable args schema⟩

end Catalog

end

/-! ## The stream decoder -/

/-- One unit of decoder output. -/
inductive StreamEvent where
  | text (t : Str)
  | call (c : ToolCall N)

structure StreamDecoder where
  catalog : Catalog N
  buf : Str
  failed : Option CompactError

structure Decoded where
  text : Str
  calls : List (ToolCall N)
  deriving DecidableEq

/-- Length of the longest suffix of `buf` that is a proper prefix of `callOpen`. -/
def markerPrefixSuffix (buf : Str) : Nat := Text.holdback callOpen buf

variable {N F : Type} [SerdeJson N F]

def pushText (t : Str) : List (StreamEvent N) := if t.isEmpty then [] else [.text t]

/-- The loop of `drain_inner`: what it returns, and what it leaves in the buffer. Every round
takes a call off the buffer, so that `fuel` larger than the buffer is never used up. -/
def drainLoop (cat : Catalog N) (atEnd : Bool) :
    Nat → Str → Except CompactError (List (StreamEvent N)) × Str
  | 0, buf => (.ok [], buf)
  | fuel + 1, buf =>
    match Text.splitFirst callOpen buf with
    | none =>
      let keep := if atEnd then 0 else markerPrefixSuffix buf
      (.ok (pushText (buf.take (buf.length - keep))), buf.drop (buf.length - keep))
    | some (text, buf) =>
      match scanCall cat.checkName buf with
      | .error e => (.error e, buf)
      | .ok (.done name args rest) =>
        match cat.validate name args with
        | .error e => (.error e, buf)
        | .ok call =>
          let (result, left) := drainLoop cat atEnd fuel rest
          ((fun events => pushText text ++ .call call :: events) <$> result, left)
      | .ok .needMore =>
        if atEnd then (.error (malformed "output ended inside a call"), buf)
        else if maxCallBytes < Str.utf8Len buf then
          (.error (malformed "call exceeds the size limit"), buf)
        else (.ok (pushText text), buf)

def drainInner (cat : Catalog N) (atEnd : Bool) (buf : Str) :
    Except CompactError (List (StreamEvent N)) × Str :=
  drainLoop cat atEnd (buf.length + 1) buf

namespace StreamDecoder

def new (tools : List (ToolDef N)) : Except CompactError (StreamDecoder N) := do
  let catalog ← Catalog.new tools
  return ⟨catalog, [], none⟩

variable (d : StreamDecoder N)

def drain (atEnd : Bool) : Except CompactError (List (StreamEvent N)) × StreamDecoder N :=
  match drainInner d.catalog atEnd d.buf with
  | (.error e, buf) => (.error e, { d with buf, failed := some e })
  | (.ok events, buf) => (.ok events, { d with buf })

/-- Add a chunk; returns the events it completes. -/
def push (chunk : Str) : Except CompactError (List (StreamEvent N)) × StreamDecoder N :=
  match d.failed with
  | some e => (.error e, d)
  | none => drain { d with buf := d.buf ++ chunk } false

/-- End the stream. An unterminated call is an error. -/
def finish : Except CompactError (List (StreamEvent N)) :=
  match d.failed with
  | some e => .error e
  | none => (d.drain true).1

end StreamDecoder

def Decoded.ofEvents : List (StreamEvent N) → Decoded N
  | [] => ⟨[], []⟩
  | .text t :: events => ⟨t ++ (ofEvents events).text, (ofEvents events).calls⟩
  | .call c :: events => ⟨(ofEvents events).text, c :: (ofEvents events).calls⟩

def decode (text : Str) (tools : List (ToolDef N)) : Except CompactError (Decoded N) := do
  let decoder ← StreamDecoder.new tools
  let (pushed, decoder) := decoder.push text
  let events ← pushed
  let rest ← decoder.finish
  return .ofEvents (events ++ rest)

namespace StreamDecoder

/-- Push some chunks one after the other and finish, stopping at the first error. -/
def feed (d : StreamDecoder N) : List Str → Except CompactError (List (StreamEvent N))
  | [] => d.finish
  | chunk :: chunks =>
    match d.push chunk with
    | (.error e, _) => .error e
    | (.ok events, d) => (events ++ ·) <$> feed d chunks

end StreamDecoder

/-- What a caller gets that feeds a text to the stream decoder in chunks. -/
def decodeChunks (chunks : List Str) (tools : List (ToolDef N)) :
    Except CompactError (Decoded N) := do
  let decoder ← StreamDecoder.new tools
  Decoded.ofEvents <$> decoder.feed chunks

end Nasiko.ToolCompact
