import Nasiko.Result
import Nasiko.ToolCompact.Schema

/-!
# Validation of arguments

`Validate.object` checks decoded arguments against a schema and reports the first violation, as
the path of the value and the reason. `fillOmittedNullable` is the only change a call undergoes:
it adds `null` for every field that `Field.omittable` allows to be left out.

The date and time tests of the source run over bytes. They test every byte of a text they accept
and accept only ASCII, so here they run over characters.
-/

namespace Nasiko.ToolCompact

open SerdeJson Json

namespace Validate

/-! ## Formats -/

variable (b : Str)

/-- The number that a non-empty run of digits denotes. -/
def digits : Option Nat :=
  if b.isEmpty || !b.all isDigit then none
  else some (b.foldl (fun acc d => acc * 10 + (d.toNat - '0'.toNat)) 0)

def monthDays (y m : Nat) : Option Nat :=
  let leap : Bool := (y % 4 == 0 && y % 100 != 0) || y % 400 == 0
  match m with
  | 1 | 3 | 5 | 7 | 8 | 10 | 12 => some 31
  | 4 | 6 | 9 | 11 => some 30
  | 2 => some (if leap then 29 else 28)
  | _ => none

/-- `YYYY-MM-DD`, with real month lengths. -/
def isDate : Bool :=
  if b.length != 10 || b[4]? != some '-' || b[7]? != some '-' then false
  else
    match digits (b.take 4), digits ((b.drop 5).take 2), digits (b.drop 8) with
    | some y, some m, some d =>
      match monthDays y m with
      | some days => 1 ≤ d && d ≤ days
      | none => false
    | _, _, _ => false

/-- `Z`, or an offset `±HH:MM`. -/
def isOffset : Str → Bool
  | ['Z'] => true
  | ['z'] => true
  | c :: oh =>
    if (c == '+' || c == '-') && oh.length == 5 && oh[2]? == some ':' then
      match digits (oh.take 2), digits (oh.drop 3) with
      | some h, some m => h ≤ 23 && m ≤ 59
      | _, _ => false
    else false
  | [] => false

/-- `HH:MM:SS[.frac](Z|±HH:MM)` -/
def isTime : Bool :=
  if b.length < 9 || b[2]? != some ':' || b[5]? != some ':' then false
  else
    match digits (b.take 2), digits ((b.drop 3).take 2), digits ((b.drop 6).take 2) with
    | some h, some mi, some s =>
      if h > 23 || mi > 59 || s > 60 then false
      else
        match b.drop 8 with
        | '.' :: frac =>
          if (frac.takeWhile isDigit).isEmpty then false
          else isOffset (frac.dropWhile isDigit)
        | rest => isOffset rest
    | _, _, _ => false

/-- A date, `T`, and a time. -/
def isDateTime : Bool :=
  11 < b.length && (b[10]? == some 'T' || b[10]? == some 't') && isDate (b.take 10) &&
    isTime (b.drop 11)

def isUuid : Bool :=
  b.length == 36 && b.zipIdx.all fun (c, i) =>
    if i == 8 || i == 13 || i == 18 || i == 23 then c == '-' else (hexVal c).isSome

/-- `email` and `uri` are hints only. -/
def formatOk (f : Format) (s : Str) : Bool :=
  match f with
  | .dateTime => isDateTime s
  | .date => isDate s
  | .time => isTime s
  | .uuid => isUuid s
  | .email => true
  | .uri => true

/-! ## Numbers -/

variable {N F : Type} [SerdeJson N F]

/-- Integers include floats with no fractional part. -/
def isInteger (n : N) : Bool :=
  isI64 n || isU64 n ||
    match asF64 n with
    | some f => isFinite N f && fractIsZero N f
    | none => false

def checkRange (n : N) (r : Range N) : Except Str Unit :=
  let value := (asF64 n).getD (nan N)
  let belowMin : Option F := (r.min.bind asF64).filter fun min => isNan N value || ltF64 N value min
  let aboveMax : Option F := (r.max.bind asF64).filter fun max => isNan N value || ltF64 N max value
  match belowMin, aboveMax with
  | some min, _ => .error (numText n ++ " is below the minimum " ++ f64Text N min)
  | none, some max => .error (numText n ++ " is above the maximum " ++ f64Text N max)
  | none, none => .ok ()

/-! ## Values -/

/-- A violation: where and why. -/
abbrev Violation := Str × Str

variable (args : Entries (Json N)) (obj : Object (Ty N))

/-- A required field that may not be omitted has to be there. -/
def checkRequired (path : Str) : Except Violation Unit :=
  match obj.fields.find? fun f => f.required && !f.omittable && !args.containsKey f.name with
  | some f => .error (path, "missing required field `" ++ f.name ++ "`")
  | none => .ok ()

/-- The checks that look at one value only. -/
def scalar (v : Json N) (kind : Kind N (Ty N)) (path : Str) : Except Violation Unit :=
  let fail (reason : Str) : Except Violation Unit := .error (path, reason)
  match kind, v with
  | .str (some f), .string s =>
    if formatOk f s then .ok () else fail ("not a valid " ++ f.schemaName)
  | .str none, .string _ => .ok ()
  | .str _, _ => fail "expected a string"
  | .int r, .number n =>
    if isInteger n then
      match checkRange n r with
      | .ok _ => .ok ()
      | .error reason => fail reason
    else fail "expected an integer"
  | .int _, _ => fail "expected an integer"
  | .num r, .number n =>
    match checkRange n r with
    | .ok _ => .ok ()
    | .error reason => fail reason
  | .num _, _ => fail "expected a number"
  | .bool, .bool _ => .ok ()
  | .bool, _ => fail "expected a boolean"
  | .enum values, v =>
    if contains values v then .ok ()
    else fail (toText v ++ " is not one of the allowed values")
  | .anyObject, .object _ => .ok ()
  | .anyObject, _ => fail "expected an object"
  | .array _, _ => fail "expected an array"
  | .object _, _ => fail "expected an object"
  | .any, _ => .ok ()

/-- The members of an enum alone decide whether `null` is valid. -/
def passesAsNull (v : Json N) (t : Ty N) : Bool :=
  v.isNull && t.nullable &&
    match t.kind with
    | .enum _ => false
    | _ => true

mutual

def ty (v : Json N) (t : Ty N) (path : Str) : Except Violation Unit :=
  if passesAsNull v t then .ok ()
  else
    match v with
    | .array list =>
      match t.kind with
      | .array items => tyItems list items path 0
      | kind => scalar (.array list) kind path
    | .object map =>
      match t.kind with
      | .object obj => do
        checkRequired map obj path
        tyEntries map obj path
      | kind => scalar (.object map) kind path
    | .null => scalar .null t.kind path
    | .bool b => scalar (.bool b) t.kind path
    | .number n => scalar (.number n) t.kind path
    | .string s => scalar (.string s) t.kind path
termination_by structural v

/-- The items of an array, from the index `i` on. -/
def tyItems (list : List (Json N)) (items : Ty N) (path : Str) (i : Nat) :
    Except Violation Unit :=
  match list with
  | [] => .ok ()
  | v :: list => do
    ty v items (path ++ "[" ++ (toString i).toList ++ "]")
    tyItems list items path (i + 1)
termination_by structural list

def tyEntries (args : List (Str × Json N)) (obj : Object (Ty N)) (path : Str) :
    Except Violation Unit :=
  match args with
  | [] => .ok ()
  | (key, value) :: args => do
    let child := path ++ "." ++ key
    match obj.field key with
    | some f => ty value f.ty child
    | none => if obj.closed then .error (child, "unexpected field") else .ok ()
    tyEntries args obj path
termination_by structural args

end

/-- `Err((path, reason))` on the first violation. -/
def object (path : Str) : Except Violation Unit := do
  checkRequired args obj path
  tyEntries args obj path

/-! ## The nulls of strict-mode schemas -/

mutual

def fillTy : Ty N → Json N → Json N
  | ⟨kind, _, _, _⟩, v => fillKind kind v
termination_by structural t => t

def fillKind : Kind N (Ty N) → Json N → Json N
  | .object obj, .object map => .object (fillObject obj map)
  | .array items, .array list => .array (list.map (fillTy items))
  | _, v => v
termination_by structural k => k

def fillObject : Object (Ty N) → Entries (Json N) → Entries (Json N)
  | ⟨fields, _⟩, args => fillFields fields args
termination_by structural o => o

def fillFields : List (Field (Ty N)) → Entries (Json N) → Entries (Json N)
  | [], args => args
  | ⟨name, required, t⟩ :: fields, args =>
    fillFields fields
      (match args.get? name with
        | some v => args.insert name (fillTy t v)
        | none => if (Field.mk name required t).omittable then args.insert name .null else args)
termination_by structural fs => fs

end

/-- Add `null` for every field the model omitted that the schema allows to be null. -/
def fillOmittedNullable : Entries (Json N) :=
  fillObject obj args

end Validate

end Nasiko.ToolCompact
