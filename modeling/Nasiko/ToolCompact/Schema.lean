import Nasiko.Json.Serde

/-!
# The supported subset of JSON Schema

`Ty` is one schema node. `Ty.fromJson` reads a node from a JSON schema and rejects everything the
subset does not have, with a reason; `Ty.toJson` writes a node back.

`fromJson` counts down from `maxDepth + 1` where the source counts its depth up to `MAX_DEPTH`.
-/

namespace Nasiko.ToolCompact

open SerdeJson Entries

def isAsciiAlphabetic (c : Char) : Bool := ('a' ≤ c && c ≤ 'z') || ('A' ≤ c && c ≤ 'Z')

def isAsciiAlphanumeric (c : Char) : Bool := isAsciiAlphabetic c || ('0' ≤ c && c ≤ '9')

/-- Deepest schema nesting accepted. -/
def maxDepth : Nat := 32

def ignoredKeywords : List Str :=
  ["title", "$schema", "$comment", "examples"]

/-! ## Schema nodes -/

/-- String formats the grammar names directly. -/
inductive Format where
  | dateTime
  | date
  | time
  | email
  | uri
  | uuid
  deriving DecidableEq

namespace Format

def all : List Format := [.dateTime, .date, .time, .email, .uri, .uuid]

/-- The JSON Schema `format` value. -/
def schemaName : Format → Str
  | .dateTime => "date-time"
  | .date => "date"
  | .time => "time"
  | .email => "email"
  | .uri => "uri"
  | .uuid => "uuid"

/-- The compact type keyword. -/
def keyword : Format → Str
  | .dateTime => "datetime"
  | .date => "date"
  | .time => "time"
  | .email => "email"
  | .uri => "uri"
  | .uuid => "uuid"

def fromSchemaName (name : Str) : Option Format := all.find? fun f => f.schemaName == name

theorem fromSchemaName_schemaName (f : Format) : fromSchemaName f.schemaName = some f := by
  cases f <;> decide

end Format

/-- Inclusive numeric bounds (`minimum` / `maximum`). -/
structure Range (N : Type) where
  min : Option N
  max : Option N

def Range.isEmpty {N : Type} (r : Range N) : Bool := r.min.isNone && r.max.isNone

/-- A property of an object, over schema nodes of type `T`. -/
structure Field (T : Type) where
  name : Str
  required : Bool
  ty : T

structure Object (T : Type) where
  fields : List (Field T)
  /-- `additionalProperties: false` -/
  closed : Bool

inductive Kind (N T : Type) where
  | str (format : Option Format)
  | int (range : Range N)
  | num (range : Range N)
  | bool
  /-- No `type`: any JSON value. -/
  | any
  /-- `{"type":"object"}` with no `properties`: any object. -/
  | anyObject
  /-- `enum` (or `const`) of scalar values. -/
  | enum (values : List (Json N))
  | array (items : T)
  | object (obj : Object T)

/-- One schema node. -/
structure Ty (N : Type) where
  kind : Kind N (Ty N)
  /-- `type: [T, "null"]` -/
  nullable : Bool
  description : Option Str
  default : Option (Json N)

namespace Object

variable {T : Type}

def field (o : Object T) (name : Str) : Option (Field T) := o.fields.find? fun f => f.name == name

/-- Required fields first, each group by name. -/
def before (a b : Field T) : Bool :=
  if a.required = b.required then a.name ≤ b.name else a.required

def sortFields (o : Object T) : Object T :=
  { o with fields := o.fields.insertionSort fun a b => before a b = true }

end Object

variable {N F : Type} [SerdeJson N F]

/-- `values.contains(v)` -/
def contains (values : List (Json N)) (v : Json N) : Bool := values.any fun x => x == v

namespace Ty

/-- Whether `null` is a valid value: of an enum, the members alone decide. -/
def allowsNull (t : Ty N) : Bool :=
  match t.kind with
  | .enum values => contains values .null
  | _ => t.nullable

def plain (kind : Kind N (Ty N)) : Ty N := ⟨kind, false, none, none⟩

end Ty

/-- A required field the model may leave out: `null` is a valid value and the schema names no
other default for it. -/
def Field.omittable (f : Field (Ty N)) : Bool :=
  f.required && f.ty.allowsNull &&
    match f.ty.default with
    | none => true
    | some d => d.isNull

/-! ## Reading a schema -/

/-- `type`: a name, or a name and `null`. -/
def parseType : Option (Json N) → Except Str (Option Str × Bool)
  | none => .ok (none, false)
  | some (.string t) =>
    if t = "null" then .error "type `null` alone is not supported"
    else .ok (some t, false)
  | some (.array types) =>
    let names := types.filterMap Json.asStr
    match names with
    | [a, b] =>
      if b = "null" ∧ names.length = types.length ∧ a ≠ "null" then
        .ok (some a, true)
      else if a = "null" ∧ names.length = types.length ∧ b ≠ "null" then
        .ok (some b, true)
      else .error "type unions other than [T, \"null\"] are not supported"
    | _ => .error "type unions other than [T, \"null\"] are not supported"
  | some _ => .error "type is neither a string nor an array"

variable (map : Entries (Json N))

/-- The members of `enum`, or the one of `const`. -/
def enumValues : Except Str (Option (List (Json N))) :=
  let check (values : List (Json N)) : Except Str (Option (List (Json N))) :=
    if values.isEmpty then .error "enum is empty"
    else if values.any fun v => v.isArray || v.isObject then
      .error "enum values must be scalars"
    else .ok (some values)
  match map.get? "enum", map.get? "const" with
  | some _, some _ => .error "enum and const together are not supported"
  | some (.array values), none => check values
  | some _, none => .error "enum is not an array"
  | none, some v => check [v]
  | none, none => .ok none

def valueHasType (v : Json N) (t : Str) : Bool :=
  if t = "string" then v.isString
  else if t = "integer" then
    match v with
    | .number n => isI64 n || isU64 n
    | _ => false
  else if t = "number" then v.isNumeric
  else if t = "boolean" then v.isBoolean
  else false

/-- The JSON Schema type of a scalar that is not null. -/
def scalarType : Json N → Option Str
  | .string _ => some "string"
  | .bool _ => some "boolean"
  | .number n => some (if isI64 n || isU64 n then "integer" else "number")
  | _ => none

/-- The JSON Schema type shared by every non-null enum value, if any. -/
def commonScalarType (values : List (Json N)) : Option Str :=
  match values.filter fun v => !v.isNull with
  | [] => none
  | v :: vs =>
    match scalarType v with
    | none => none
    | some t => if vs.all fun w => scalarType w == some t then some t else none

def stringFormat : Except Str (Option Format) :=
  match map.get? "format" with
  | none => .ok none
  | some (.string name) =>
    match Format.fromSchemaName name with
    | some f => .ok (some f)
    | none => .error ("string format `" ++ name ++ "` is not supported")
  | some _ => .error "format is not a string"

def bound (key : Str) : Except Str (Option N) :=
  match map.get? key with
  | none => .ok none
  | some (.number n) => .ok (some n)
  | some _ => .error (key ++ " is not a number")

def range : Except Str (Range N) := do
  let min ← bound map "minimum"
  let max ← bound map "maximum"
  return ⟨min, max⟩

section

variable (fromJson : Json N → Except Str (Ty N)) (map : Entries (Json N))

/-- The schema under `items`. -/
def itemsFromJson : Except Str (Ty N) :=
  match map.get? "items" with
  | none => .ok (Ty.plain .any)
  | some (.object m) => fromJson (.object m)
  | some _ => .error "tuple-style items are not supported"

def arrayItems : Except Str (Kind N (Ty N)) :=
  Kind.array <$> itemsFromJson fromJson map

/-- The names `required` lists. -/
def requiredNames : Except Str (List Str) :=
  let rec names : List (Json N) → Except Str (List Str)
    | [] => .ok []
    | .string s :: vs => (s :: ·) <$> names vs
    | _ :: _ => .error "required lists a non-string"
  match map.get? "required" with
  | none => .ok []
  | some (.array vs) => names vs
  | some _ => .error "required is not an array"

/-- `additionalProperties: false` closes the object. -/
def closedFlag : Except Str Bool :=
  match map.get? "additionalProperties" with
  | none => .ok false
  | some (.bool b) => .ok !b
  | some _ => .error "additionalProperties schemas are not supported"

/-- The fields of `properties`, in the order of the map. -/
def propertyFields (required : List Str) : Entries (Json N) → Except Str (List (Field (Ty N)))
  | [] => .ok []
  | (name, schema) :: props =>
    match fromJson schema with
    | .error e => .error (name ++ ": " ++ e)
    | .ok ty => (⟨name, required.contains name, ty⟩ :: ·) <$> propertyFields required props

def objectFields (required : List Str) (closed : Bool) (props : Entries (Json N)) :
    Except Str (Kind N (Ty N)) :=
  match required.find? fun r => !props.containsKey r with
  | some missing =>
    .error ("required field `" ++ missing ++ "` has no property schema")
  | none => do
    let fields ← propertyFields fromJson required props
    return .object (Object.sortFields ⟨fields, closed⟩)

def object : Except Str (Kind N (Ty N)) := do
  let closed ← closedFlag map
  let required ← requiredNames map
  match map.get? "properties" with
  | none =>
    if required.isEmpty && !closed then return .anyObject
    else objectFields fromJson required closed []
  | some (.object props) => objectFields fromJson required closed props
  | some _ => .error "properties is not an object"

/-- `{"type": "null"}` and nothing else. -/
def isNullSchema : Json N → Bool
  | .object o => o.length == 1 && (get? o "type").bind Json.asStr == some "null".toList
  | _ => false

/-- The branch of an `anyOf` that is not `{"type": "null"}`. -/
def anyOfBranch : Except Str (Json N) :=
  match (map.get? "anyOf").bind Json.asArray with
  | some [a, b] =>
    if isNullSchema b && !isNullSchema a then .ok a
    else if isNullSchema a && !isNullSchema b then .ok b
    else .error "anyOf other than [T, \x7b\"type\":\"null\"\x7d] is not supported"
  | _ => .error "anyOf other than [T, \x7b\"type\":\"null\"\x7d] is not supported"

/-- The type made nullable; an enum gains a `null` member instead. -/
def admitNull (t : Ty N) : Ty N :=
  match t.kind with
  | .enum values =>
    if contains values .null then t else { t with kind := .enum (values ++ [.null]) }
  | _ => { t with nullable := true }

/-- The description of the wrapper or of the branch, not of both. -/
def wrapDescription (t : Ty N) : Except Str (Ty N) :=
  match map.get? "description", t.description with
  | none, _ => .ok t
  | some (.string d), none => .ok { t with description := some d }
  | _, _ => .error "description on both anyOf and its branch is not supported"

/-- The default of the wrapper or of the branch, not of both. -/
def wrapDefault (t : Ty N) : Except Str (Ty N) :=
  match map.get? "default" with
  | none => .ok t
  | some d =>
    if t.default.isSome then .error "default on both anyOf and its branch is not supported"
    else .ok { t with default := some d }

/-- `{"anyOf": [T, {"type": "null"}]}` -/
def optionalAnyOf : Except Str (Ty N) :=
  let wrapperKeys := ["anyOf".toList, "description".toList, "default".toList]
  match map.find? fun e => !wrapperKeys.contains e.1 && !ignoredKeywords.contains e.1 with
  | some e => .error ("keyword `".toList ++ e.1 ++ "` next to anyOf is not supported".toList)
  | none => do
    let inner ← anyOfBranch map
    let t ← fromJson inner
    if t.nullable then .error "anyOf around an already nullable type is not supported".toList
    else do
      let t ← wrapDescription map (admitNull t)
      wrapDefault map t

/-- The kind of a node and the keywords that it uses. -/
def kindFromJson (typeName : Option Str) (nullable : Bool) :
    Except Str (Kind N (Ty N) × List Str) := do
  match ← enumValues map with
  | some values =>
    match typeName with
    | some t =>
      if values.all fun v => valueHasType v t || (nullable && v.isNull) then
        return (.enum values, ["enum", "const", "type"])
      else .error ("enum values do not all match type `" ++ t ++ "`")
    | none => return (.enum values, ["enum", "const", "type"])
  | none =>
    match typeName with
    | none => return (.any, [])
    | some t =>
      if t = "string" then
        return (.str (← stringFormat map), ["type", "format"])
      else if t = "integer" then
        return (.int (← range map), ["type", "minimum", "maximum"])
      else if t = "number" then
        return (.num (← range map), ["type", "minimum", "maximum"])
      else if t = "boolean" then return (.bool, ["type"])
      else if t = "array" then
        return (← arrayItems fromJson map, ["type", "items"])
      else if t = "object" then
        return (← object fromJson map,
          ["type", "properties", "required", "additionalProperties"])
      else .error ("type `" ++ t ++ "` is not supported")

/-- The `description` of a node. -/
def descriptionOf : Except Str (Option Str) :=
  match map.get? "description" with
  | none => .ok none
  | some (.string s) => .ok (some s)
  | some _ => .error "description is not a string"

/-- A node without `anyOf`. -/
def nodeFromJson : Except Str (Ty N) := do
  let description ← descriptionOf map
  let default := map.get? "default"
  let (typeName, nullable) ← parseType (map.get? "type")
  let (kind, used) ← kindFromJson fromJson map typeName nullable
  let known (key : Str) : Bool := used.contains key || key == "description" ||
    key == "default" || ignoredKeywords.contains key
  match map.find? fun e => !known e.1 with
  | some e => .error ("keyword `" ++ e.1 ++ "` is not supported here")
  | none => return ⟨kind, nullable, description, default⟩

end

/-- Read a schema node that may nest this much deeper. -/
def Ty.fromJson : Nat → Json N → Except Str (Ty N)
  | 0, _ => .error "nesting deeper than 32".toList
  | depth + 1, .object map =>
    if containsKey map "anyOf".toList then optionalAnyOf (fromJson depth) map
    else nodeFromJson (fromJson depth) map
  | _ + 1, _ => .error "schema node is not an object".toList

/-- Read a tool's top-level `parameters` schema, which must describe an object. -/
def Ty.parametersFromJson (schema : Json N) : Except Str (Object (Ty N)) := do
  let t ← Ty.fromJson (maxDepth + 1) schema
  if t.nullable || t.default.isSome then
    .error "top-level parameters must be a plain object"
  else
    match t.kind with
    | .object obj => return obj
    | .anyObject => return ⟨[], false⟩
    | _ => .error "top-level parameters must have type \"object\""

/-! ## Writing a schema -/

/-- `out.insert(key, v)` if there is a `v`. -/
def insertSome (key : Str) (v : Option (Json N)) (out : Entries (Json N)) : Entries (Json N) :=
  match v with
  | none => out
  | some v => insert key v out

def insertRange (out : Entries (Json N)) (r : Range N) : Entries (Json N) :=
  insertSome "maximum" (r.max.map .number)
    (insertSome "minimum" (r.min.map .number) out)

/-- The value of `type`. -/
def typeJson (name : Str) (nullable : Bool) : Json N :=
  if nullable then .array [.string name, .string "null"] else .string name

/-- The `required` list of an object, if any field is required. -/
def requiredJson (fields : List (Field (Ty N))) : Option (Json N) :=
  match fields.filter Field.required with
  | [] => none
  | fs => some (.array (fs.map fun f => .string f.name))

/-- A node that says nothing that would have to be written under `items`. -/
def Ty.isBare (t : Ty N) : Bool :=
  match t.kind with
  | .any => t.description.isNone && !t.nullable
  | _ => false

mutual

/-- Rebuild a JSON Schema for a node. -/
def Ty.toJson : Ty N → Json N
  | ⟨kind, nullable, description, default⟩ =>
    let (out, baseType) := kindToJson kind
    .object (insertSome "default" default
      (insertSome "description" (description.map .string)
        (insertSome "type" (baseType.map fun t => typeJson t nullable) out)))
termination_by structural t => t

/-- What the kind of a node adds, and its `type`. -/
def kindToJson : Kind N (Ty N) → Entries (Json N) × Option Str
  | .str format =>
    (insertSome "format" (format.map fun f => .string f.schemaName) [],
      some "string")
  | .int r => (insertRange [] r, some "integer")
  | .num r => (insertRange [] r, some "number")
  | .bool => ([], some "boolean")
  | .any => ([], none)
  | .anyObject => ([], some "object")
  | .enum values => ([("enum", .array values)], commonScalarType values)
  | .array items =>
    (if items.isBare then [] else [("items", Ty.toJson items)], some "array")
  | .object obj => (objectToJson obj, some "object")
termination_by structural k => k

def objectToJson : Object (Ty N) → Entries (Json N)
  | ⟨fields, closed⟩ =>
    let out := insert "properties" (.object (ofList (fieldsToJson fields)))
      []
    let out := insertSome "required" (requiredJson fields) out
    if closed then insert "additionalProperties" (.bool false) out else out
termination_by structural o => o

/-- The entries of `properties`. -/
def fieldsToJson : List (Field (Ty N)) → List (Str × Json N)
  | [] => []
  | ⟨name, _, ty⟩ :: fields => (name, Ty.toJson ty) :: fieldsToJson fields
termination_by structural fs => fs

end

end Nasiko.ToolCompact
