import Nasiko.Json.Text

/-!
# serde_json

The code reads and writes JSON through `serde_json`, whose source is not part of the repository.
What the code calls of it is collected in the class `SerdeJson N F`, where `N` stands for
`serde_json::Number` and `F` for `f64`. A text is read into a tree that keeps the keys of every
object in the order of the text; `fromStr` is then `from_str::<Value>`, where a map is ordered and
keeps the last of two equal keys.

`SerdeJson.ReadsJson` and `SerdeJson.WritesJson` state what the library promises about texts. They
are hypotheses of the results that rely on them, never assumptions of the model.
-/

namespace Nasiko

namespace Json

variable {N : Type}

def isArray : Json N → Bool
  | .array _ => true
  | _ => false

def isObject : Json N → Bool
  | .object _ => true
  | _ => false

def isString : Json N → Bool
  | .string _ => true
  | _ => false

def isNumeric : Json N → Bool
  | .number _ => true
  | _ => false

def isBoolean : Json N → Bool
  | .bool _ => true
  | _ => false

def asStr : Json N → Option Str
  | .string s => some s
  | _ => none

def asArray : Json N → Option (List (Json N))
  | .array vs => some vs
  | _ => none

def asBool : Json N → Option Bool
  | .bool b => some b
  | _ => none

/-- `Value::get` with a key. -/
def get (v : Json N) (key : Str) : Option (Json N) :=
  match v with
  | .object fields => Entries.get? fields key
  | _ => none

/-- `value[key]`, which is `null` for a key that is not there. -/
def field (v : Json N) (key : Str) : Json N := (v.get key).getD .null

end Json

/-- `Number::as_i64` -/
class AsI64 (N : Type) where
  asI64 : N → Option Int

/-- `Value::as_i64` -/
def Json.asI64 {N : Type} [AsI64 N] : Json N → Option Int
  | .number n => AsI64.asI64 n
  | _ => none

/-- `serde_json` and the `f64` operations the code uses. -/
class SerdeJson (N : Type) (F : outParam Type) extends BEq N where
  /-- `Number::is_i64` -/
  isI64 : N → Bool
  /-- `Number::is_u64` -/
  isU64 : N → Bool
  /-- `Number::as_f64` -/
  asF64 : N → Option F
  /-- `f64::NAN` -/
  nan : F
  isNan : F → Bool
  isFinite : F → Bool
  /-- `f.fract() == 0.0` -/
  fractIsZero : F → Bool
  /-- `a < b` -/
  ltF64 : F → F → Bool
  /-- `f64` as `Display` writes it. -/
  f64Text : F → Str
  /-- The number a token of the grammar is read as; `none` when it is out of range. -/
  ofToken : Str → Option N
  /-- `Number` as `Display` writes it. -/
  numText : N → Str
  /-- The document a text holds, if it is accepted. -/
  parse : Str → Option (Json N)
  /-- The message of the error for a text that is not accepted. -/
  parseError : Str → Str
  /-- `Value::to_string` -/
  toText : Json N → Str

namespace SerdeJson

/-- Arrays and objects may nest less deep than this (`Deserializer::remaining_depth`). -/
def recursionLimit : Nat := 128

section

variable {N F : Type} [SerdeJson N F]

/-- `serde_json::from_str::<Value>` -/
def fromStr (s : Str) : Option (Json N) := (parse s).map Json.toValue

/-- `serde_json::from_str::<Number>` -/
def numberFromStr (s : Str) : Option N :=
  match (parse s : Option (Json N)) with
  | some (.number n) => some n
  | _ => none

end

/-- `serde_json` accepts the texts of JSON within its recursion limit. -/
structure ReadsJson (N : Type) {F : Type} [SerdeJson N F] : Prop where
  parse_iff : ∀ (s : Str) (v : Json N),
    parse s = some v ↔ Json.DocText ofToken v s ∧ v.depth < recursionLimit

/-- `serde_json` writes compact JSON. -/
structure WritesJson (N : Type) {F : Type} [SerdeJson N F] : Prop where
  toText_compact : ∀ v : Json N, Json.CompactText numText v (toText v)

attribute [class] ReadsJson WritesJson

end SerdeJson

end Nasiko
