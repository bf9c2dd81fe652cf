import Nasiko.Json.Basic

/-!
# What is compressed, and how hard

The shapes of a payload, the set of shapes that a policy compresses, and the policy. Every number
that a compressor uses comes from the level of the policy.
-/

namespace Nasiko.Compress

/-- The shapes that `detect` knows. -/
inductive ContentType where
  | json
  | log
  | diff
  | searchResults
  | code
  | markup
  | prose
  deriving DecidableEq

/-- The place of a shape in the list of all of them. -/
def ContentType.index : ContentType → Nat
  | json => 0
  | log => 1
  | diff => 2
  | searchResults => 3
  | code => 4
  | markup => 5
  | prose => 6

def ContentType.bit (kind : ContentType) : BitVec 8 := 1#8 <<< kind.index

/-- A set of shapes. -/
structure TypeMask where
  bits : BitVec 8
  deriving DecidableEq

namespace TypeMask

def all : TypeMask := ⟨0b01111111#8⟩

def default : TypeMask :=
  ⟨ContentType.json.bit ||| ContentType.log.bit ||| ContentType.diff.bit⟩

def contains (mask : TypeMask) (kind : ContentType) : Bool := mask.bits &&& kind.bit != 0#8

end TypeMask

inductive Level where
  | conservative
  | balanced
  | aggressive
  deriving DecidableEq

namespace Level

/-- The lines of a log that are kept at its head and at its tail. -/
def logHeadTail : Level → Nat × Nat
  | conservative => (10, 10)
  | balanced => (5, 5)
  | aggressive => (3, 3)

/-- The elements of an array that are kept at its head and at its tail. -/
def jsonArrayHeadTail : Level → Nat × Nat
  | conservative => (3, 1)
  | balanced => (2, 1)
  | aggressive => (1, 1)

/-- The lines that are kept on either side of a change. -/
def diffContext : Level → Nat
  | conservative => 3
  | balanced => 2
  | aggressive => 1

def searchHeadTail : Level → Nat × Nat
  | conservative => (10, 3)
  | balanced => (5, 2)
  | aggressive => (3, 1)

/-- The characters of the longest string that is left as it is. -/
def maxStringChars : Level → Nat
  | conservative => 2000
  | balanced => 800
  | aggressive => 300

end Level

structure Policy where
  enabled : Bool
  /-- Shorter payloads are left alone. -/
  minBytes : Nat
  /-- Longer payloads are cut in the middle without a look at their shape. -/
  maxInputBytes : Nat
  types : TypeMask
  level : Level
  /-- Compute what would be saved, and return the payload as it is. -/
  dryRun : Bool
  /-- The handle that stands in the marks, by which the original can be had again. -/
  recoveryRef : Option Str

def Policy.default : Policy :=
  { enabled := false
    minBytes := 2048
    maxInputBytes := 2 ^ 20
    types := TypeMask.default
    level := .conservative
    dryRun := false
    recoveryRef := none }

end Nasiko.Compress
