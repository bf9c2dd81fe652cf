import Nasiko.Json.Basic

/-!
# Bytes as text

`fromUtf8` is `str::from_utf8`, and `fromUtf8Lossy` is `String::from_utf8_lossy`: a piece that does
not belong to a character becomes U+FFFD, and such a piece ends before the first byte that cannot
follow it. `Str.sliceTo` is a slice of a text up to a byte, at which a character has to end.
-/

namespace Nasiko.Utf8

/-- How many bytes a character has that starts with this one; 0 if there is none. -/
def width (b : UInt8) : Nat :=
  if b < 0x80 then 1
  else if 0xC2 ≤ b ∧ b ≤ 0xDF then 2
  else if 0xE0 ≤ b ∧ b ≤ 0xEF then 3
  else if 0xF0 ≤ b ∧ b ≤ 0xF4 then 4
  else 0

def isTail (b : UInt8) : Bool := 0x80 ≤ b && b ≤ 0xBF

/-- The bytes that may come second: no character is written longer than it has to be, none is a
surrogate, and none is above U+10FFFF. -/
def isSecond (first b : UInt8) : Bool :=
  if first = 0xE0 then 0xA0 ≤ b && b ≤ 0xBF
  else if first = 0xED then 0x80 ≤ b && b ≤ 0x9F
  else if first = 0xF0 then 0x90 ≤ b && b ≤ 0xBF
  else if first = 0xF4 then 0x80 ≤ b && b ≤ 0x8F
  else isTail b

/-- The code point after `n` more bytes, unless one of them does not belong to it. -/
def readTails : Nat → Nat → List UInt8 → Option Nat × List UInt8
  | 0, code, s => (some code, s)
  | _ + 1, _, [] => (none, [])
  | n + 1, code, b :: s =>
    if isTail b then readTails n (code * 64 + b.toNat % 64) s else (none, b :: s)

/-- The character that starts with `b`, if it is one, and the rest. -/
def readChar (b : UInt8) (s : List UInt8) : Option Char × List UInt8 :=
  if width b = 0 then (none, s)
  else if width b = 1 then (some (Char.ofNat b.toNat), s)
  else
    match s with
    | [] => (none, [])
    | c :: rest =>
      if isSecond b c then
        let code := (b.toNat % 2 ^ (7 - width b)) * 64 + c.toNat % 64
        let tail := readTails (width b - 2) code rest
        (tail.1.map Char.ofNat, tail.2)
      else (none, c :: rest)

theorem readTails_length_le (n code : Nat) (s : List UInt8) :
    (readTails n code s).2.length ≤ s.length := by
  induction n generalizing code s with
  | zero => exact Nat.le_refl _
  | succ n ih =>
    cases s with
    | nil => exact Nat.le_refl _
    | cons b s =>
      rw [readTails]
      split
      · exact Nat.le_succ_of_le (ih _ s)
      · exact Nat.le_refl _

theorem readChar_length_le {b : UInt8} {s : List UInt8} : (readChar b s).2.length ≤ s.length := by
  unfold readChar
  split
  · exact Nat.le_refl _
  · split
    · exact Nat.le_refl _
    · cases s with
      | nil => exact Nat.le_refl _
      | cons c rest =>
        dsimp only
        split
        · exact Nat.le_succ_of_le (readTails_length_le _ _ rest)
        · exact Nat.le_refl _

/-- `str::from_utf8` -/
def fromUtf8 : List UInt8 → Option Str
  | [] => some []
  | b :: s =>
    match (readChar b s).1 with
    | none => none
    | some c => (fromUtf8 (readChar b s).2).map (c :: ·)
termination_by s => s.length
decreasing_by exact Nat.lt_succ_of_le readChar_length_le

/-- `String::from_utf8_lossy` -/
def fromUtf8Lossy : List UInt8 → Str
  | [] => []
  | b :: s => (readChar b s).1.getD (Char.ofNat 0xFFFD) :: fromUtf8Lossy (readChar b s).2
termination_by s => s.length
decreasing_by exact Nat.lt_succ_of_le readChar_length_le

end Nasiko.Utf8

namespace Nasiko.Str

/-- The slice up to byte `n`. -/
def sliceTo : Str → Nat → Option Str
  | _, 0 => some []
  | [], _ + 1 => none
  | c :: s, n + 1 =>
    if c.utf8Size ≤ n + 1 then (sliceTo s (n + 1 - c.utf8Size)).map (c :: ·) else none

/-- A character ends at byte `n`. -/
def EndsAt (s : Str) (n : Nat) : Prop := ∃ a b, s = a ++ b ∧ utf8Len a = n

theorem isSome_sliceTo_iff {s : Str} {n : Nat} : (sliceTo s n).isSome ↔ EndsAt s n := by
  induction s generalizing n with
  | nil =>
    cases n with
    | zero => exact iff_of_true rfl ⟨[], [], rfl, rfl⟩
    | succ n =>
      refine iff_of_false (by simp [sliceTo]) ?_
      rintro ⟨a, b, hab, hn⟩
      rw [(List.append_eq_nil_iff.1 hab.symm).1] at hn
      cases hn
  | cons c s ih =>
    cases n with
    | zero => exact iff_of_true rfl ⟨[], c :: s, rfl, rfl⟩
    | succ n =>
      have hcons : EndsAt (c :: s) (n + 1) ↔
          c.utf8Size ≤ n + 1 ∧ EndsAt s (n + 1 - c.utf8Size) := by
        constructor
        · rintro ⟨a, b, hab, ha⟩
          cases a with
          | nil => cases ha
          | cons d a =>
            cases hab
            rw [utf8Len_cons] at ha
            exact ⟨by omega, a, b, rfl, by omega⟩
        · rintro ⟨hle, a, b, rfl, ha⟩
          exact ⟨c :: a, b, rfl, by rw [utf8Len_cons]; omega⟩
      rw [sliceTo, hcons]
      split_ifs with hle
      · rw [Option.isSome_map, ih, and_iff_right hle]
      · exact iff_of_false (by simp) fun h => hle h.1

end Nasiko.Str
