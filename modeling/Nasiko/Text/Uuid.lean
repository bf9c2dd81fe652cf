import Nasiko.Json.Basic

/-!
# Ids and their texts

`Uuid.toStr` writes 32 digits in five groups, and `Uuid.parseStr` reads them back
(`parseStr_toStr`), so that different ids have different texts. `parseStr` reads other spellings as
well: upper case letters, no hyphens, braces around the groups, and a URN.
-/

namespace Nasiko

abbrev Uuid := BitVec 128

namespace Uuid

open List Nat

variable (id : Uuid)

/-- `count` hexadecimal digits of an id, after the first `start` of them. -/
def digits (start count : Nat) : Str :=
  (List.range count).map fun k => Nat.digitChar (id.toNat / 16 ^ (31 - (start + k)) % 16)

/-- `Display`: the groups of digits with hyphens between them. -/
def toStr : Str :=
  digits id 0 8 ++ '-' :: digits id 8 4 ++ '-' :: digits id 12 4 ++ '-' :: digits id 16 4 ++
    '-' :: digits id 20 12

/-- A number with one more digit, of either case. -/
def ofDigit (n : Nat) (c : Char) : Option Nat :=
  if '0' ≤ c ∧ c ≤ '9' then some (16 * n + (c.toNat - '0'.toNat))
  else if 'a' ≤ c ∧ c ≤ 'f' then some (16 * n + (c.toNat - 'a'.toNat + 10))
  else if 'A' ≤ c ∧ c ≤ 'F' then some (16 * n + (c.toNat - 'A'.toNat + 10))
  else none

/-- The number that hexadecimal digits write. -/
def ofHex (s : Str) : Option Nat := s.foldlM ofDigit 0

/-- Digits in groups of 8, 4, 4, 4 and 12. -/
def parseHyphenated (s : Str) : Option Uuid :=
  if s.length = 36 ∧ s[8]? = some '-' ∧ s[13]? = some '-' ∧ s[18]? = some '-' ∧
    s[23]? = some '-' then
    (ofHex (s.take 8 ++ (s.drop 9).take 4 ++ (s.drop 14).take 4 ++ (s.drop 19).take 4 ++
      s.drop 24)).map (BitVec.ofNat 128)
  else none

/-- `Uuid::parse_str`: 32 digits, or groups of digits, also in braces or as a URN. -/
def parseStr (s : Str) : Option Uuid :=
  if s.length = 32 then (ofHex s).map (BitVec.ofNat 128)
  else if s.length = 36 then parseHyphenated s
  else if s.length = 38 ∧ s.head? = some '\x7b' ∧ s.getLast? = some '\x7d' then
    parseHyphenated ((s.drop 1).take 36)
  else if s.length = 45 ∧ s.take 9 = "urn:uuid:" then parseHyphenated (s.drop 9)
  else none

/-! ## Digits -/

/-- The first digits of a number with `m` digits. -/
theorem foldl_digits {x : Nat} {m n : Nat} (hn : n ≤ m) :
    (range n).foldl (fun acc k => 16 * acc + x / 16 ^ (m - 1 - k) % 16) 0 =
      x / 16 ^ (m - n) % 16 ^ n := by
  induction n with
  | zero => simp [mod_one]
  | succ n ih =>
    rw [range_succ, foldl_append, ih (by omega), foldl_cons, foldl_nil]
    have hdiv : x / 16 ^ (m - n) = x / 16 ^ (m - (n + 1)) / 16 := by
      rw [Nat.div_div_eq_div_mul, ← pow_succ, show m - (n + 1) + 1 = m - n by omega]
    rw [hdiv, show m - 1 - n = m - (n + 1) by omega, pow_succ, mul_comm (16 ^ n) 16,
      mod_mul, add_comm]

theorem ofDigit_digitChar {n : Nat} {d : Nat} (hd : d < 16) :
    ofDigit n (digitChar d) = some (16 * n + d) := by
  interval_cases d <;> rfl

theorem foldlM_digitChar (f : Nat → Nat) (hf : ∀ k, f k < 16) (ks : List Nat) (n : Nat) :
    (ks.map fun k => digitChar (f k)).foldlM ofDigit n =
      some (ks.foldl (fun acc k => 16 * acc + f k) n) := by
  induction ks generalizing n with
  | nil => rfl
  | cons k ks ih =>
    rw [map_cons, foldlM_cons, ofDigit_digitChar (hf k)]
    exact ih _

theorem digits_append (start m n : Nat) :
    digits id start m ++ digits id (start + m) n = digits id start (m + n) := by
  simp only [digits, range_add, map_append, map_map]
  congr 1
  refine map_congr_left fun k _ => ?_
  rw [Function.comp_apply, add_assoc]

theorem length_digits (start count : Nat) : (digits id start count).length = count := by
  simp [digits]

theorem isHexDigit_of_mem_digits {id : Uuid} {start count : Nat} {c : Char}
    (h : c ∈ digits id start count) : Str.isHexDigit c = true := by
  have hdig : ∀ d < 16, Str.isHexDigit (digitChar d) = true := by decide
  obtain ⟨k, -, rfl⟩ := mem_map.1 h
  exact hdig _ (mod_lt _ (by omega))

theorem ofHex_digits : ofHex (digits id 0 32) = some id.toNat := by
  rw [ofHex, digits, foldlM_digitChar _ fun k => mod_lt _ (by omega)]
  simp only [zero_add]
  rw [foldl_digits (Nat.le_refl 32), pow_zero, Nat.div_one,
    mod_eq_of_lt (show id.toNat < 16 ^ 32 from id.isLt)]

/-! ## Groups of digits -/

theorem parseHyphenated_toStr : parseHyphenated (toStr id) = some id := by
  have hgrp : parseHyphenated (toStr id) = (ofHex (digits id 0 8 ++ digits id 8 4 ++
      digits id 12 4 ++ digits id 16 4 ++ digits id 20 12)).map (BitVec.ofNat 128) := by
    simp [toStr, parseHyphenated, drop_append, length_digits, drop_of_length_le]
  rw [hgrp, digits_append, digits_append, digits_append, digits_append, ofHex_digits,
    Option.map_some, BitVec.ofNat_toNat, BitVec.setWidth_eq]

theorem parseStr_eq_parseHyphenated {s : Str} (hlen : s.length = 36) :
    parseStr s = parseHyphenated s := by
  rw [parseStr, if_neg (by omega), if_pos hlen]

/-- **What `toStr` writes, `parseStr` reads.** -/
theorem parseStr_toStr : parseStr (toStr id) = some id := by
  rw [parseStr_eq_parseHyphenated (by simp [toStr, length_digits]), parseHyphenated_toStr]

end Uuid

end Nasiko
