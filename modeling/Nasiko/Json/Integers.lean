import Nasiko.Json.Writer

/-!
# A serde_json whose numbers are integers

An executable instance of `SerdeJson`: the reference reader of `Json.Reader` within the recursion
limit, and a compact writer. Its numbers are the integers that `serde_json` keeps as such; a token
with a fraction or an exponent is not read. `readsJson` and `writesJson` show that it keeps what
`serde_json` promises, so that results that rest on those promises can be evaluated.
-/

namespace Nasiko.Json.Integers

open List Nat

/-! ## Numbers -/

/-- The integer that a token denotes, within the ranges of `u64` and `i64`. -/
def ofToken (s : Str) : Option Int :=
  match s with
  | '-' :: ds =>
    if ds.all isDigit ∧ 0 < Nat.ofDigitChars 10 ds 0 ∧ Nat.ofDigitChars 10 ds 0 ≤ 2 ^ 63 then
      some (-(Nat.ofDigitChars 10 ds 0))
    else none
  | ds =>
    if ds.all isDigit ∧ Nat.ofDigitChars 10 ds 0 < 2 ^ 64 then some (Nat.ofDigitChars 10 ds 0)
    else none

/-- Decimal digits, with a sign in front of a negative number. -/
def numText (n : Int) : Str :=
  if n < 0 then '-' :: Nat.toDigits 10 n.natAbs else Nat.toDigits 10 n.natAbs

variable {n : Nat} {tok : Str}

theorem isDigit_of_mem {c : Char} (h : c ∈ toDigits 10 n) : isDigit c = true := by
  have hd := isDigit_of_mem_toDigits (by decide) (by decide) h
  simp only [Char.isDigit, Bool.and_eq_true, decide_eq_true_eq] at hd
  simp only [isDigit, Bool.and_eq_true, decide_eq_true_eq]
  exact hd

theorem toDigits_ne_zero_cons {ds : Str} (h : toDigits 10 n = '0' :: ds) : ds = [] := by
  induction n using Nat.strong_induction_on generalizing ds with
  | _ n ih =>
    rw [toDigits_eq_if (by decide)] at h
    split_ifs at h with hn
    · exact (cons.inj h).2.symm
    · exfalso
      obtain ⟨d, es, hes⟩ := exists_cons_of_ne_nil toDigits_ne_nil
      rw [hes] at h
      cases h
      -- The quotient would be written with a leading zero, so it is zero.
      obtain rfl := ih (n / 10) (by omega) hes
      have hval := ofDigitChars_ten_toDigits (n := n / 10)
      rw [hes] at hval
      have : n / 10 = 0 := hval.symm.trans (by decide)
      omega

theorem isUnsigned_toDigits : isUnsigned (toDigits 10 n) = true := by
  obtain ⟨htake, hdrop⟩ := Text.takeWhile_append_of_all
    (r := []) (fun c hc => isDigit_of_mem hc) (by simp)
  rw [append_nil] at htake hdrop
  obtain ⟨d, ds, hds⟩ := exists_cons_of_ne_nil toDigits_ne_nil
  rw [isUnsigned, htake, hdrop, hds]
  by_cases hd : d = '0'
  · subst hd
    rw [toDigits_ne_zero_cons hds]
    rfl
  · simp [hd, isFraction, isExponent]

theorem ne_minus_of_toDigits {d : Char} {ds : Str} (h : toDigits 10 n = d :: ds) : d ≠ '-' := by
  have hd : isDigit d = true := isDigit_of_mem (h ▸ mem_cons_self)
  rintro rfl
  cases hd

theorem isNumber_numText (n : Int) : isNumber (numText n) = true := by
  unfold numText
  split_ifs with hn
  · exact isUnsigned_toDigits
  · obtain ⟨d, ds, hds⟩ :=
      exists_cons_of_ne_nil toDigits_ne_nil
    rw [hds, isNumber, ← hds]
    · exact isUnsigned_toDigits
    · simpa using ne_minus_of_toDigits hds

/-! ## Writing -/

def write (v : Json Int) : Str := Json.write numText v

/-! ## The instance -/

instance : SerdeJson Int Int where
  isI64 n := -2 ^ 63 ≤ n && n < 2 ^ 63
  isU64 n := 0 ≤ n && n < 2 ^ 64
  asF64 n := some n
  nan := 0
  isNan _ := false
  isFinite _ := true
  fractIsZero _ := true
  ltF64 a b := a < b
  f64Text := numText
  ofToken := ofToken
  numText := numText
  parse s := (readDoc ofToken s).filter fun v => v.depth < SerdeJson.recursionLimit
  parseError _ := "expected value at line 1 column 1"
  toText := write

instance : AsI64 Int where
  asI64 n := if -2 ^ 63 ≤ n ∧ n < 2 ^ 63 then some n else none

theorem readsJson : SerdeJson.ReadsJson Int where
  parse_iff s v := by
    have hdoc : readDoc ofToken s = some v ↔ DocText ofToken v s :=
      ⟨readDoc_sound, readDoc_complete⟩
    simp [SerdeJson.parse, SerdeJson.ofToken, hdoc]

theorem writesJson : SerdeJson.WritesJson Int where
  toText_compact v := compactText_write (allNumbers_of_forall isNumber_numText v)

theorem writesText : SerdeJson.WritesText Int where
  toText_eq _ := rfl
  isNumber_numText := isNumber_numText

end Nasiko.Json.Integers
