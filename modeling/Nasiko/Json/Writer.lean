import Nasiko.Json.Reader
import Nasiko.Json.Serde

/-!
# The compact writer

`write numText v` is the text of `v` without whitespace, as `serde_json` writes it: a character of a
string stands for itself unless it is a quote, a backslash or a control character. `numText` writes
the numbers.

Reading the text gives the document back up to the numbers: `write_inj` says that two documents with
the same text have the same shape, strings and number tokens.
-/

namespace Nasiko.Json

open List Json

/-! ## Strings -/

/-- A digit of a `\u` escape. -/
def hexDigit (n : Nat) : Char := Nat.digitChar n

def writeChar (c : Char) : Str :=
  if c = '"' then ['\\', '"']
  else if c = '\\' then ['\\', '\\']
  else if c = '\x08' then ['\\', 'b']
  else if c = '\x0c' then ['\\', 'f']
  else if c = '\n' then ['\\', 'n']
  else if c = '\r' then ['\\', 'r']
  else if c = '\t' then ['\\', 't']
  else if c.toNat < 0x20 then
    ['\\', 'u', '0', '0', hexDigit (c.toNat / 16), hexDigit (c.toNat % 16)]
  else [c]

/-- The text between the quotes. -/
def writeChars (s : Str) : Str := s.flatMap writeChar

def writeString (s : Str) : Str := '"' :: (writeChars s ++ ['"'])

theorem hex4_control {n : Nat} (h : n < 0x20) :
    hex4 '0' '0' (hexDigit (n / 16)) (hexDigit (n % 16)) = some n := by
  have key : ∀ n < 0x20, hex4 '0' '0' (hexDigit (n / 16)) (hexDigit (n % 16)) = some n := by decide
  exact key n h

theorem charText_writeChar {c : Char} : CharText c (writeChar c) := by
  unfold writeChar
  split_ifs with h₁ h₂ h₃ h₄ h₅ h₆ h₇ h₈
  · subst h₁
    exact .short rfl
  · subst h₂
    exact .short rfl
  · exact .short (h₃ ▸ rfl)
  · exact .short (h₄ ▸ rfl)
  · exact .short (h₅ ▸ rfl)
  · exact .short (h₆ ▸ rfl)
  · exact .short (h₇ ▸ rfl)
  · exact .unicode (hex4_control h₈)
  · exact .plain (not_lt.1 h₈) h₁ h₂

variable {s : Str}

theorem stringText_writeString : StringText s (writeString s) := by
  refine ⟨writeChars s, ?_, rfl⟩
  induction s with
  | nil => exact .nil
  | cons c s ih =>
    exact .cons charText_writeChar ih

theorem writeChars_append (s t : Str) : writeChars (s ++ t) = writeChars s ++ writeChars t :=
  flatMap_append

/-- A character that stands for itself. -/
def IsPlain (c : Char) : Prop := 0x20 ≤ c.toNat ∧ c ≠ '"' ∧ c ≠ '\\'

instance : DecidablePred IsPlain := fun _ => inferInstanceAs (Decidable (_ ∧ _ ∧ _))

theorem writeChar_of_isPlain {c : Char} (h : IsPlain c) : writeChar c = [c] := by
  obtain ⟨hc, hquo, hback⟩ := h
  have hne : ∀ d : Char, d.toNat < 0x20 → c ≠ d := by
    rintro d hd rfl
    omega
  rw [writeChar, if_neg hquo, if_neg hback, if_neg (hne _ (by decide)), if_neg (hne _ (by decide)),
    if_neg (hne _ (by decide)), if_neg (hne _ (by decide)), if_neg (hne _ (by decide)),
    if_neg (not_lt.2 hc)]

theorem writeChars_of_isPlain (h : ∀ c ∈ s, IsPlain c) : writeChars s = s := by
  induction s with
  | nil => rfl
  | cons c s ih =>
    obtain ⟨hc, hs⟩ := List.forall_mem_cons.1 h
    have ih' := ih hs
    rw [writeChars] at ih' ⊢
    rw [List.flatMap_cons, writeChar_of_isPlain hc, ih', List.singleton_append]

/-! ## Documents -/

section

variable {N : Type} (numText : N → Str)

mutual

def write : Json N → Str
  | .null => "null"
  | .bool true => "true"
  | .bool false => "false"
  | .number n => numText n
  | .string s => writeString s
  | .array vs => '[' :: (writeItems vs ++ [']'])
  | .object fs => '{' :: (writeFields fs ++ ['}'])
termination_by structural v => v

def writeItems : List (Json N) → Str
  | [] => []
  | v :: vs => write v ++ if vs.isEmpty then [] else ',' :: writeItems vs
termination_by structural vs => vs

def writeFields : List (Str × Json N) → Str
  | [] => []
  | (k, v) :: fs =>
    writeString k ++ ':' :: (write v ++ if fs.isEmpty then [] else ',' :: writeFields fs)
termination_by structural fs => fs

end

variable {numText}

theorem around_nil {P : Str → Prop} (h : P s) : Around (· = []) P s :=
  ⟨[], s, [], rfl, h, rfl, by simp⟩

theorem writeItems_eq (vs : List (Json N)) :
    writeItems numText vs = [','].intercalate (vs.map (write numText)) := by
  induction vs with
  | nil => rfl
  | cons v vs ih =>
    rw [writeItems, ih]
    cases vs <;> simp [intercalate_cons_cons]

def writeField (numText : N → Str) (f : Str × Json N) : Str :=
  writeString f.1 ++ ':' :: write numText f.2

theorem writeFields_eq (fs : List (Str × Json N)) :
    writeFields numText fs = [','].intercalate (fs.map (writeField numText)) := by
  induction fs with
  | nil => rfl
  | cons f fs ih =>
    rw [writeFields, ih]
    cases fs <;> simp [intercalate_cons_cons, writeField]

theorem itemsText_write {vs : List (Json N)}
    (ih : ∀ v ∈ vs, CompactText numText v (write numText v)) :
    ItemsText (WriteTok numText) (· = []) vs (writeItems numText vs) := by
  induction vs with
  | nil => exact rfl
  | cons v vs ihs =>
    obtain ⟨hv, hvs⟩ := forall_mem_cons.1 ih
    refine ⟨write numText v, around_nil hv, ?_⟩
    cases vs with
    | nil => exact .inl ⟨rfl, by simp [writeItems]⟩
    | cons w ws => exact .inr ⟨by simp, _, ihs hvs, by simp [writeItems]⟩

theorem fieldsText_write {fs : List (Str × Json N)}
    (ih : ∀ f ∈ fs, CompactText numText f.2 (write numText f.2)) :
    FieldsText (WriteTok numText) (· = []) fs (writeFields numText fs) := by
  induction fs with
  | nil => exact rfl
  | cons f fs ihs =>
    obtain ⟨k, v⟩ := f
    obtain ⟨hv, hfs⟩ := forall_mem_cons.1 ih
    refine ⟨writeString k, write numText v, around_nil stringText_writeString, around_nil hv, ?_⟩
    cases fs with
    | nil => exact .inl ⟨rfl, by simp [writeFields]⟩
    | cons g gs =>
      refine .inr ⟨by simp, _, ihs hfs, ?_⟩
      simp [writeFields]

theorem compactText_write {v : Json N} (hv : AllNumbers (fun n => isNumber (numText n) = true) v) :
    CompactText numText v (write numText v) := by
  induction hv with
  | null => exact rfl
  | bool b => cases b <;> exact rfl
  | number hn => exact ⟨hn, rfl⟩
  | string s => exact stringText_writeString
  | array _ ih => exact ⟨_, itemsText_write ih, rfl⟩
  | object _ ih => exact ⟨_, fieldsText_write ih, rfl⟩

end

/-! ## The document in a text -/

theorem allNumbers_of_forall {N : Type} {P : N → Prop} (h : ∀ n, P n) (v : Json N) :
    AllNumbers P v := by
  induction v using induct with
  | null => exact .null
  | bool b => exact .bool b
  | number n => exact .number (h n)
  | string s => exact .string s
  | array vs ih => exact .array ih
  | object fs ih => exact .object ih

variable {N M : Type}

mutual

def mapNumbers (f : N → M) : Json N → Json M
  | .null => .null
  | .bool b => .bool b
  | .number n => .number (f n)
  | .string s => .string s
  | .array vs => .array (mapNumbersItems f vs)
  | .object fs => .object (mapNumbersFields f fs)
termination_by structural v => v

def mapNumbersItems (f : N → M) : List (Json N) → List (Json M)
  | [] => []
  | v :: vs => mapNumbers f v :: mapNumbersItems f vs
termination_by structural vs => vs

def mapNumbersFields (f : N → M) : List (Str × Json N) → List (Str × Json M)
  | [] => []
  | (k, v) :: fs => (k, mapNumbers f v) :: mapNumbersFields f fs
termination_by structural fs => fs

end

theorem mapNumbersItems_eq_map (f : N → M) (vs : List (Json N)) :
    mapNumbersItems f vs = vs.map (mapNumbers f) := by
  induction vs with
  | nil => rfl
  | cons v vs ih => simp [mapNumbersItems, ih]

theorem mapNumbersFields_eq_map (f : N → M) (fs : List (Str × Json N)) :
    mapNumbersFields f fs = fs.map fun e => (e.1, mapNumbers f e.2) := by
  induction fs with
  | nil => rfl
  | cons e fs ih =>
    simp [mapNumbersFields, ih]

/-- Numbers may be written before the document is. -/
theorem write_mapNumbers (numText : N → Str) (v : Json N) :
    write id (mapNumbers numText v) = write numText v := by
  induction v using induct with
  | null => rfl
  | bool b => cases b <;> rfl
  | number n | string s => rfl
  | array vs ih =>
    have hit : (vs.map (mapNumbers numText)).map (write id) = vs.map (write numText) := by
      rw [map_map, map_congr_left (f := write id ∘ mapNumbers numText) ih]
    rw [mapNumbers, write, write, writeItems_eq, writeItems_eq, mapNumbersItems_eq_map, hit]
  | object fs ih =>
    have hfs : (fs.map fun e => (e.1, mapNumbers numText e.2)).map (writeField id) =
        fs.map (writeField numText) := by
      rw [map_map]
      exact map_congr_left fun e he => congrArg (writeString e.1 ++ ':' :: ·) (ih e he)
    rw [mapNumbers, write, write, writeFields_eq, writeFields_eq, mapNumbersFields_eq_map, hfs]

variable {v : Json N} {tok : N → Str → Prop} {blank : Str → Prop} {t : Str} {numText : N → Str}
  {P : Json N → Prop}

theorem AllNumbers.mapNumbers {f : N → M} {P : M → Prop} (hv : AllNumbers (fun n => P (f n)) v) :
    AllNumbers P (mapNumbers f v) := by
  induction hv with
  | null => exact .null
  | bool b => exact .bool b
  | number hn => exact .number hn
  | string s => exact .string s
  | array _ ih =>
    rw [Json.mapNumbers, mapNumbersItems_eq_map]
    exact .array (forall_mem_map.2 ih)
  | object _ ih =>
    rw [Json.mapNumbers, mapNumbersFields_eq_map]
    exact .object (forall_mem_map.2 ih)

theorem AllNumbers.toValue {P : N → Prop} (hv : AllNumbers P v) : AllNumbers P v.toValue := by
  induction hv with
  | null => exact .null
  | bool b => exact .bool b
  | number hn => exact .number hn
  | string s => exact .string s
  | array _ ih =>
    rw [Json.toValue, toValueItems_eq_map]
    exact .array (forall_mem_map.2 ih)
  | object _ ih =>
    rw [Json.toValue, toValueFields_eq_map]
    refine .object fun e he => ?_
    obtain ⟨g, hg, rfl⟩ := mem_map.1 (mem_ofList he)
    exact ih g hg

theorem ValueText.docText {ofToken : Str → Option N} (h : ValueText (ReadTok ofToken) Blank v s) :
    DocText ofToken v s :=
  ⟨[], s, [], by simp [Blank], h, by simp [Blank], by simp⟩

/-- A text is read as the document with the number tokens themselves for numbers. -/
theorem readDoc_write (hnum : ∀ n, isNumber (numText n) = true) (v : Json N) :
    readDoc some (write numText v) = some (mapNumbers numText v) := by
  have hval : ValueText (ReadTok some) Blank (mapNumbers numText v) (write numText v) := by
    rw [← write_mapNumbers]
    refine (compactText_write ?_).read ?_
    · exact (allNumbers_of_forall hnum v).mapNumbers
    · exact (allNumbers_of_forall (fun _ => rfl) v).mapNumbers
  exact readDoc_complete hval.docText

/-- **Documents with the same text agree up to the numbers, and the numbers have the same text.** -/
theorem write_inj (hnum : ∀ n, isNumber (numText n) = true) {w : Json N}
    (h : write numText v = write numText w) : mapNumbers numText v = mapNumbers numText w := by
  have hv := readDoc_write hnum v
  rw [h, readDoc_write hnum w] at hv
  exact (Option.some.inj hv).symm

end Nasiko.Json

namespace Nasiko.SerdeJson

/-- `serde_json` writes compact texts this way. -/
structure WritesText (N : Type) {F : Type} [SerdeJson N F] : Prop where
  toText_eq : ∀ v : Json N, toText v = Json.write numText v
  isNumber_numText : ∀ n : N, Json.isNumber (numText n) = true

variable {N F : Type} [SerdeJson N F]

end Nasiko.SerdeJson
