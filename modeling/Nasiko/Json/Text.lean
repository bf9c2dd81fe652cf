import Mathlib.Data.List.TakeWhile
import Nasiko.Json.Basic

/-!
# The texts of a JSON document

`ValueText tok blank v s` says that `s` is a way to write the document `v` in JSON (RFC 8259).
It is a recursion over the document, so that proofs about texts follow the shape of the value.

Two things are left open. `tok n s` says that the number `n` may be written `s`, because what a
number token denotes is up to the number type. `blank s` says that `s` may stand between two
tokens: any whitespace for the texts a reader accepts, nothing at all for the compact texts a
writer produces.
-/

namespace Nasiko.Json

/-! ## Characters and strings -/

/-- JSON whitespace. -/
def isBlank (c : Char) : Bool := c == ' ' || c == '\t' || c == '\n' || c == '\r'

/-- A run of whitespace. -/
def Blank (s : Str) : Prop := ∀ c ∈ s, isBlank c = true

/-- The value of a hexadecimal digit. -/
def hexVal (c : Char) : Option Nat :=
  if '0' ≤ c ∧ c ≤ '9' then some (c.toNat - '0'.toNat)
  else if 'a' ≤ c ∧ c ≤ 'f' then some (c.toNat - 'a'.toNat + 10)
  else if 'A' ≤ c ∧ c ≤ 'F' then some (c.toNat - 'A'.toNat + 10)
  else none

/-- The value of four hexadecimal digits. -/
def hex4 (a b c d : Char) : Option Nat := do
  return (((← hexVal a) * 16 + (← hexVal b)) * 16 + (← hexVal c)) * 16 + (← hexVal d)

/-- The character that a backslash and `e` stand for. -/
def shortEscape (e : Char) : Option Char :=
  match e with
  | '"' => some '"'
  | '\\' => some '\\'
  | '/' => some '/'
  | 'b' => some '\x08'
  | 'f' => some '\x0c'
  | 'n' => some '\n'
  | 'r' => some '\r'
  | 't' => some '\t'
  | _ => none

/-- The ways to write one character inside a string. The last one is a surrogate pair. -/
inductive CharText : Char → Str → Prop
  | plain {c : Char} : 0x20 ≤ c.toNat → c ≠ '"' → c ≠ '\\' → CharText c [c]
  | short {e c : Char} : shortEscape e = some c → CharText c ['\\', e]
  | unicode {a b c d x : Char} : hex4 a b c d = some x.toNat → CharText x ['\\', 'u', a, b, c, d]
  | pair {a b c d e f g h x : Char} {hi lo : Nat} :
      hex4 a b c d = some hi → 0xD800 ≤ hi → hi < 0xDC00 →
      hex4 e f g h = some lo → 0xDC00 ≤ lo → lo < 0xE000 →
      x.toNat = 0x10000 + (hi - 0xD800) * 0x400 + (lo - 0xDC00) →
      CharText x ['\\', 'u', a, b, c, d, '\\', 'u', e, f, g, h]

/-- The ways to write a sequence of characters inside a string. -/
inductive CharsText : Str → Str → Prop
  | nil : CharsText [] []
  | cons {c : Char} {u cs t : Str} : CharText c u → CharsText cs t → CharsText (c :: cs) (u ++ t)

/-- The ways to write a string, quotes included. -/
def StringText (cs s : Str) : Prop := ∃ t, CharsText cs t ∧ s = '"' :: (t ++ ['"'])

/-! ## Numbers -/

def isDigit (c : Char) : Bool := '0' ≤ c && c ≤ '9'

/-- The characters a number token is made of. -/
def isNumChar (c : Char) : Bool :=
  isDigit c || c == '-' || c == '+' || c == '.' || c == 'e' || c == 'E'

/-- `("e" | "E") ["+" | "-"] digit+`, or nothing. -/
def isExponent : Str → Bool
  | [] => true
  | c :: s =>
    (c == 'e' || c == 'E') &&
      (match s with
        | '+' :: ds => ds ≠ [] && ds.all isDigit
        | '-' :: ds => ds ≠ [] && ds.all isDigit
        | ds => ds ≠ [] && ds.all isDigit)

/-- `"." digit+` or nothing, then an exponent. -/
def isFraction : Str → Bool
  | '.' :: s => (s.takeWhile isDigit) ≠ [] && isExponent (s.dropWhile isDigit)
  | s => isExponent s

/-- A number without its sign: `0`, or digits that do not start with `0`, then a fraction. -/
def isUnsigned (s : Str) : Bool :=
  (match s.takeWhile isDigit with
    | [] => false
    | d :: ds => d ≠ '0' || ds = []) &&
  isFraction (s.dropWhile isDigit)

/-- The number tokens of the JSON grammar. -/
def isNumber : Str → Bool
  | '-' :: s => isUnsigned s
  | s => isUnsigned s

variable {c : Char} {s : Str}

/-- A run of number characters without a dot. -/
def Undotted (s : Str) : Prop := ∀ c ∈ s, isNumChar c = true ∧ c ≠ '.'

theorem undotted_digit (h : isDigit c = true) : isNumChar c = true ∧ c ≠ '.' := by
  refine ⟨by simp [isNumChar, h], ?_⟩
  rintro rfl
  revert h
  decide

theorem undotted_takeWhile : Undotted (s.takeWhile isDigit) :=
  fun _ hc => undotted_digit (List.mem_takeWhile_imp hc)

theorem undotted_exponent (h : isExponent s = true) : Undotted s := by
  cases s with
  | nil => simp [Undotted]
  | cons x s =>
    simp only [isExponent, Bool.and_eq_true, Bool.or_eq_true, beq_iff_eq] at h
    obtain ⟨hx, hs⟩ := h
    have hds : ∀ ds : Str, (ds ≠ [] && ds.all isDigit) = true → Undotted ds := by
      intro ds hds c hc
      simp only [Bool.and_eq_true, List.all_eq_true] at hds
      exact undotted_digit (hds.2 c hc)
    refine List.forall_mem_cons.2 ⟨by rcases hx with rfl | rfl <;> decide, ?_⟩
    split at hs
    · next ds => exact List.forall_mem_cons.2 ⟨by decide, hds ds hs⟩
    · next ds => exact List.forall_mem_cons.2 ⟨by decide, hds ds hs⟩
    · exact hds s hs

theorem undotted_of_digits (h : isExponent (s.dropWhile isDigit) = true) : Undotted s := by
  rw [← List.takeWhile_append_dropWhile (p := isDigit) (l := s)]
  exact List.forall_mem_append.2 ⟨undotted_takeWhile, undotted_exponent h⟩

/-- The part of a number in front of the dot, and the part from the dot on, which has a digit behind
the dot. -/
def Parted (s : Str) : Prop := ∃ a r, s = a ++ r ∧ a ≠ [] ∧ Undotted a ∧
  (r = [] ∨ ∃ d t, r = '.' :: d :: t ∧ isDigit d = true ∧ Undotted (d :: t))

theorem parted_of_isUnsigned (h : isUnsigned s = true) : Parted s := by
  rw [isUnsigned, Bool.and_eq_true] at h
  obtain ⟨hdig, hfra⟩ := h
  have hne : s.takeWhile isDigit ≠ [] := by
    intro hnil
    rw [hnil] at hdig
    cases hdig
  unfold isFraction at hfra
  split at hfra
  · next t hdot =>
    simp only [Bool.and_eq_true, decide_eq_true_eq] at hfra
    refine ⟨_, '.' :: t, ?_, hne, undotted_takeWhile, .inr ?_⟩
    · rw [← hdot, List.takeWhile_append_dropWhile]
    · cases t with
      | nil => exact absurd rfl hfra.1
      | cons d t =>
        refine ⟨d, t, rfl, by_contra fun hd => ?_, undotted_of_digits hfra.2⟩
        exact hfra.1 (List.takeWhile_cons_of_neg hd)
  · refine ⟨s, [], (List.append_nil s).symm, ?_, undotted_of_digits hfra, .inl rfl⟩
    rintro rfl
    exact hne rfl

theorem parted_of_isNumber (h : isNumber s = true) : Parted s := by
  unfold isNumber at h
  split at h
  · obtain ⟨a, r, rfl, -, ha, hr⟩ := parted_of_isUnsigned h
    exact ⟨'-' :: a, r, rfl, by simp, List.forall_mem_cons.2 ⟨by decide, ha⟩, hr⟩
  · exact parted_of_isUnsigned h

theorem isNumber_chars (h : isNumber s = true) : s ≠ [] ∧ ∀ c ∈ s, isNumChar c = true := by
  obtain ⟨a, r, rfl, hne, ha, hr⟩ := parted_of_isNumber h
  refine ⟨by simp [hne], List.forall_mem_append.2 ⟨fun c hc => (ha c hc).1, ?_⟩⟩
  obtain rfl | ⟨d, t, rfl, -, ht⟩ := hr
  · simp
  · exact List.forall_mem_cons.2 ⟨by decide, fun c hc => (ht c hc).1⟩

/-! ## Values -/

section

variable {N : Type} (tok : N → Str → Prop) (blank : Str → Prop)

/-- A text of `P` with whitespace on both sides. -/
def Around (P : Str → Prop) (t : Str) : Prop :=
  ∃ a s b, blank a ∧ P s ∧ blank b ∧ t = a ++ (s ++ b)

mutual

/-- The ways to write a document. -/
def ValueText : Json N → Str → Prop
  | .null, s => s = "null"
  | .bool true, s => s = "true"
  | .bool false, s => s = "false"
  | .number n, s => tok n s
  | .string cs, s => StringText cs s
  | .array vs, s => ∃ t, ItemsText vs t ∧ s = '[' :: (t ++ [']'])
  | .object fs, s => ∃ t, FieldsText fs t ∧ s = '{' :: (t ++ ['}'])
termination_by structural v => v

/-- The ways to write what stands between the brackets of an array. -/
def ItemsText : List (Json N) → Str → Prop
  | [], t => blank t
  | v :: vs, t => ∃ u, Around blank (ValueText v) u ∧
      ((vs = [] ∧ t = u) ∨ (vs ≠ [] ∧ ∃ r, ItemsText vs r ∧ t = u ++ ',' :: r))
termination_by structural vs => vs

/-- The ways to write what stands between the braces of an object. -/
def FieldsText : List (Str × Json N) → Str → Prop
  | [], t => blank t
  | (k, v) :: fs, t => ∃ p u, Around blank (StringText k) p ∧ Around blank (ValueText v) u ∧
      ((fs = [] ∧ t = p ++ ':' :: u) ∨
        (fs ≠ [] ∧ ∃ r, FieldsText fs r ∧ t = p ++ ':' :: (u ++ ',' :: r)))
termination_by structural fs => fs

end

end

/-! ## More ways to write the same document -/

section

variable {N : Type} {tok tok' : N → Str → Prop} {blank blank' : Str → Prop} {t : Str}

section

variable (hbla : ∀ s, blank s → blank' s)

include hbla

theorem Around.mono {P Q : Str → Prop} (hPQ : ∀ s, P s → Q s)
    (h : Around blank P t) : Around blank' Q t := by
  obtain ⟨a, s, b, ha, hs, hb, rfl⟩ := h
  exact ⟨a, s, b, hbla a ha, hPQ s hs, hbla b hb, rfl⟩

theorem ItemsText.mono {vs : List (Json N)}
    (ih : ∀ v ∈ vs, ∀ s, ValueText tok blank v s → ValueText tok' blank' v s)
    (h : ItemsText tok blank vs t) : ItemsText tok' blank' vs t := by
  induction vs generalizing t with
  | nil => exact hbla t h
  | cons v vs ihs =>
    obtain ⟨hv, hvs⟩ := List.forall_mem_cons.1 ih
    obtain ⟨u, hu, hrest⟩ := h
    refine ⟨u, hu.mono hbla hv, hrest.imp id ?_⟩
    rintro ⟨hne, r, hr, rfl⟩
    exact ⟨hne, r, ihs hvs hr, rfl⟩

theorem FieldsText.mono {fs : List (Str × Json N)}
    (ih : ∀ f ∈ fs, ∀ s, ValueText tok blank f.2 s → ValueText tok' blank' f.2 s)
    (h : FieldsText tok blank fs t) : FieldsText tok' blank' fs t := by
  induction fs generalizing t with
  | nil => exact hbla t h
  | cons f fs ihs =>
    obtain ⟨hv, hfs⟩ := List.forall_mem_cons.1 ih
    obtain ⟨p, u, hp, hu, hrest⟩ := h
    refine ⟨p, u, hp.mono hbla fun _ h => h, hu.mono hbla hv, hrest.imp id ?_⟩
    rintro ⟨hne, r, hr, rfl⟩
    exact ⟨hne, r, ihs hfs hr, rfl⟩

/-- A text stays a text of the document when the numbers in it may be written as they are. -/
theorem ValueText.mono {P : N → Prop}
    (htok : ∀ n s, P n → tok n s → tok' n s) {v : Json N} (hv : AllNumbers P v)
    (h : ValueText tok blank v t) : ValueText tok' blank' v t := by
  induction hv generalizing t with
  | null => exact h
  | bool b => cases b <;> exact h
  | number hn => exact htok _ _ hn h
  | string s => exact h
  | array _ ih =>
    obtain ⟨u, hu, rfl⟩ := h
    exact ⟨u, hu.mono hbla fun v hv _ hs => ih v hv hs, rfl⟩
  | object _ ih =>
    obtain ⟨u, hu, rfl⟩ := h
    exact ⟨u, hu.mono hbla fun f hf _ hs => ih f hf hs, rfl⟩

end

end

/-! ## What holds of every text -/

section

variable {N : Type} {tok : N → Str → Prop} {blank : Str → Prop} {Q : Nat → Str → Prop} {t : Str}
  {d : Nat}

variable (tok blank Q) in
/-- A property of the texts at each depth of brackets that holds of the tokens, and of what is put
together from texts that have it. -/
structure Closed : Prop where
  blank : ∀ {d s}, blank s → Q d s
  word : ∀ d, ∀ s ∈ (["null", "true", "false", ",", ":"] : List Str), Q d s
  number : ∀ {d n s}, tok n s → Q d s
  string : ∀ {d cs s}, StringText cs s → Q d s
  append : ∀ {d s t}, Q d s → Q d t → Q d (s ++ t)
  brackets : ∀ {d t}, Q (d + 1) t → Q d ('[' :: (t ++ [']'])) ∧ Q d ('{' :: (t ++ ['}']))

variable (hQ : Closed tok blank Q)

include hQ

theorem Closed.around {P : Str → Prop} (hP : ∀ s, P s → Q d s) (h : Around blank P t) : Q d t := by
  obtain ⟨a, s, b, ha, hs, hb, rfl⟩ := h
  exact hQ.append (hQ.blank ha) (hQ.append (hP s hs) (hQ.blank hb))

theorem Closed.items {vs : List (Json N)} (ih : ∀ v ∈ vs, ∀ s, ValueText tok blank v s → Q d s)
    (h : ItemsText tok blank vs t) : Q d t := by
  induction vs generalizing t with
  | nil => exact hQ.blank h
  | cons v vs ihs =>
    obtain ⟨hv, hvs⟩ := List.forall_mem_cons.1 ih
    obtain ⟨u, hu, ⟨-, rfl⟩ | ⟨-, r, hr, rfl⟩⟩ := h
    · exact hQ.around hv hu
    · exact hQ.append (hQ.around hv hu) (hQ.append (hQ.word d [','] (by simp)) (ihs hvs hr))

theorem Closed.fields {fs : List (Str × Json N)}
    (ih : ∀ f ∈ fs, ∀ s, ValueText tok blank f.2 s → Q d s) (h : FieldsText tok blank fs t) :
    Q d t := by
  induction fs generalizing t with
  | nil => exact hQ.blank h
  | cons f fs ihs =>
    obtain ⟨hv, hvs⟩ := List.forall_mem_cons.1 ih
    obtain ⟨p, u, hp, hu, h⟩ := h
    have hkey : Q d p := hQ.around (fun _ => hQ.string) hp
    have hcol := hQ.word d [':'] (by simp)
    have hval := hQ.around hv hu
    obtain ⟨-, rfl⟩ | ⟨-, r, hr, rfl⟩ := h
    · exact hQ.append hkey (hQ.append hcol hval)
    · exact hQ.append hkey (hQ.append hcol
        (hQ.append hval (hQ.append (hQ.word d [','] (by simp)) (ihs hvs hr))))

/-- **A closed property holds of the texts of every document.** -/
theorem Closed.value {v : Json N} (d : Nat) (h : ValueText tok blank v t) : Q d t := by
  induction v using Json.induct generalizing t d with
  | null => exact hQ.word d t (by simp [show t = "null" from h])
  | bool b => cases b <;> exact hQ.word d t (by rw [show t = _ from h]; simp)
  | number n => exact hQ.number h
  | string cs => exact hQ.string h
  | array vs ih =>
    obtain ⟨u, hu, rfl⟩ := h
    exact (hQ.brackets (hQ.items (fun v hv s hs => ih v hv _ hs) hu)).1
  | object fs ih =>
    obtain ⟨u, hu, rfl⟩ := h
    exact (hQ.brackets (hQ.fields (fun f hf s hs => ih f hf _ hs) hu)).2

end

/-- The number tokens that a reader takes for `n`: those of the grammar that `ofToken` reads. -/
def ReadTok {N : Type} (ofToken : Str → Option N) (n : N) (s : Str) : Prop :=
  isNumber s = true ∧ ofToken s = some n

/-- The number token that a writer gives for `n`. -/
def WriteTok {N : Type} (numText : N → Str) (n : N) (s : Str) : Prop :=
  isNumber s = true ∧ s = numText n

/-- A JSON text as a reader accepts it: a document with whitespace anywhere between tokens. -/
def DocText {N : Type} (ofToken : Str → Option N) (v : Json N) (s : Str) : Prop :=
  Around Blank (ValueText (ReadTok ofToken) Blank v) s

/-- A JSON text as a compact writer produces it: no whitespace between tokens. -/
def CompactText {N : Type} (numText : N → Str) (v : Json N) (s : Str) : Prop :=
  ValueText (WriteTok numText) (· = []) v s

/-- What a compact writer produces a reader reads, if it does so with the numbers. -/
theorem CompactText.read {N : Type} {ofToken : Str → Option N} {numText : N → Str} {v : Json N}
    (h : CompactText numText v s) (hnum : AllNumbers (fun n => ofToken (numText n) = some n) v) :
    ValueText (ReadTok ofToken) Blank v s := by
  refine ValueText.mono ?_ ?_ hnum h
  · rintro s rfl c hc
    cases hc
  · rintro n s hn ⟨hs, rfl⟩
    exact ⟨hs, hn⟩

/-! ## Compact texts have no control characters -/

/-- No control character is in the text, so no line break in particular. -/
def Printable (s : Str) : Prop := ∀ c ∈ s, 0x20 ≤ c.toNat

theorem Printable.append {t : Str} (hs : Printable s) (ht : Printable t) :
    Printable (s ++ t) := List.forall_mem_append.2 ⟨hs, ht⟩

theorem Printable.cons (hc : 0x20 ≤ c.toNat) (hs : Printable s) :
    Printable (c :: s) := List.forall_mem_cons.2 ⟨hc, hs⟩

theorem printable_nil : Printable [] := by simp [Printable]

theorem printable_of_isNumChar (h : isNumChar c = true) : 0x20 ≤ c.toNat := by
  simp only [isNumChar, isDigit, Bool.or_eq_true, Bool.and_eq_true, decide_eq_true_eq,
    beq_iff_eq] at h
  rcases h with ((((h | rfl) | rfl) | rfl) | rfl) | rfl
  · exact le_trans (by decide) (Char.le_def.1 h.1)
  all_goals decide

theorem printable_of_hexVal {n : Nat} (h : hexVal c = some n) : 0x20 ≤ c.toNat := by
  have key : ∀ d : Char, 0x20 ≤ d.toNat → d ≤ c → 0x20 ≤ c.toNat :=
    fun d hd hle => le_trans hd (Char.le_def.1 hle)
  unfold hexVal at h
  split_ifs at h with h₁ h₂ h₃
  · exact key '0' (by decide) h₁.1
  · exact key 'a' (by decide) h₂.1
  · exact key 'A' (by decide) h₃.1

theorem printable_of_shortEscape {e : Char} (h : shortEscape e = some c) : 0x20 ≤ e.toNat := by
  unfold shortEscape at h
  split at h
  all_goals first | decide | cases h

theorem printable_hex4 {a b d : Char} {n : Nat} (h : hex4 a b c d = some n) :
    Printable [a, b, c, d] := by
  simp only [hex4, Option.bind_eq_bind, Option.bind_eq_some_iff] at h
  obtain ⟨_, ha, _, hb, _, hc, _, hd, -⟩ := h
  exact .cons (printable_of_hexVal ha) (.cons (printable_of_hexVal hb)
    (.cons (printable_of_hexVal hc) (.cons (printable_of_hexVal hd) printable_nil)))

theorem CharText.printable {u : Str} (h : CharText c u) : Printable u := by
  cases h with
  | plain hc _ _ => exact .cons hc printable_nil
  | short he => exact .cons (by decide) (.cons (printable_of_shortEscape he) printable_nil)
  | unicode hx => exact .cons (by decide) (.cons (by decide) (printable_hex4 hx))
  | pair hhi _ _ hlo _ _ _ =>
    exact (Printable.cons (by decide) (.cons (by decide) (printable_hex4 hhi))).append
      (.cons (by decide) (.cons (by decide) (printable_hex4 hlo)))

theorem CharsText.printable {cs t : Str} (h : CharsText cs t) : Printable t := by
  induction h with
  | nil => exact printable_nil
  | cons hc _ ih => exact hc.printable.append ih

theorem StringText.printable {cs : Str} (h : StringText cs s) : Printable s := by
  obtain ⟨t, ht, rfl⟩ := h
  exact .cons (by decide) (ht.printable.append (.cons (by decide) printable_nil))

theorem CompactText.printable {N : Type} {numText : N → Str} {v : Json N}
    (h : CompactText numText v s) : Printable s := by
  have hclo : Closed (WriteTok numText) (· = []) fun _ => Printable := by
    refine ⟨?_, ?_, ?_, fun h => h.printable, fun hs ht => hs.append ht, fun ht => ⟨?_, ?_⟩⟩
    · rintro _ s rfl
      exact printable_nil
    · intro _
      unfold Printable
      decide
    · rintro _ n s ⟨hs, -⟩ c hc
      exact printable_of_isNumChar ((isNumber_chars hs).2 c hc)
    all_goals exact .cons (by decide) (ht.append (.cons (by decide) printable_nil))
  exact hclo.value 0 h

end Nasiko.Json
