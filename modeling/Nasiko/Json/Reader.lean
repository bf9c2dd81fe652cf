import Nasiko.Json.Text
import Nasiko.Text.Search

/-!
# A reader for JSON texts

A recursive-descent reader, and the proof that it reads exactly the texts of `DocText`:

* `readDoc_sound` — what it returns is a document the text denotes;
* `readDoc_complete` — it reads every text of every document.

Together they also say that a text denotes at most one document. The recursion is on a fuel
argument; twice the length of the text is always enough.
-/

namespace Nasiko.Json

open List Nat Text

/-! ## Strings -/

def readChar : Str → Option (Char × Str)
  | '\\' :: 'u' :: a :: b :: c :: d :: s => do
    let hi ← hex4 a b c d
    if 0xD800 ≤ hi ∧ hi < 0xDC00 then
      match s with
      | '\\' :: 'u' :: e :: f :: g :: h :: s => do
        let lo ← hex4 e f g h
        if 0xDC00 ≤ lo ∧ lo < 0xE000 then
          some (Char.ofNat (0x10000 + (hi - 0xD800) * 0x400 + (lo - 0xDC00)), s)
        else none
      | _ => none
    else if 0xDC00 ≤ hi ∧ hi < 0xE000 then none
    else some (Char.ofNat hi, s)
  | '\\' :: e :: s => (shortEscape e).map (·, s)
  | c :: s => if 0x20 ≤ c.toNat ∧ c ≠ '"' ∧ c ≠ '\\' then some (c, s) else none
  | [] => none

variable {c : Char} {n : Nat} {s r u : Str}

theorem hexVal_lt (h : hexVal c = some n) : n < 16 := by
  have h0 : ('0' : Char).toNat = 48 := rfl
  have ha : ('a' : Char).toNat = 97 := rfl
  have hA : ('A' : Char).toNat = 65 := rfl
  unfold hexVal at h
  split_ifs at h with h₁ h₂ h₃
  · cases h
    have : c.toNat ≤ 57 := h₁.2
    omega
  · cases h
    have : c.toNat ≤ 102 := h₂.2
    omega
  · cases h
    have : c.toNat ≤ 70 := h₃.2
    omega

theorem hex4_lt {a b d : Char} (h : hex4 a b c d = some n) : n < 0x10000 := by
  simp only [hex4, Option.pure_def, Option.bind_eq_bind, Option.bind_eq_some_iff,
    Option.some.injEq] at h
  obtain ⟨w, hw, x, hx, y, hy, z, hz, rfl⟩ := h
  have := hexVal_lt hw
  have := hexVal_lt hx
  have := hexVal_lt hy
  have := hexVal_lt hz
  omega

theorem toNat_ofNat_of_valid (h : n.isValidChar) : (Char.ofNat n).toNat = n := by
  rw [Char.ofNat, dif_pos h]
  rfl

theorem readChar_sound (h : readChar s = some (c, r)) : ∃ u, CharText c u ∧ s = u ++ r := by
  unfold readChar at h
  split at h
  · next a b c' d s' =>
    rw [Option.bind_eq_bind, Option.bind_eq_some_iff] at h
    obtain ⟨hi, hhi, h⟩ := h
    have hlt := hex4_lt hhi
    split_ifs at h with h₁ h₂
    · split at h
      · next e f g k s'' =>
        rw [Option.bind_eq_some_iff] at h
        obtain ⟨lo, hlo, h⟩ := h
        split_ifs at h with h₃
        obtain ⟨rfl, rfl⟩ := Prod.mk.inj (Option.some.inj h)
        refine ⟨_, .pair hhi h₁.1 h₁.2 hlo h₃.1 h₃.2 (toNat_ofNat_of_valid ?_), rfl⟩
        right
        omega
      · cases h
    · cases h
      refine ⟨_, .unicode ?_, rfl⟩
      rw [hhi, toNat_ofNat_of_valid]
      omega
  · next e s' =>
    obtain ⟨x, hx, h⟩ := Option.map_eq_some_iff.1 h
    cases h
    exact ⟨_, .short hx, rfl⟩
  · next x s' _ _ =>
    split_ifs at h with hx
    cases h
    exact ⟨_, .plain hx.1 hx.2.1 hx.2.2, rfl⟩
  · cases h

theorem readChar_complete (h : CharText c u) (r : Str) : readChar (u ++ r) = some (c, r) := by
  cases h with
  | plain h₁ h₂ h₃ =>
    simp [readChar, h₁, h₂, h₃]
  | @short e _ he =>
    have hne : e ≠ 'u' := by
      rintro rfl
      simp [shortEscape] at he
    rw [List.cons_append, List.cons_append, readChar]
    · simp [he]
    · intro a b c' d s' h
      exact fun _ => hne h
  | unicode hx =>
    -- A character is never a surrogate, so neither of the surrogate branches is taken.
    have hvalid : c.toNat.isValidChar := c.valid
    have hhi : ¬(0xD800 ≤ c.toNat ∧ c.toNat < 0xDC00) := by
      omega
    have hlo : ¬(0xDC00 ≤ c.toNat ∧ c.toNat < 0xE000) := by
      omega
    simp [readChar, hx, hhi, hlo]
  | pair hhi h₁ h₂ hlo h₃ h₄ hx =>
    simp [readChar, hhi, h₁, h₂, hlo, h₃, h₄, ← hx]

/-- Read the characters of a string, up to and including the closing quote. -/
def readChars : Nat → Str → Option (Str × Str)
  | 0, _ => none
  | n + 1, s =>
    match s with
    | '"' :: r => some ([], r)
    | s => do
      let (c, r) ← readChar s
      let (cs, r) ← readChars n r
      return (c :: cs, r)

theorem readChars_sound {cs : Str} (h : readChars n s = some (cs, r)) :
    ∃ t, CharsText cs t ∧ s = t ++ '"' :: r := by
  induction n generalizing s cs r with
  | zero => cases h
  | succ n ih =>
    unfold readChars at h
    split at h
    · cases h
      exact ⟨[], .nil, rfl⟩
    · simp only [Option.bind_eq_bind, Option.bind_eq_some_iff, Prod.exists] at h
      obtain ⟨c, r₁, hc, cs', r₂, hcs, rfl, rfl⟩ := h
      obtain ⟨u, hu, rfl⟩ := readChar_sound hc
      obtain ⟨t, ht, rfl⟩ := ih hcs
      exact ⟨u ++ t, .cons hu ht, by simp⟩

theorem charText_head (h : CharText c u) : ∃ x t, u = x :: t ∧ x ≠ '"' := by
  cases h with
  | plain _ h₂ _ => exact ⟨c, [], rfl, h₂⟩
  | short _ | unicode _ | pair => exact ⟨_, _, rfl, by decide⟩

theorem readChars_complete {cs t : Str} (h : CharsText cs t) (r : Str) :
    ∀ n, t.length < n → readChars n (t ++ '"' :: r) = some (cs, r) := by
  induction h with
  | nil =>
    intro n hn
    obtain ⟨n, rfl⟩ := Nat.exists_eq_succ_of_ne_zero (Nat.ne_of_gt hn)
    rfl
  | @cons c u cs t hu _ ih =>
    intro n hn
    obtain ⟨n, rfl⟩ := Nat.exists_eq_succ_of_ne_zero (Nat.ne_of_gt (Nat.zero_lt_of_lt hn))
    have hre := readChar_complete hu (t ++ '"' :: r)
    obtain ⟨x, w, rfl, hx⟩ := charText_head hu
    have hlen : t.length < n := by
      simp only [length_append, length_cons] at hn
      omega
    rw [cons_append] at *
    rw [readChars]
    · simp [hre, ih n hlen]
    · intro r' hr'
      exact hx (cons.inj hr').1

/-! ## Numbers -/

def readNumber {N : Type} (ofToken : Str → Option N) (s : Str) : Option (N × Str) :=
  if isNumber (s.takeWhile isNumChar) then
    (ofToken (s.takeWhile isNumChar)).map (·, s.dropWhile isNumChar)
  else none

/-- What follows a number must not look like more of it. -/
def NoNumChar (r : Str) : Prop := ∀ c ∈ r.head?, isNumChar c = false

theorem readNumber_sound {N : Type} {ofToken : Str → Option N} {n : N}
    (h : readNumber ofToken s = some (n, r)) : ∃ t, ReadTok ofToken n t ∧ s = t ++ r := by
  unfold readNumber at h
  split_ifs at h with hn
  obtain ⟨m, hm, h⟩ := Option.map_eq_some_iff.1 h
  cases h
  exact ⟨_, ⟨hn, hm⟩, takeWhile_append_dropWhile.symm⟩

theorem readNumber_complete {N : Type} {ofToken : Str → Option N} {t : Str} {n : N}
    (h : ReadTok ofToken n t) (hr : NoNumChar r) : readNumber ofToken (t ++ r) = some (n, r) := by
  obtain ⟨ht, hd⟩ := takeWhile_append_of_all (isNumber_chars h.1).2 hr
  simp [readNumber, ht, hd, h.1, h.2]

/-! ## Values -/

def skipBlank (s : Str) : Str := s.dropWhile isBlank

variable {N : Type} (ofToken : Str → Option N)

/-- `lit` at the front of a text. -/
def readLiteral (lit : Str) (v : Json N) (s : Str) : Option (Json N × Str) :=
  if lit.isPrefixOf s then some (v, s.drop lit.length) else none

mutual

def readValue : Nat → Str → Option (Json N × Str)
  | 0, _ => none
  | n + 1, s =>
    match s with
    | '"' :: t => (readChars (t.length + 1) t).map fun cr => (.string cr.1, cr.2)
    | '[' :: t =>
      match skipBlank t with
      | ']' :: r => some (.array [], r)
      | _ => (readItems n t).map fun vr => (.array vr.1, vr.2)
    | '{' :: t =>
      match skipBlank t with
      | '}' :: r => some (.object [], r)
      | _ => (readFields n t).map fun vr => (.object vr.1, vr.2)
    | 'n' :: t => readLiteral "null" .null ('n' :: t)
    | 't' :: t => readLiteral "true" (.bool true) ('t' :: t)
    | 'f' :: t => readLiteral "false" (.bool false) ('f' :: t)
    | s => (readNumber ofToken s).map fun nr => (.number nr.1, nr.2)

/-- Read the items of a nonempty array, up to and including the closing bracket. -/
def readItems : Nat → Str → Option (List (Json N) × Str)
  | 0, _ => none
  | n + 1, s => do
    let (v, r) ← readValue n (skipBlank s)
    match skipBlank r with
    | ',' :: r => do
      let (vs, r) ← readItems n r
      return (v :: vs, r)
    | ']' :: r => return ([v], r)
    | _ => none

/-- Read the fields of a nonempty object, up to and including the closing brace. -/
def readFields : Nat → Str → Option (List (Str × Json N) × Str)
  | 0, _ => none
  | n + 1, s =>
    match skipBlank s with
    | '"' :: t => do
      let (k, r) ← readChars (t.length + 1) t
      match skipBlank r with
      | ':' :: r => do
        let (v, r) ← readValue n (skipBlank r)
        match skipBlank r with
        | ',' :: r => do
          let (fs, r) ← readFields n r
          return ((k, v) :: fs, r)
        | '}' :: r => return ([(k, v)], r)
        | _ => none
      | _ => none
    | _ => none

end

/-- Read a whole text. -/
def readDoc (s : Str) : Option (Json N) := do
  let (v, r) ← readValue ofToken (2 * s.length + 1) (skipBlank s)
  if skipBlank r = [] then some v else none

/-! ## Soundness -/

theorem skipBlank_split (s : Str) : ∃ a, Blank a ∧ s = a ++ skipBlank s :=
  ⟨s.takeWhile isBlank, fun _ hc => mem_takeWhile_imp hc, takeWhile_append_dropWhile.symm⟩

variable {s r cs t lit : Str} {v : Json N} {vs : List (Json N)} {fs : List (Str × Json N)}

theorem readLiteral_sound {w : Json N} (h : readLiteral lit v s = some (w, r)) :
    w = v ∧ s = lit ++ r := by
  unfold readLiteral at h
  split_ifs at h with hp
  cases h
  exact ⟨rfl, (prefix_iff_eq_append.1 (List.isPrefixOf_iff_prefix.1 hp)).symm⟩

theorem readString_sound (h : readChars n s = some (cs, r)) :
    ∃ t, StringText cs t ∧ '"' :: s = t ++ r := by
  obtain ⟨t, ht, rfl⟩ := readChars_sound h
  exact ⟨_, ⟨t, ht, rfl⟩, by simp⟩

/-- A text read after skipping whitespace, with whitespace skipped after it. -/
theorem around_of_skip {P : Str → Prop} (ht : P t) (hs : skipBlank s = t ++ r) :
    ∃ u, Around Blank P u ∧ s = u ++ skipBlank r := by
  obtain ⟨a, ha, hsa⟩ := skipBlank_split s
  obtain ⟨b, hb, hrb⟩ := skipBlank_split r
  refine ⟨a ++ (t ++ b), ⟨a, t, b, ha, ht, hb, rfl⟩, ?_⟩
  rw [hsa, hs]
  nth_rewrite 1 [hrb]
  simp

/-- The three readers are sound with fuel `n`. -/
structure SoundAt (n : Nat) : Prop where
  value : ∀ {s v r}, readValue ofToken n s = some (v, r) →
    ∃ t, ValueText (ReadTok ofToken) Blank v t ∧ s = t ++ r
  items : ∀ {s vs r}, readItems ofToken n s = some (vs, r) →
    ∃ t, ItemsText (ReadTok ofToken) Blank vs t ∧ s = t ++ ']' :: r ∧ vs ≠ []
  fields : ∀ {s fs r}, readFields ofToken n s = some (fs, r) →
    ∃ t, FieldsText (ReadTok ofToken) Blank fs t ∧ s = t ++ '}' :: r ∧ fs ≠ []

variable {ofToken} {n : Nat}

theorem SoundAt.value_succ (ih : SoundAt ofToken n)
    (h : readValue ofToken (n + 1) s = some (v, r)) :
    ∃ t, ValueText (ReadTok ofToken) Blank v t ∧ s = t ++ r := by
  unfold readValue at h
  split at h
  · obtain ⟨⟨cs, r'⟩, hcs, h⟩ := Option.map_eq_some_iff.1 h
    cases h
    obtain ⟨t, ht, heq⟩ := readString_sound hcs
    exact ⟨t, by simpa [ValueText] using ht, heq⟩
  · next t =>
    split at h
    · next r' hsk =>
      cases h
      obtain ⟨a, ha, hta⟩ := skipBlank_split t
      refine ⟨'[' :: (a ++ [']']), ?_, by rw [hta, hsk]; simp⟩
      exact ⟨a, by rwa [ItemsText], rfl⟩
    · obtain ⟨⟨vs, r'⟩, hvs, h⟩ := Option.map_eq_some_iff.1 h
      cases h
      obtain ⟨u, hu, rfl, -⟩ := ih.items hvs
      refine ⟨'[' :: (u ++ [']']), ?_, by simp⟩
      exact ⟨u, hu, rfl⟩
  · next t =>
    split at h
    · next r' hsk =>
      cases h
      obtain ⟨a, ha, hta⟩ := skipBlank_split t
      refine ⟨'{' :: (a ++ ['}']), ?_, by rw [hta, hsk]; simp⟩
      exact ⟨a, by rwa [FieldsText], rfl⟩
    · obtain ⟨⟨fs, r'⟩, hfs, h⟩ := Option.map_eq_some_iff.1 h
      cases h
      obtain ⟨u, hu, rfl, -⟩ := ih.fields hfs
      refine ⟨'{' :: (u ++ ['}']), ?_, by simp⟩
      exact ⟨u, hu, rfl⟩
  · obtain ⟨rfl, heq⟩ := readLiteral_sound h
    exact ⟨_, by rw [ValueText], heq⟩
  · obtain ⟨rfl, heq⟩ := readLiteral_sound h
    exact ⟨_, by rw [ValueText], heq⟩
  · obtain ⟨rfl, heq⟩ := readLiteral_sound h
    exact ⟨_, by rw [ValueText], heq⟩
  · obtain ⟨⟨m, r'⟩, hm, h⟩ := Option.map_eq_some_iff.1 h
    cases h
    obtain ⟨t, ht, heq⟩ := readNumber_sound hm
    exact ⟨t, by simpa [ValueText] using ht, heq⟩

theorem SoundAt.items_succ (ih : SoundAt ofToken n)
    (h : readItems ofToken (n + 1) s = some (vs, r)) :
    ∃ t, ItemsText (ReadTok ofToken) Blank vs t ∧ s = t ++ ']' :: r ∧ vs ≠ [] := by
  rw [readItems, Option.bind_eq_bind, Option.bind_eq_some_iff] at h
  obtain ⟨⟨v, r₁⟩, hv, h⟩ := h
  obtain ⟨t, ht, hsk⟩ := ih.value hv
  obtain ⟨u, hu, hs⟩ := around_of_skip ht hsk
  simp only at h
  split at h
  · next r₂ hr₂ =>
    rw [Option.bind_eq_bind, Option.bind_eq_some_iff] at h
    obtain ⟨⟨ws, r₃⟩, hws, h⟩ := h
    cases h
    obtain ⟨t', ht', rfl, hne⟩ := ih.items hws
    refine ⟨u ++ ',' :: t', ?_, by rw [hs, hr₂]; simp, by simp⟩
    exact ⟨u, hu, Or.inr ⟨hne, t', ht', rfl⟩⟩
  · next r₂ hr₂ =>
    cases h
    refine ⟨u, ?_, by rw [hs, hr₂], by simp⟩
    exact ⟨u, hu, Or.inl ⟨rfl, rfl⟩⟩
  · cases h

theorem SoundAt.fields_succ (ih : SoundAt ofToken n)
    (h : readFields ofToken (n + 1) s = some (fs, r)) :
    ∃ t, FieldsText (ReadTok ofToken) Blank fs t ∧ s = t ++ '}' :: r ∧ fs ≠ [] := by
  unfold readFields at h
  split at h
  · next t₀ hski₀ =>
    rw [Option.bind_eq_bind, Option.bind_eq_some_iff] at h
    obtain ⟨⟨k, r₀⟩, hk, h⟩ := h
    obtain ⟨q, hq, heq⟩ := readString_sound hk
    obtain ⟨p, hp, hs⟩ := around_of_skip hq (hski₀.trans heq)
    simp only at h
    split at h
    · next r₁ hr₁ =>
      rw [Option.bind_eq_bind, Option.bind_eq_some_iff] at h
      obtain ⟨⟨v, r₂⟩, hv, h⟩ := h
      obtain ⟨t, ht, hsk⟩ := ih.value hv
      obtain ⟨u, hu, hs'⟩ := around_of_skip ht hsk
      split at h
      · next r₃ hr₃ =>
        rw [Option.bind_eq_bind, Option.bind_eq_some_iff] at h
        obtain ⟨⟨gs, r₄⟩, hgs, h⟩ := h
        cases h
        obtain ⟨t', ht', rfl, hne⟩ := ih.fields hgs
        refine ⟨p ++ ':' :: (u ++ ',' :: t'), ?_, by rw [hs, hr₁, hs', hr₃]; simp, by simp⟩
        exact ⟨p, u, hp, hu, Or.inr ⟨hne, t', ht', rfl⟩⟩
      · next r₃ hr₃ =>
        cases h
        refine ⟨p ++ ':' :: u, ?_, by rw [hs, hr₁, hs', hr₃]; simp, by simp⟩
        exact ⟨p, u, hp, hu, Or.inl ⟨rfl, rfl⟩⟩
      · cases h
    · cases h
  · cases h

theorem soundAt : SoundAt ofToken n := by
  induction n with
  | zero => constructor <;> intro _ _ _ h <;> cases h
  | succ n ih => exact ⟨ih.value_succ, ih.items_succ, ih.fields_succ⟩

/-- **Soundness.** What the reader returns is a document the text denotes. -/
theorem readDoc_sound (h : readDoc ofToken s = some v) : DocText ofToken v s := by
  rw [readDoc, Option.bind_eq_bind, Option.bind_eq_some_iff] at h
  obtain ⟨⟨w, r⟩, hw, h⟩ := h
  simp only at h
  split_ifs at h with hr
  cases h
  obtain ⟨t, ht, hsk⟩ := soundAt.value hw
  obtain ⟨u, hu, hs⟩ := around_of_skip ht hsk
  rw [hr, List.append_nil] at hs
  exact hs ▸ hu

/-! ## Completeness -/

/-- A text that does not start with whitespace. -/
def NoBlank (s : Str) : Prop := ∀ c ∈ s.head?, isBlank c = false

theorem skipBlank_append {a : Str} (ha : Blank a) (hs : NoBlank s) : skipBlank (a ++ s) = s :=
  (Text.takeWhile_append_of_all ha hs).2

/-- How a value may start: not with whitespace and not with a closing bracket. -/
def StartsValue (s : Str) : Prop := ∃ c t, s = c :: t ∧ isBlank c = false ∧ c ≠ ']' ∧ c ≠ '}'

theorem startsValue_of_numChar (h : isNumChar c = true) :
    isBlank c = false ∧ c ≠ ']' ∧ c ≠ '}' := by
  refine ⟨?_, ?_, ?_⟩
  · rw [← Bool.not_eq_true]
    intro hb
    simp only [isBlank, Bool.or_eq_true, beq_iff_eq] at hb
    rcases hb with ((rfl | rfl) | rfl) | rfl <;> exact absurd h (by decide)
  all_goals
    rintro rfl
    exact absurd h (by decide)

theorem stringText_cons (h : StringText cs t) : ∃ u, t = '"' :: u := by
  obtain ⟨u, -, rfl⟩ := h
  exact ⟨_, rfl⟩

theorem valueText_starts {tok : N → Str → Prop} {blank : Str → Prop}
    (htok : ∀ {n t}, tok n t → isNumber t = true) (h : ValueText tok blank v t) :
    StartsValue t := by
  cases v with
  | null =>
    exact ⟨'n', _, h, by decide, by decide, by decide⟩
  | bool b =>
    cases b <;> rw [ValueText] at h
    · exact ⟨'f', _, h, by decide, by decide, by decide⟩
    · exact ⟨'t', _, h, by decide, by decide, by decide⟩
  | number m =>
    obtain ⟨hne, hall⟩ := isNumber_chars (htok h)
    obtain ⟨c, t', rfl⟩ := exists_cons_of_ne_nil hne
    exact ⟨c, t', rfl, startsValue_of_numChar (hall c mem_cons_self)⟩
  | string cs =>
    obtain ⟨u, rfl⟩ := stringText_cons h
    exact ⟨'"', u, rfl, by decide, by decide, by decide⟩
  | array vs =>
    obtain ⟨u, -, rfl⟩ := h
    exact ⟨'[', _, rfl, by decide, by decide, by decide⟩
  | object fs =>
    obtain ⟨u, -, rfl⟩ := h
    exact ⟨'{', _, rfl, by decide, by decide, by decide⟩

theorem StartsValue.noBlank (h : StartsValue s) {r : Str} : NoBlank (s ++ r) := by
  obtain ⟨c, t, rfl, hc, -, -⟩ := h
  exact Text.head?_cons_false _ hc

theorem noNumChar_of_blank {b : Str} (hb : Blank b) (hr : NoNumChar r) : NoNumChar (b ++ r) := by
  cases b with
  | nil => exact hr
  | cons c b =>
    refine Text.head?_cons_false _ ?_
    rw [← Bool.not_eq_true]
    intro hn
    have := (startsValue_of_numChar hn).1
    rw [hb c List.mem_cons_self] at this
    cases this

theorem readString_complete (h : StringText cs t) :
    ∃ u, t = '"' :: u ∧ readChars ((u ++ r).length + 1) (u ++ r) = some (cs, r) := by
  obtain ⟨u, hu, rfl⟩ := h
  refine ⟨u ++ ['"'], rfl, ?_⟩
  have := readChars_complete hu r ((u ++ ['"'] ++ r).length + 1) (by simp)
  simpa using this

theorem readLiteral_append : readLiteral lit v (lit ++ r) = some (v, r) := by
  have hp : lit.isPrefixOf (lit ++ r) = true :=
    isPrefixOf_iff_prefix.2 (prefix_append lit r)
  rw [readLiteral, if_pos hp, drop_left]

variable (ofToken) in
/-- The value reader reads every text of `v`, whatever follows. -/
def Complete (v : Json N) : Prop :=
  ∀ {t : Str} (r : Str) {n : Nat}, ValueText (ReadTok ofToken) Blank v t → NoNumChar r →
    2 * t.length ≤ n → readValue ofToken n (t ++ r) = some (v, r)

/-- Reading one value with whitespace around it, in front of a separator. -/
theorem Complete.around (hv : Complete ofToken v)
    (hu : Around Blank (ValueText (ReadTok ofToken) Blank v) u) (r : Str)
    (hc : isNumChar c = false) (hb : isBlank c = false) (hn : 2 * u.length ≤ n) :
    ∃ r', readValue ofToken n (skipBlank (u ++ c :: r)) = some (v, r') ∧ skipBlank r' = c :: r := by
  obtain ⟨a, t, b, ha, ht, hb', rfl⟩ := hu
  have hst := valueText_starts (fun h => h.1) ht
  refine ⟨b ++ c :: r, ?_, skipBlank_append hb' (head?_cons_false r hb)⟩
  rw [show a ++ (t ++ b) ++ c :: r = a ++ (t ++ (b ++ c :: r)) by simp,
    skipBlank_append ha (hst.noBlank)]
  refine hv _ ht (noNumChar_of_blank hb' (head?_cons_false r hc)) ?_
  simp only [length_append] at hn
  omega

theorem readItems_complete (hvs : ∀ v ∈ vs, Complete ofToken v) :
    ∀ {t : Str} (r : Str) {n : Nat}, ItemsText (ReadTok ofToken) Blank vs t → vs ≠ [] →
      2 * t.length + 1 ≤ n → readItems ofToken n (t ++ ']' :: r) = some (vs, r) := by
  induction vs with
  | nil => exact fun _ _ _ h => absurd rfl h
  | cons v vs ih =>
    intro t r n h _ hn
    obtain ⟨n, rfl⟩ := exists_eq_succ_of_ne_zero (show n ≠ 0 by omega)
    obtain ⟨hv, hvs⟩ := forall_mem_cons.1 hvs
    obtain ⟨u, hu, ⟨rfl, rfl⟩ | ⟨hne, t', ht', rfl⟩⟩ := h
    · obtain ⟨r', hre, hsk⟩ := hv.around hu (c := ']') r (by decide) (by decide)
        (show 2 * t.length ≤ n by omega)
      simp [readItems, hre, hsk]
    · simp only [length_append, length_cons] at hn
      obtain ⟨r', hre, hsk⟩ := hv.around hu (c := ',') (t' ++ ']' :: r) (by decide) (by decide)
        (show 2 * u.length ≤ n by omega)
      have htail := ih hvs r ht' hne (show 2 * t'.length + 1 ≤ n by omega)
      simp [readItems, hre, hsk, htail]

theorem readFields_complete (hfs : ∀ f ∈ fs, Complete ofToken f.2) :
    ∀ {t : Str} (r : Str) {n : Nat}, FieldsText (ReadTok ofToken) Blank fs t → fs ≠ [] →
      2 * t.length + 1 ≤ n → readFields ofToken n (t ++ '}' :: r) = some (fs, r) := by
  induction fs with
  | nil => exact fun _ _ _ h => absurd rfl h
  | cons f fs ih =>
    obtain ⟨k, v⟩ := f
    intro t r n h _ hn
    obtain ⟨n, rfl⟩ := exists_eq_succ_of_ne_zero (show n ≠ 0 by omega)
    obtain ⟨hv, hfs⟩ := forall_mem_cons.1 hfs
    obtain ⟨p, u, ⟨a, q, b, ha, hq, hb, rfl⟩, hu, h⟩ := h
    -- The key, up to the colon, is read the same way in both cases.
    have hkey : ∀ w : Str, ∃ q' r', skipBlank (a ++ (q ++ b) ++ ':' :: w) = '"' :: q' ∧
        readChars (q'.length + 1) q' = some (k, r') ∧ skipBlank r' = ':' :: w := by
      intro w
      obtain ⟨q', rfl, hq'⟩ := readString_complete hq
      refine ⟨q' ++ (b ++ ':' :: w), b ++ ':' :: w, ?_, hq',
        skipBlank_append hb (Text.head?_cons_false w rfl)⟩
      rw [show a ++ ('"' :: q' ++ b) ++ ':' :: w = a ++ ('"' :: (q' ++ (b ++ ':' :: w))) by simp]
      exact skipBlank_append ha (Text.head?_cons_false _ rfl)
    obtain ⟨rfl, rfl⟩ | ⟨hne, t', ht', rfl⟩ := h
    · obtain ⟨q', r₁, hski₁, hk, hski₂⟩ := hkey (u ++ '}' :: r)
      simp only [List.length_append, List.length_cons] at hn
      obtain ⟨r', hre, hsk⟩ := hv.around hu (c := '}') r (by decide) (by decide)
        (show 2 * u.length ≤ n by omega)
      have hs : a ++ (q ++ b) ++ ':' :: u ++ '}' :: r = a ++ (q ++ b) ++
        ':' :: (u ++ '}' :: r) := by
        simp
      rw [hs, readFields, hski₁]
      simp [hk, hski₂, hre, hsk]
    · obtain ⟨q', r₁, hski₁, hk, hski₂⟩ := hkey (u ++ ',' :: (t' ++ '}' :: r))
      simp only [List.length_append, List.length_cons] at hn
      obtain ⟨r', hre, hsk⟩ := hv.around hu (c := ',') (t' ++ '}' :: r) (by decide) (by decide)
        (show 2 * u.length ≤ n by omega)
      have htail := ih hfs r ht' hne (show 2 * t'.length + 1 ≤ n by omega)
      have hs : a ++ (q ++ b) ++ ':' :: (u ++ ',' :: t') ++ '}' :: r =
          a ++ (q ++ b) ++ ':' :: (u ++ ',' :: (t' ++ '}' :: r)) := by
        simp
      rw [hs, readFields, hski₁]
      simp [hk, hski₂, hre, hsk, htail]

theorem itemsText_starts (h : ItemsText (ReadTok ofToken) Blank (v :: vs) t) :
    ∀ r', skipBlank (t ++ r) ≠ ']' :: r' := by
  obtain ⟨_, ⟨a, w, b, ha, hw, -, rfl⟩, h⟩ := h
  have hst := valueText_starts (fun h => h.1) hw
  obtain ⟨z, hz⟩ : ∃ z, t ++ r = a ++ (w ++ z) := by
    obtain ⟨-, rfl⟩ | ⟨-, t', -, rfl⟩ := h
    · exact ⟨b ++ r, by simp⟩
    · exact ⟨b ++ ',' :: t' ++ r, by simp⟩
  rw [hz, skipBlank_append ha (hst.noBlank)]
  obtain ⟨c, w', rfl, -, hc, -⟩ := hst
  exact fun r' h => hc (List.cons.inj h).1

theorem fieldsText_starts {f : Str × Json N} (h : FieldsText (ReadTok ofToken) Blank (f :: fs) t) :
    ∀ r', skipBlank (t ++ r) ≠ '}' :: r' := by
  obtain ⟨_, u, ⟨a, q, b, ha, hq, -, rfl⟩, -, h⟩ := h
  obtain ⟨q', rfl⟩ := stringText_cons hq
  obtain ⟨z, hz⟩ : ∃ z, t ++ r = a ++ ('"' :: z) := by
    obtain ⟨-, rfl⟩ | ⟨-, t', -, rfl⟩ := h
    · exact ⟨q' ++ b ++ ':' :: u ++ r, by simp⟩
    · exact ⟨q' ++ b ++ ':' :: (u ++ ',' :: t') ++ r, by simp⟩
  rw [hz, skipBlank_append ha (head?_cons_false z rfl)]
  exact fun r' h => absurd (cons.inj h).1 (by decide)

theorem complete (v : Json N) : Complete ofToken v := by
  induction v using Json.induct with
  | null =>
    intro t r n h _ hn
    subst h
    obtain ⟨n, rfl⟩ := exists_eq_succ_of_ne_zero (show n ≠ 0 by simp at hn; omega)
    exact readLiteral_append
  | bool b =>
    intro t r n h _ hn
    cases b <;> rw [ValueText] at h <;> subst h <;>
      obtain ⟨n, rfl⟩ := exists_eq_succ_of_ne_zero (show n ≠ 0 by simp at hn; omega) <;>
      exact readLiteral_append
  | number m =>
    intro t r n h hr hn
    obtain ⟨hne, hall⟩ := isNumber_chars h.1
    have hre := readNumber_complete h hr
    obtain ⟨c, t, rfl⟩ := exists_cons_of_ne_nil hne
    have hc := hall c mem_cons_self
    obtain ⟨n, rfl⟩ := exists_eq_succ_of_ne_zero (show n ≠ 0 by simp at hn; omega)
    -- None of the characters that start another kind of value is a number character.
    rw [readValue, hre]
    · rfl
    all_goals
      intro s' hs'
      obtain ⟨rfl, -⟩ := cons.inj hs'
      exact absurd hc (by decide)
  | string cs =>
    intro t r n h _ hn
    obtain ⟨u, rfl, hu⟩ := readString_complete h
    obtain ⟨n, rfl⟩ := exists_eq_succ_of_ne_zero (show n ≠ 0 by simp at hn; omega)
    rw [cons_append, readValue, hu]
    rfl
  | array vs ih =>
    intro t r n h _ hn
    obtain ⟨u, hu, rfl⟩ := h
    simp only [length_cons, length_append] at hn
    obtain ⟨n, rfl⟩ := exists_eq_succ_of_ne_zero (show n ≠ 0 by omega)
    rw [show '[' :: (u ++ [']']) ++ r = '[' :: (u ++ ']' :: r) by simp]
    cases vs with
    | nil =>
      have hsk : skipBlank (u ++ ']' :: r) = ']' :: r :=
        skipBlank_append hu (head?_cons_false r rfl)
      rw [readValue, hsk]
      rfl
    | cons v vs =>
      have hre := readItems_complete ih r hu (by simp) (show 2 * u.length + 1 ≤ n by omega)
      rw [readValue]
      split
      · next r' hsk => exact absurd hsk (itemsText_starts hu r')
      · rw [hre]
        rfl
  | object fs ih =>
    intro t r n h _ hn
    obtain ⟨u, hu, rfl⟩ := h
    simp only [length_cons, length_append] at hn
    obtain ⟨n, rfl⟩ := exists_eq_succ_of_ne_zero (show n ≠ 0 by omega)
    rw [show '{' :: (u ++ ['}']) ++ r = '{' :: (u ++ '}' :: r) by simp]
    cases fs with
    | nil =>
      have hsk : skipBlank (u ++ '}' :: r) = '}' :: r :=
        skipBlank_append hu (head?_cons_false r rfl)
      rw [readValue, hsk]
      rfl
    | cons f fs =>
      have hre := readFields_complete ih r hu (by simp) (show 2 * u.length + 1 ≤ n by omega)
      rw [readValue]
      split
      · next r' hsk => exact absurd hsk (fieldsText_starts hu r')
      · rw [hre]
        rfl

/-- **Completeness.** The reader reads every text of every document. -/
theorem readDoc_complete (h : DocText ofToken v s) : readDoc ofToken s = some v := by
  obtain ⟨a, t, b, ha, ht, hb, rfl⟩ := h
  have hst := valueText_starts (fun h => h.1) ht
  have hr : NoNumChar b := by
    simpa using noNumChar_of_blank hb (r := []) (by simp [NoNumChar])
  have hsk : skipBlank b = [] := by
    simpa using skipBlank_append hb (s := []) (by simp [NoBlank])
  have hre : readValue ofToken (2 * (a ++ (t ++ b)).length + 1) (t ++ b) = some (v, b) := by
    refine complete v b ht hr ?_
    simp only [length_append]
    omega
  rw [readDoc, skipBlank_append ha (hst.noBlank), hre]
  simp [hsk]

end Nasiko.Json
