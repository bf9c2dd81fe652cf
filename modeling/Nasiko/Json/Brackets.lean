import Nasiko.Json.Text

/-!
# Counting brackets

A scanner that wants to know where a JSON value ends need not parse it: it counts brackets and
skips over strings. `Nesting.step` is one character of that count, `cutAfter stop` cuts a text
behind the first character at which `stop` holds.

That the count and the grammar agree is `closed_keeps`: a scanner that is inside some bracket,
reads a value and is not told to stop while something is open, comes back to where it was.
`cutAfter_object`, `cutAfter_array` and `cutAfter_string` then say where the scanner stops.
-/

namespace Nasiko.Json

open Option List

/-- What the scanner knows after some characters. -/
structure Nesting where
  depth : Nat
  inString : Bool
  escaped : Bool
  deriving DecidableEq

namespace Nesting

/-- Outside of any string, at a depth. -/
def outside (d : Nat) : Nesting := ⟨d, false, false⟩

/-- Inside a string that stands at a depth. -/
def inside (d : Nat) : Nesting := ⟨d, true, false⟩

/-- One character. -/
def step (b : Nesting) (c : Char) : Nesting :=
  if b.inString then
    if b.escaped then { b with escaped := false }
    else if c = '\\' then { b with escaped := true }
    else if c = '"' then { b with inString := false }
    else b
  else if c = '"' then { b with inString := true }
  else if c = '{' ∨ c = '[' then { b with depth := b.depth + 1 }
  else if c = '}' ∨ c = ']' then { b with depth := b.depth - 1 }
  else b

/-- Some string or bracket is open. -/
def isOpen (b : Nesting) : Bool := b.inString || 0 < b.depth

/-- Reading `t` leads from `b` to `b'`, with something open after every character. -/
def Keeps : Nesting → Str → Nesting → Prop
  | b, [], b' => b = b'
  | b, c :: t, b' => (b.step c).isOpen = true ∧ Keeps (b.step c) t b'

variable {b b' : Nesting}

theorem Keeps.append {b'' : Nesting} {s t : Str} (hs : Keeps b s b') (ht : Keeps b' t b'') :
    Keeps b (s ++ t) b'' := by
  induction s generalizing b with
  | nil => exact hs ▸ ht
  | cons c s ih => exact ⟨hs.1, ih hs.2⟩

theorem keeps_one {c : Char} (h : b.step c = b') (ho : b'.isOpen = true) :
    Keeps b [c] b' := ⟨h ▸ ho, h⟩

end Nesting

open Nesting

/-! ## Cutting -/

section

variable (stop : Nesting → Char → Bool)

/-- Cut a text behind the first character at which `stop` holds. -/
def cutAfter : Nesting → Str → Option (Str × Str)
  | _, [] => none
  | b, c :: s =>
    if stop b c then some ([c], s)
    else (cutAfter (b.step c) s).map fun p => (c :: p.1, p.2)

variable {stop} {b b' : Nesting} {s p r : Str}

section

variable (h : cutAfter stop b s = some (p, r))

include h

theorem cutAfter_sound : s = p ++ r ∧ ∃ q c b', p = q ++ [c] ∧ stop b' c = true := by
  induction s generalizing b p r with
  | nil => cases h
  | cons c s ih =>
    rw [cutAfter] at h
    split_ifs at h with hc
    · cases h
      exact ⟨rfl, [], c, b, rfl, hc⟩
    · obtain ⟨⟨p', r'⟩, hp, heq⟩ := map_eq_some_iff.1 h
      cases heq
      obtain ⟨rfl, q, c', b', rfl, hc'⟩ := ih hp
      exact ⟨rfl, c :: q, c', b', rfl, hc'⟩

/-- The place of the cut does not change when the text grows. -/
theorem cutAfter_append (x : Str) : cutAfter stop b (s ++ x) = some (p, r ++ x) := by
  induction s generalizing b p r with
  | nil => cases h
  | cons c s ih =>
    rw [cutAfter] at h
    rw [cons_append, cutAfter]
    split_ifs at h ⊢ with hc
    · cases h
      rfl
    · obtain ⟨⟨p', r'⟩, hp, heq⟩ := map_eq_some_iff.1 h
      cases heq
      rw [ih hp]
      rfl

theorem cutAfter_self : cutAfter stop b p = some (p, []) := by
  induction s generalizing b p r with
  | nil => cases h
  | cons c s ih =>
    rw [cutAfter] at h
    split_ifs at h with hc
    · cases h
      rw [cutAfter, if_pos hc]
    · obtain ⟨⟨p', r'⟩, hp, heq⟩ := map_eq_some_iff.1 h
      cases heq
      rw [cutAfter, if_neg hc, ih hp]
      rfl

end

variable (hst : ∀ b c, stop b c = true → (b.step c).isOpen = false)
include hst

/-- The scanner runs through a text that keeps something open. -/
theorem cutAfter_of_keeps {t : Str} (h : Keeps b t b') (r : Str) :
    cutAfter stop b (t ++ r) = (cutAfter stop b' r).map fun p => (t ++ p.1, p.2) := by
  induction t generalizing b with
  | nil =>
    obtain rfl : b = b' := h
    cases hcut : cutAfter stop b r <;> simp [hcut]
  | cons c t ih =>
    have hc : ¬ stop b c = true := fun hc => by
      have := hst b c hc
      rw [h.1] at this
      cases this
    rw [cons_append, cutAfter, if_neg hc, ih h.2]
    cases cutAfter stop b' r <;> simp

/-- A text that keeps something open, then a character at which the scanner stops. -/
theorem cutAfter_of_keeps_stop {t : Str} {c : Char} (h : Keeps b t b') (hc : stop b' c = true)
    (r : Str) : cutAfter stop b (t ++ [c] ++ r) = some (t ++ [c], r) := by
  rw [append_assoc, cutAfter_of_keeps hst h, singleton_append, cutAfter, if_pos hc]
  rfl

end

/-! ## The count agrees with the grammar -/

/-- A character that is neither a bracket nor a quote. -/
def isNeutral (c : Char) : Bool :=
  !(c == '"' || c == '{' || c == '[' || c == '}' || c == ']')

variable {c : Char} {d : Nat}

theorem step_neutral (h : isNeutral c = true) : (outside d).step c = outside d := by
  simp only [isNeutral, Bool.not_eq_true', Bool.or_eq_false_iff, beq_eq_false_iff_ne] at h
  obtain ⟨⟨⟨⟨h₁, h₂⟩, h₃⟩, h₄⟩, h₅⟩ := h
  simp [Nesting.step, outside, h₁, h₂, h₃, h₄, h₅]

theorem isOpen_outside : (outside (d + 1)).isOpen = true := by
  simp [outside, isOpen]

theorem keeps_neutral {s : Str} (h : ∀ c ∈ s, isNeutral c = true) :
    Keeps (outside (d + 1)) s (outside (d + 1)) := by
  induction s with
  | nil => exact rfl
  | cons c s ih =>
    obtain ⟨hc, hs⟩ := List.forall_mem_cons.1 h
    exact (keeps_one (step_neutral hc) isOpen_outside).append (ih hs)

theorem isNeutral_of_isBlank (h : isBlank c = true) : isNeutral c = true := by
  simp only [isBlank, Bool.or_eq_true, beq_iff_eq] at h
  rcases h with ((rfl | rfl) | rfl) | rfl <;> rfl

theorem step_plain (hq : c ≠ '"') (hb : c ≠ '\\') : (inside d).step c = inside d := by
  simp [Nesting.step, inside, hq, hb]

theorem keeps_escape (d : Nat) (e : Char) : Keeps (inside d) ['\\', e] (inside d) := by
  have h₁ : (inside d).step '\\' = ⟨d, true, true⟩ := rfl
  have h₂ : (⟨d, true, true⟩ : Nesting).step e = inside d := rfl
  exact (keeps_one h₁ rfl).append (keeps_one h₂ rfl)

theorem ne_of_hexVal {n : Nat} (h : hexVal c = some n) : c ≠ '"' ∧ c ≠ '\\' := by
  constructor <;> rintro rfl <;> simp [hexVal] at h

theorem keeps_hex4 {a b e : Char} {n : Nat} (h : hex4 a b c e = some n) :
    Keeps (inside d) [a, b, c, e] (inside d) := by
  simp only [hex4, Option.bind_eq_bind, Option.bind_eq_some_iff] at h
  obtain ⟨_, ha, _, hb, _, hc, _, he, -⟩ := h
  have key : ∀ {x : Char} {k : Nat}, hexVal x = some k → Keeps (inside d) [x] (inside d) :=
    fun hx => keeps_one (step_plain (ne_of_hexVal hx).1 (ne_of_hexVal hx).2) rfl
  exact (key ha).append ((key hb).append ((key hc).append (key he)))

theorem CharText.keeps {u : Str} (h : CharText c u) (d : Nat) : Keeps (inside d) u (inside d) := by
  cases h with
  | plain _ hq hb => exact keeps_one (step_plain hq hb) rfl
  | short _ => exact keeps_escape d _
  | unicode hx => exact (keeps_escape d 'u').append (keeps_hex4 hx)
  | pair hhi _ _ hlo _ _ _ =>
    exact ((keeps_escape d 'u').append (keeps_hex4 hhi)).append
      ((keeps_escape d 'u').append (keeps_hex4 hlo))

theorem CharsText.keeps {cs t : Str} (h : CharsText cs t) (d : Nat) :
    Keeps (inside d) t (inside d) := by
  induction h with
  | nil => exact rfl
  | cons hc _ ih => exact (hc.keeps d).append ih

theorem StringText.keeps {cs s : Str} (h : StringText cs s) (d : Nat) :
    Keeps (outside (d + 1)) s (outside (d + 1)) := by
  obtain ⟨t, ht, rfl⟩ := h
  have hop : Keeps (outside (d + 1)) ['"'] (inside (d + 1)) := keeps_one rfl rfl
  have hclo : Keeps (inside (d + 1)) ['"'] (outside (d + 1)) :=
    keeps_one rfl isOpen_outside
  exact hop.append ((ht.keeps _).append hclo)

variable {N : Type} {tok : N → Str → Prop} {blank : Str → Prop} {t : Str} {d : Nat}
  {vs : List (Json N)} {fs : List (Str × Json N)}
  (htok : ∀ n s, tok n s → ∀ c ∈ s, isNeutral c = true)
  (hbla : ∀ s, blank s → ∀ c ∈ s, isNeutral c = true)
include htok hbla

/-- **The count agrees with the grammar.** Inside a bracket, the text of a value leaves the
scanner where it was. -/
theorem closed_keeps : Closed tok blank fun d t => Keeps (outside (d + 1)) t (outside (d + 1)) := by
  refine ⟨fun h => keeps_neutral (hbla _ h), fun d s hs => ?_,
    fun h => keeps_neutral (htok _ _ h), fun h => h.keeps _, fun hs ht => hs.append ht,
    fun ht => ⟨?_, ?_⟩⟩
  · have hwor : ∀ s ∈ (["null", "true", "false", ",", ":"] : List Str),
      ∀ c ∈ s, isNeutral c = true := by decide
    exact keeps_neutral (hwor s hs)
  all_goals exact ⟨isOpen_outside, ht.append ⟨isOpen_outside, rfl⟩⟩

variable {stop : Nesting → Char → Bool} (hst : ∀ b c, stop b c = true → (b.step c).isOpen = false)
include hst

theorem cutAfter_object (h : ValueText tok blank (.object fs) t)
    (hc : stop (outside 1) '}' = true) (r : Str) :
    cutAfter stop (outside 0) (t ++ r) = some (t, r) := by
  obtain ⟨u, hu, rfl⟩ := h
  have hop : Keeps (outside 0) ['{'] (outside 1) := keeps_one rfl isOpen_outside
  have hkeep := hop.append
    ((closed_keeps htok hbla).fields (fun f _ s => (closed_keeps htok hbla).value 0) hu)
  exact cutAfter_of_keeps_stop hst hkeep hc r

theorem cutAfter_array (h : ValueText tok blank (.array vs) t)
    (hc : stop (outside 1) ']' = true) (r : Str) :
    cutAfter stop (outside 0) (t ++ r) = some (t, r) := by
  obtain ⟨u, hu, rfl⟩ := h
  have hop : Keeps (outside 0) ['['] (outside 1) := keeps_one rfl isOpen_outside
  have hkeep := hop.append
    ((closed_keeps htok hbla).items (fun v _ s => (closed_keeps htok hbla).value 0) hu)
  exact cutAfter_of_keeps_stop hst hkeep hc r

omit htok hbla in
theorem cutAfter_string {cs : Str} (h : StringText cs t) (hc : stop (inside 0) '"' = true)
    (r : Str) : cutAfter stop (outside 0) (t ++ r) = some (t, r) := by
  obtain ⟨u, hu, rfl⟩ := h
  have hop : Keeps (outside 0) ['"'] (inside 0) := keeps_one rfl rfl
  exact cutAfter_of_keeps_stop hst (hop.append (hu.keeps 0)) hc r

end Nasiko.Json
