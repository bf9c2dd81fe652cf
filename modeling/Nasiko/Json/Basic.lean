import Mathlib.Tactic
import Mathlib.Data.Char
import Mathlib.Data.List.Lex
import Mathlib.Data.List.Sort

/-!
# JSON documents and ordered maps

A document is a tree with the keys of every object in the order they were written, repeats
included. What a program keeps of an object is an *ordered map*: an association list whose keys
are strictly increasing, so that equal maps are equal lists. `Json.toValue` goes from the one to
the other, and `Json.Canonical` says that a tree is already in the second form.

Strings are lists of characters. Rust orders strings by their UTF-8 bytes, which is the order of
the code points and so the lexicographic order used here.
-/

namespace Nasiko

open List

/-- A string, as the list of its characters. -/
abbrev Str := List Char

/-- A literal stands for its characters. -/
instance : Coe String Str := ⟨String.toList⟩

/-- A property of all characters of a text is decided by going through the text, whatever other
way there is to decide a property of all characters. -/
instance (priority := high) Str.decidableForallMem (p : Char → Prop) [DecidablePred p] (s : Str) :
    Decidable (∀ c ∈ s, p c) :=
  List.decidableBAll p s

instance (priority := high) Str.decidableMem (s : Str) (l : List Str) : Decidable (s ∈ l) :=
  inferInstanceAs (Decidable (s ∈ l))

/-- `char::is_whitespace`. -/
def Str.isWhitespace (c : Char) : Bool :=
  let n := c.toNat
  (9 ≤ n && n ≤ 13) || n = 0x20 || n = 0x85 || n = 0xA0 || n = 0x1680 ||
    (0x2000 ≤ n && n ≤ 0x200A) || n = 0x2028 || n = 0x2029 || n = 0x202F || n = 0x205F || n = 0x3000

/-- `char::is_ascii_hexdigit`. -/
def Str.isHexDigit (c : Char) : Bool := c.isDigit || ('a' ≤ c && c ≤ 'f') || ('A' ≤ c && c ≤ 'F')

/-- `str::to_ascii_lowercase`. -/
def Str.toAsciiLowercase (s : Str) : Str := s.map Char.toLower

/-- `str::trim`. -/
def Str.trim (s : Str) : Str :=
  ((s.dropWhile Str.isWhitespace).reverse.dropWhile Str.isWhitespace).reverse

def Str.utf8Len (s : Str) : Nat := (s.map Char.utf8Size).sum

@[simp] theorem utf8Len_cons (c : Char) (s : Str) :
    Str.utf8Len (c :: s) = c.utf8Size + Str.utf8Len s := by
  simp [Str.utf8Len]

@[simp] theorem utf8Len_append (s t : Str) :
    Str.utf8Len (s ++ t) = Str.utf8Len s + Str.utf8Len t := by
  simp [Str.utf8Len]

theorem length_le_utf8Len (s : Str) : s.length ≤ Str.utf8Len s := by
  induction s with
  | nil => simp
  | cons c s ih =>
    have hc := Char.utf8Size_pos c
    simp only [length_cons, utf8Len_cons]
    omega

theorem utf8Len_le_of_suffix {s t : Str} (h : s <:+ t) : Str.utf8Len s ≤ Str.utf8Len t := by
  obtain ⟨u, rfl⟩ := h
  simp

/-- A JSON document over numbers of type `N`. -/
inductive Json (N : Type) where
  | null
  | bool (b : Bool)
  | number (n : N)
  | string (s : Str)
  | array (items : List (Json N))
  | object (fields : List (Str × Json N))

namespace Json

variable {N : Type}

/-- Induction over a document: the children of an array or an object come with their
hypotheses. -/
@[elab_as_elim] theorem induct {P : Json N → Prop} (null : P .null) (bool : ∀ b, P (.bool b))
    (number : ∀ n, P (.number n)) (string : ∀ s, P (.string s))
    (array : ∀ vs, (∀ v ∈ vs, P v) → P (.array vs))
    (object : ∀ fs : List (Str × Json N), (∀ f ∈ fs, P f.2) → P (.object fs)) :
    ∀ v, P v := by
  intro v
  refine @Json.rec N P (fun vs => ∀ v ∈ vs, P v) (fun fs => ∀ f ∈ fs, P f.2) (fun f => P f.2)
    null bool number string (fun vs h => array vs h) (fun fs h => object fs h)
    (by simp) ?_ (by simp) ?_ (fun _ _ h => h) v
  · intro v vs hv hvs w hw
    rcases mem_cons.1 hw with rfl | hw
    · exact hv
    · exact hvs w hw
  · intro f fs hf hfs g hg
    rcases mem_cons.1 hg with rfl | hg
    · exact hf
    · exact hfs g hg

/-! ## Nesting depth -/

mutual

/-- How deep arrays and objects nest; a scalar has depth 0. -/
def depth : Json N → Nat
  | .array vs => depthItems vs + 1
  | .object fs => depthFields fs + 1
  | _ => 0
termination_by structural v => v

def depthItems : List (Json N) → Nat
  | [] => 0
  | v :: vs => max (depth v) (depthItems vs)
termination_by structural vs => vs

def depthFields : List (Str × Json N) → Nat
  | [] => 0
  | (_, v) :: fs => max (depth v) (depthFields fs)
termination_by structural fs => fs

end

mutual

/-- Structural equality, with the numbers compared by their own test. -/
def eqv [BEq N] : Json N → Json N → Bool
  | .null, .null => true
  | .bool a, .bool b => a == b
  | .number a, .number b => a == b
  | .string a, .string b => a == b
  | .array as, .array bs => eqvItems as bs
  | .object as, .object bs => eqvFields as bs
  | _, _ => false
termination_by structural v => v

def eqvItems [BEq N] : List (Json N) → List (Json N) → Bool
  | [], [] => true
  | a :: as, b :: bs => eqv a b && eqvItems as bs
  | _, _ => false
termination_by structural vs => vs

def eqvFields [BEq N] : List (Str × Json N) → List (Str × Json N) → Bool
  | [], [] => true
  | (k, a) :: as, (l, b) :: bs => k == l && eqv a b && eqvFields as bs
  | _, _ => false
termination_by structural fs => fs

end

instance [BEq N] : BEq (Json N) := ⟨eqv⟩

theorem eqvItems_iff [BEq N] {as bs : List (Json N)}
    (ih : ∀ a ∈ as, ∀ b, eqv a b = true ↔ a = b) : eqvItems as bs = true ↔ as = bs := by
  induction as generalizing bs with
  | nil => cases bs <;> simp [eqvItems]
  | cons a as ihs =>
    obtain ⟨ha, has⟩ := forall_mem_cons.1 ih
    cases bs with
    | nil => simp [eqvItems]
    | cons b bs => simp [eqvItems, ha, ihs has]

theorem eqvFields_iff [BEq N] {as bs : List (Str × Json N)}
    (ih : ∀ a ∈ as, ∀ b, eqv a.2 b = true ↔ a.2 = b) : eqvFields as bs = true ↔ as = bs := by
  induction as generalizing bs with
  | nil => cases bs <;> simp [eqvFields]
  | cons a as ihs =>
    obtain ⟨ha, has⟩ := forall_mem_cons.1 ih
    obtain ⟨k, v⟩ := a
    cases bs with
    | nil => simp [eqvFields]
    | cons b bs =>
      obtain ⟨l, w⟩ := b
      simp [eqvFields, ha, ihs has]

/-- Where the numbers' own test is equality, so is the test on documents. -/
theorem eqv_iff [BEq N] [LawfulBEq N] {v w : Json N} : eqv v w = true ↔ v = w := by
  induction v using Json.induct generalizing w with
  | array vs ih =>
    cases w with
    | array ws => simp [eqv, eqvItems_iff fun v hv w => ih v hv]
    | _ => simp [eqv]
  | object fs ih =>
    cases w with
    | object gs => simp [eqv, eqvFields_iff fun f hf w => ih f hf]
    | _ => simp [eqv]
  | _ => cases w <;> simp [eqv]

instance [DecidableEq N] : DecidableEq (Json N) := fun _ _ => decidable_of_iff _ eqv_iff

/-- Is this `null`? -/
def isNull : Json N → Bool
  | .null => true
  | _ => false

@[simp] theorem isNull_iff {v : Json N} : v.isNull = true ↔ v = .null := by
  cases v <;> simp [isNull]

end Json

/-! ## Ordered maps -/

/-- An ordered map from strings: its entries, in order of their keys. -/
abbrev Entries (V : Type) := List (Str × V)

namespace Entries

variable {V : Type}

/-- The keys are strictly increasing. -/
def Sorted (m : Entries V) : Prop := m.Pairwise fun a b => a.1 < b.1

/-- The value stored under a key. -/
def get? (m : Entries V) (k : Str) : Option V := (m.find? fun e => e.1 == k).map Prod.snd

def containsKey (m : Entries V) (k : Str) : Bool := m.any fun e => e.1 == k

/-- Store a value under a key, replacing what was there. -/
def insert (k : Str) (v : V) : Entries V → Entries V
  | [] => [(k, v)]
  | e :: m =>
    if k < e.1 then (k, v) :: e :: m
    else if e.1 < k then e :: insert k v m
    else (k, v) :: m

/-- The map that inserting the entries one after the other leaves: of two equal keys, the last
one counts. -/
def ofList (fs : List (Str × V)) : Entries V := fs.foldl (fun m e => insert e.1 e.2 m) []

variable {m : Entries V} {k : Str} {fs : List (Str × V)} {v : V} {e : Str × V}

theorem sorted_cons : Sorted (e :: m) ↔ (∀ f ∈ m, e.1 < f.1) ∧ Sorted m := pairwise_cons

theorem mem_insert (h : e ∈ insert k v m) : e = (k, v) ∨ e ∈ m := by
  induction m with
  | nil => simpa [insert] using h
  | cons f m ih =>
    simp only [insert] at h
    split_ifs at h with h₁ h₂
    · rcases mem_cons.1 h with rfl | h
      · exact .inl rfl
      · exact .inr h
    · rcases mem_cons.1 h with rfl | h
      · exact .inr mem_cons_self
      · rcases ih h with rfl | h
        · exact .inl rfl
        · exact .inr (mem_cons_of_mem _ h)
    · rcases mem_cons.1 h with rfl | h
      · exact .inl rfl
      · exact .inr (mem_cons_of_mem _ h)

theorem sorted_insert (h : Sorted m) : Sorted (insert k v m) := by
  induction m with
  | nil => simp [insert, Sorted]
  | cons e m ih =>
    obtain ⟨hlt, hm⟩ := sorted_cons.1 h
    simp only [insert]
    split_ifs with h₁ h₂
    · refine sorted_cons.2 ⟨fun f hf => ?_, h⟩
      rcases mem_cons.1 hf with rfl | hf
      · exact h₁
      · exact h₁.trans (hlt f hf)
    · refine sorted_cons.2 ⟨fun f hf => ?_, ih hm⟩
      rcases mem_insert hf with rfl | hf
      · exact h₂
      · exact hlt f hf
    · have hk : k = e.1 := le_antisymm (not_lt.1 h₂) (not_lt.1 h₁)
      exact sorted_cons.2 ⟨fun f hf => hk ▸ hlt f hf, hm⟩

theorem sorted_ofList (fs : List (Str × V)) : Sorted (ofList fs) := by
  refine foldlRecOn fs _ Pairwise.nil fun m hm e _ => ?_
  exact sorted_insert hm

theorem insert_of_last (h : ∀ e ∈ m, e.1 < k) : insert k v m = m ++ [(k, v)] := by
  induction m with
  | nil => rfl
  | cons e m ih =>
    have he := h e mem_cons_self
    simp only [insert, if_neg (not_lt.2 he.le), if_pos he, cons_append]
    rw [ih fun f hf => h f (mem_cons_of_mem _ hf)]

/-- A list that is already in order is the map it builds. -/
theorem ofList_of_sorted (h : Sorted fs) : ofList fs = fs := by
  have key : ∀ (fs m : List (Str × V)), Sorted (m ++ fs) →
      fs.foldl (fun m e => insert e.1 e.2 m) m = m ++ fs := by
    intro fs
    induction fs with
    | nil => simp
    | cons e fs ih =>
      intro m hm
      have hlast : ∀ f ∈ m, f.1 < e.1 := fun f hf =>
        (pairwise_append.1 hm).2.2 f hf e mem_cons_self
      rw [foldl_cons, insert_of_last hlast, ih (m ++ [e]) (by simpa using hm)]
      simp
  exact key fs [] h

theorem insert_perm (h : ∀ e ∈ m, e.1 ≠ k) : (insert k v m).Perm ((k, v) :: m) := by
  induction m with
  | nil => exact .refl _
  | cons e m ih =>
    obtain ⟨he, hm⟩ := forall_mem_cons.1 h
    rw [insert]
    split_ifs with h₁ h₂
    · exact .refl _
    · exact ((ih hm).cons e).trans (.swap _ _ _)
    · exact absurd (le_antisymm (not_lt.1 h₁) (not_lt.1 h₂)) he

theorem ofList_perm (h : (fs.map Prod.fst).Nodup) : (ofList fs).Perm fs := by
  have key : ∀ (fs m : List (Str × V)), ((m ++ fs).map Prod.fst).Nodup →
      (fs.foldl (fun m e => insert e.1 e.2 m) m).Perm (m ++ fs) := by
    intro fs
    induction fs with
    | nil => simp
    | cons e fs ih =>
      intro m hm
      have hperm : (insert e.1 e.2 m).Perm (m ++ [e]) := by
        refine (insert_perm fun f hf hk => ?_).trans (perm_append_singleton e m).symm
        rw [map_append] at hm
        exact disjoint_of_nodup_append hm (mem_map_of_mem hf) (hk ▸ mem_cons_self)
      have hper' := hperm.append_right fs
      rw [append_assoc] at hper'
      exact (ih _ ((hper'.map Prod.fst).nodup_iff.2 hm)).trans hper'
  exact key fs [] h

theorem get?_nil (k : Str) : get? ([] : Entries V) k = none := rfl

theorem get?_cons (e : Str × V) (m : Entries V) (k : Str) :
    get? (e :: m) k = if e.1 = k then some e.2 else get? m k := by
  by_cases h : e.1 = k <;> simp [get?, h]

theorem containsKey_iff : containsKey m k = true ↔ ∃ e ∈ m, e.1 = k := by
  simp [containsKey]

theorem containsKey_eq_isSome (m : Entries V) (k : Str) : containsKey m k = (get? m k).isSome := by
  induction m with
  | nil => rfl
  | cons e m ih =>
    rw [get?_cons]
    by_cases h : e.1 = k
    · simp [containsKey, h]
    · rw [if_neg h, ← ih]
      simp [containsKey, h]

theorem mem_of_get? (h : get? m k = some v) : (k, v) ∈ m := by
  induction m with
  | nil => cases h
  | cons e m ih =>
    rw [get?_cons] at h
    split_ifs at h with hk
    · cases h
      exact hk ▸ mem_cons_self
    · exact mem_cons_of_mem _ (ih h)

theorem get?_insert (m : Entries V) (k l : Str) (v : V) :
    get? (insert k v m) l = if k = l then some v else get? m l := by
  induction m with
  | nil => simp [insert, get?_cons]
  | cons e m ih =>
    rcases lt_trichotomy k e.1 with hk | hk | hk
    · rw [insert, if_pos hk, get?_cons]
    · rw [insert, if_neg hk.not_lt, if_neg hk.symm.not_lt, get?_cons, get?_cons, ← hk]
      by_cases hkl : k = l <;> simp [hkl]
    · rw [insert, if_neg hk.not_gt, if_pos hk, get?_cons, get?_cons, ih]
      by_cases hkl : k = l
      · rw [if_pos hkl, if_neg (hkl ▸ hk.ne), if_pos hkl]
      · rw [if_neg hkl, if_neg hkl]

end Entries

/-! ## Documents as a program keeps them -/

namespace Json

variable {N : Type}

mutual

/-- The document with every object turned into an ordered map. -/
def toValue : Json N → Json N
  | .array vs => .array (toValueItems vs)
  | .object fs => .object (Entries.ofList (toValueFields fs))
  | .null => .null
  | .bool b => .bool b
  | .number n => .number n
  | .string s => .string s
termination_by structural v => v

def toValueItems : List (Json N) → List (Json N)
  | [] => []
  | v :: vs => toValue v :: toValueItems vs
termination_by structural vs => vs

def toValueFields : List (Str × Json N) → List (Str × Json N)
  | [] => []
  | (k, v) :: fs => (k, toValue v) :: toValueFields fs
termination_by structural fs => fs

end

theorem toValueItems_eq_map (vs : List (Json N)) : toValueItems vs = vs.map toValue := by
  induction vs with
  | nil => rfl
  | cons v vs ih => simp [toValueItems, ih]

theorem toValueFields_eq_map (fs : List (Str × Json N)) :
    toValueFields fs = fs.map fun f => (f.1, toValue f.2) := by
  induction fs with
  | nil => rfl
  | cons f fs ih =>
    simp [toValueFields, ih]

/-- Every object of the document is an ordered map. -/
inductive Canonical : Json N → Prop
  | null : Canonical .null
  | bool (b : Bool) : Canonical (.bool b)
  | number (n : N) : Canonical (.number n)
  | string (s : Str) : Canonical (.string s)
  | array {vs : List (Json N)} : (∀ v ∈ vs, Canonical v) → Canonical (.array vs)
  | object {fs : List (Str × Json N)} :
      Entries.Sorted fs → (∀ f ∈ fs, Canonical f.2) → Canonical (.object fs)

/-- Every number of the document has a property. -/
inductive AllNumbers (P : N → Prop) : Json N → Prop
  | null : AllNumbers P .null
  | bool (b : Bool) : AllNumbers P (.bool b)
  | number {n : N} : P n → AllNumbers P (.number n)
  | string (s : Str) : AllNumbers P (.string s)
  | array {vs : List (Json N)} : (∀ v ∈ vs, AllNumbers P v) → AllNumbers P (.array vs)
  | object {fs : List (Str × Json N)} : (∀ f ∈ fs, AllNumbers P f.2) → AllNumbers P (.object fs)

theorem toValue_of_canonical {v : Json N} (h : Canonical v) : toValue v = v := by
  induction h with
  | null | bool b | number n | string s => rfl
  | @array vs _ ih =>
    rw [toValue, toValueItems_eq_map, map_congr_left ih, map_id']
  | @object fs hs _ ih =>
    have hmap : (fs.map fun f => (f.1, toValue f.2)) = fs := by
      refine (map_congr_left fun f hf => ?_).trans (map_id' fs)
      rw [ih f hf]
    rw [toValue, toValueFields_eq_map, hmap, Entries.ofList_of_sorted hs]

theorem mem_ofList {fs : List (Str × Json N)} {e : Str × Json N} (h : e ∈ Entries.ofList fs) :
    e ∈ fs := by
  have hsub : Entries.ofList fs ⊆ fs := by
    refine foldlRecOn (motive := (· ⊆ fs)) fs _ (nil_subset fs) fun m hm f hf g hg => ?_
    rcases Entries.mem_insert hg with rfl | hg
    · exact hf
    · exact hm hg
  exact hsub h

theorem canonical_toValue (v : Json N) : Canonical (toValue v) := by
  induction v using Json.induct with
  | null => exact .null
  | bool b => exact .bool b
  | number n => exact .number n
  | string s => exact .string s
  | array vs ih =>
    rw [toValue, toValueItems_eq_map]
    exact .array (forall_mem_map.2 ih)
  | object fs ih =>
    rw [toValue, toValueFields_eq_map]
    refine .object (Entries.sorted_ofList _) fun f hf => ?_
    obtain ⟨g, hg, rfl⟩ := mem_map.1 (mem_ofList hf)
    exact ih g hg

end Json

end Nasiko
