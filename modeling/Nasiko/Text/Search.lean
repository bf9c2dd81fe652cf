import Mathlib.Tactic
import Mathlib.Data.List.Infix
import Mathlib.Data.List.TakeWhile

/-!
# Searching a text that is still growing

A scanner that looks for a pattern in a text it receives in pieces must not give away a piece
that may turn out to be the beginning of the pattern. This file has the two functions such a
scanner is built from, over lists of anything:

* `splitFirst pat s` cuts `s` in front of the first occurrence of `pat`;
* `holdback pat s` is the length of the longest suffix of `s` that is a proper prefix of `pat`,
  that is, of what may still grow into an occurrence.

The main result is `splitFirst_holdback`: when `s` has no occurrence, everything but the last
`holdback pat s` elements can be given away, and the search goes on in what is left as if it had
been in the whole text.
-/

namespace Nasiko.Text

open List Option

variable {α : Type}

/-! ## Runs -/

variable {p : α → Bool} {s pat a b : List α}

/-- A run that stops where the predicate fails is what `takeWhile` takes. -/
theorem takeWhile_append_of_all {r : List α} (hs : ∀ c ∈ s, p c = true)
    (hr : ∀ c ∈ r.head?, p c = false) : (s ++ r).takeWhile p = s ∧ (s ++ r).dropWhile p = r := by
  induction s with
  | nil =>
    cases r with
    | nil => simp
    | cons c r => simp [hr c (by simp)]
  | cons c s ih =>
    obtain ⟨hc, hs⟩ := forall_mem_cons.1 hs
    obtain ⟨ht, hd⟩ := ih hs
    simp [hc, ht, hd]

theorem infix_intercalate {sep part : List α} {parts : List (List α)} (h : part ∈ parts) :
    part <:+: sep.intercalate parts := by
  induction parts with
  | nil => cases h
  | cons a parts ih =>
    cases parts with
    | nil => simp_all [intercalate]
    | cons b parts =>
      rw [intercalate_cons_cons]
      rcases mem_cons.1 h with rfl | h
      · exact ⟨[], sep ++ sep.intercalate (b :: parts), by simp⟩
      · exact (ih h).trans (suffix_append _ _).isInfix

theorem head?_cons_false {c : α} (s : List α) (h : p c = false) :
    ∀ x ∈ (c :: s).head?, p x = false := by
  intro x hx
  rw [head?_cons, mem_some_iff] at hx
  exact hx ▸ h

theorem head?_dropWhile_false (s : List α) : ∀ c ∈ (s.dropWhile p).head?, p c = false := by
  intro c hc
  induction s with
  | nil => simp at hc
  | cons x s ih =>
    by_cases hx : p x = true
    · exact ih (by simpa [hx] using hc)
    · rw [dropWhile_cons_of_neg hx, head?_cons, mem_some_iff] at hc
      exact hc ▸ Bool.not_eq_true _ ▸ hx

/-- A run that stopped before the end of the text stops at the same place in a longer one. -/
theorem takeWhile_append_of_dropWhile_ne_nil (x : List α) (h : s.dropWhile p ≠ []) :
    (s ++ x).takeWhile p = s.takeWhile p ∧ (s ++ x).dropWhile p = s.dropWhile p ++ x := by
  have hs : s ++ x = s.takeWhile p ++ (s.dropWhile p ++ x) := by
    rw [← append_assoc, takeWhile_append_dropWhile]
  rw [hs]
  refine takeWhile_append_of_all (fun c hc => mem_takeWhile_imp hc) fun c hc => ?_
  refine head?_dropWhile_false s c ?_
  rwa [head?_append_of_ne_nil _ h] at hc

/-! ## Occurrences -/

/-- `pat` does not start inside `a` when `b` follows. -/
def NotIn (pat a b : List α) : Prop := ∀ u v, a = u ++ v → v ≠ [] → ¬ pat <+: v ++ b

theorem notIn_cons {c : α} : NotIn pat (c :: a) b ↔ ¬ pat <+: c :: (a ++ b) ∧ NotIn pat a b := by
  constructor
  · intro h
    refine ⟨h [] (c :: a) rfl (by simp), fun u v huv hv => ?_⟩
    exact h (c :: u) v (by rw [huv]; rfl) hv
  · rintro ⟨h₁, h₂⟩ u v huv hv
    cases u with
    | nil =>
      rw [nil_append] at huv
      rwa [← huv]
    | cons x u => exact h₂ u v (cons.inj huv).2 hv

/-- A prefix of `v ++ b` ends inside `v` or goes on into `b`. -/
theorem prefix_append_cases {v : List α} (h : pat <+: v ++ b) :
    pat <+: v ∨ ∃ w, w ≠ [] ∧ pat = v ++ w ∧ w <+: b := by
  rcases prefix_or_prefix_of_prefix h (prefix_append v b) with hp | ⟨w, rfl⟩
  · exact .inl hp
  · by_cases hw : w = []
    · exact .inl (by simp [hw])
    · exact .inr ⟨w, hw, rfl, (prefix_append_right_inj v).1 h⟩

/-- No proper part of `pat` is both a prefix and a suffix of it. -/
def Unbordered (pat : List α) : Prop := ∀ w, w <+: pat → w <:+ pat → w = [] ∨ w = pat

theorem unbordered_of_take (h : ∀ n < pat.length, pat.take n <:+ pat → pat.take n = []) :
    Unbordered pat := by
  intro w hpre hsuf
  obtain ⟨n, rfl⟩ : ∃ n, w = pat.take n := ⟨w.length, prefix_iff_eq_take.1 hpre⟩
  by_cases hn : n < pat.length
  · exact .inl (h n hn hsuf)
  · exact .inr (take_of_length_le (not_lt.1 hn))

/-- Between a stretch without the pattern and an occurrence of it no other occurrence starts,
when the pattern does not overlap itself. -/
theorem notIn_of_not_infix (hself : Unbordered pat) (ha : ¬ pat <:+: a) (hb : pat <+: b) :
    NotIn pat a b := by
  rintro u v rfl hv hpre
  rcases prefix_append_cases hpre with hp | ⟨w, hw, hpat, hwb⟩
  · exact ha (hp.isInfix.trans (suffix_append u v).isInfix)
  · have hlen : w.length < pat.length := by
      rw [hpat, length_append]
      have := length_pos_iff.2 hv
      omega
    have hwp : w <+: pat := prefix_of_prefix_length_le hwb hb hlen.le
    rcases hself w hwp (hpat ▸ suffix_append v w) with rfl | rfl
    · exact hw rfl
    · exact lt_irrefl _ hlen

theorem not_infix_of_notIn (hpat : pat ≠ []) (h : NotIn pat a b) : ¬ pat <:+: a := by
  rintro ⟨u, w, rfl⟩
  refine h u (pat ++ w) (append_assoc ..) (by simp [hpat]) ?_
  rw [append_assoc]
  exact prefix_append _ _

/-! ## The first occurrence -/

variable [DecidableEq α]

/-- Cut a list in front of the first occurrence of `pat`. -/
def splitFirst (pat : List α) : List α → Option (List α × List α)
  | [] => if pat.isPrefixOf [] then some ([], []) else none
  | c :: s =>
    if pat.isPrefixOf (c :: s) then some ([], c :: s)
    else (splitFirst pat s).map fun ab => (c :: ab.1, ab.2)

/-- The search passes over a stretch in which no occurrence starts. -/
theorem splitFirst_append_of_notIn (h : NotIn pat a b) :
    splitFirst pat (a ++ b) = (splitFirst pat b).map fun ab => (a ++ ab.1, ab.2) := by
  induction a with
  | nil => cases h : splitFirst pat b <;> simp [h]
  | cons c a ih =>
    obtain ⟨hc, ha⟩ := notIn_cons.1 h
    rw [cons_append, splitFirst, if_neg (by simpa using hc), ih ha]
    cases splitFirst pat b <;> simp

theorem splitFirst_of_prefix (h : pat <+: b) : splitFirst pat b = some ([], b) := by
  cases b <;> simp_all [splitFirst]

/-- The search finds an occurrence behind such a stretch. -/
theorem splitFirst_of_notIn (h : NotIn pat a b) (hb : pat <+: b) :
    splitFirst pat (a ++ b) = some (a, b) := by
  rw [splitFirst_append_of_notIn h, splitFirst_of_prefix hb]
  simp

theorem splitFirst_sound (h : splitFirst pat s = some (a, b)) :
    s = a ++ b ∧ pat <+: b ∧ NotIn pat a b := by
  induction s generalizing a b with
  | nil =>
    simp only [splitFirst] at h
    split_ifs at h with hp
    cases h
    exact ⟨rfl, by simpa using hp, fun u v huv hv => absurd (append_eq_nil_iff.1 huv.symm).2 hv⟩
  | cons c s ih =>
    simp only [splitFirst] at h
    split_ifs at h with hp
    · cases h
      exact ⟨rfl, by simpa using hp, fun u v huv hv => absurd (append_eq_nil_iff.1 huv.symm).2 hv⟩
    · obtain ⟨⟨a', b'⟩, hab, heq⟩ := map_eq_some_iff.1 h
      cases heq
      obtain ⟨rfl, hpre, hnot⟩ := ih hab
      exact ⟨rfl, hpre, notIn_cons.2 ⟨by simpa using hp, hnot⟩⟩

theorem splitFirst_eq_none_iff : splitFirst pat s = none ↔ ¬ pat <:+: s := by
  induction s with
  | nil => simp [splitFirst]
  | cons c s ih =>
    rw [splitFirst, infix_cons_iff]
    by_cases hp : pat <+: c :: s
    · simp [hp]
    · simp [hp, ih]

def occurs (pat s : List α) : Bool := (splitFirst pat s).isSome

/-- The first occurrence stays the first one when the text grows. -/
theorem splitFirst_append (h : splitFirst pat s = some (a, b)) (x : List α) :
    splitFirst pat (s ++ x) = some (a, b ++ x) := by
  obtain ⟨rfl, hpre, hnot⟩ := splitFirst_sound h
  have hnot' : NotIn pat a (b ++ x) := by
    intro u v huv hv hp
    rw [← append_assoc] at hp
    rcases prefix_append_cases hp with hp | ⟨w, -, hpat, -⟩
    · exact hnot u v huv hv hp
    · have hlen := hpre.length_le
      rw [hpat, length_append, length_append] at hlen
      have := length_pos_iff.2 hv
      omega
  rw [append_assoc, splitFirst_of_notIn hnot' (List.prefix_append_of_prefix hpre)]

/-! ## What must be held back -/

/-- The length of the longest suffix of `s` that is a proper prefix of `pat`. -/
def holdback (pat s : List α) : Nat :=
  ((List.range' 1 (pat.length - 1)).reverse.find? fun n => (pat.take n).isSuffixOf s).getD 0

theorem holdback_suffix (pat s : List α) : pat.take (holdback pat s) <:+ s := by
  unfold holdback
  cases h : (range' 1 (pat.length - 1)).reverse.find? fun n => (pat.take n).isSuffixOf s with
  | none => simp
  | some n => simpa using find?_some h

theorem holdback_lt (hpat : pat ≠ []) : holdback pat s < pat.length := by
  have hpos := length_pos_iff.2 hpat
  unfold holdback
  cases h : (range' 1 (pat.length - 1)).reverse.find? fun n => (pat.take n).isSuffixOf s with
  | none => simpa using hpos
  | some n =>
    have hn := mem_reverse.1 (mem_of_find?_eq_some h)
    rw [mem_range'_1] at hn
    simp only [getD_some]
    omega

theorem holdback_le_length (hpat : pat ≠ []) (s : List α) : holdback pat s ≤ s.length := by
  have h := (holdback_suffix pat s).length_le
  rwa [length_take, min_eq_left (holdback_lt hpat).le] at h

/-- No longer proper prefix of the pattern ends the text. -/
theorem not_suffix_of_holdback_lt {n : Nat} (hn : holdback pat s < n) (hlt : n < pat.length) :
    ¬ pat.take n <:+ s := by
  intro hsuf
  have hmem : n ∈ range' 1 (pat.length - 1) := by
    rw [mem_range'_1]
    omega
  obtain ⟨l₁, l₂, hspl⟩ := append_of_mem (mem_reverse.2 hmem)
  -- The candidates come in decreasing order, so what is found is at least `n`.
  have hdesc : (range' 1 (pat.length - 1)).reverse.Pairwise (· > ·) :=
    pairwise_reverse.2 pairwise_lt_range'
  have hge : n ≤ holdback pat s := by
    unfold holdback
    cases h : (range' 1 (pat.length - 1)).reverse.find? fun n => (pat.take n).isSuffixOf s with
    | none => exact absurd hsuf (by simpa using find?_eq_none.1 h n (mem_reverse.2 hmem))
    | some m =>
      rw [hspl] at h hdesc
      rw [find?_append] at h
      cases h₁ : l₁.find? fun n => (pat.take n).isSuffixOf s with
      | some k =>
        rw [h₁] at h
        obtain rfl := some.inj h
        have := (pairwise_append.1 hdesc).2.2 k (mem_of_find?_eq_some h₁) n mem_cons_self
        exact this.le
      | none =>
        rw [h₁, find?_cons_of_pos (by simpa using hsuf)] at h
        exact (some.inj h).le
  omega

theorem holdback_eq_of_forall {t : List α}
    (h : ∀ n, n < pat.length → (pat.take n <:+ s ↔ pat.take n <:+ t)) :
    holdback pat s = holdback pat t := by
  unfold holdback
  congr 1
  refine find?_congr fun n hn => ?_
  rw [mem_reverse, mem_range'_1] at hn
  rw [Bool.eq_iff_iff, isSuffixOf_iff_suffix, isSuffixOf_iff_suffix]
  exact h n (by omega)

variable {pat a r : List α} (hs : ¬ pat <:+: a ++ r) (hr : r.length = holdback pat (a ++ r))

include hs hr

/-- No occurrence starts in what the search gives away, however the text goes on. -/
theorem notIn_of_holdback (x : List α) : NotIn pat a (r ++ x) := by
  rintro u v rfl hv hpre
  rw [← append_assoc] at hpre
  have hsuf : v ++ r <:+ u ++ v ++ r := ⟨u, by simp⟩
  rcases prefix_append_cases hpre with hp | ⟨w, hw, hpat, -⟩
  · exact hs (hp.isInfix.trans hsuf.isInfix)
  · have htake : pat.take (v ++ r).length = v ++ r := by rw [hpat, take_left]
    have hv' := length_pos_iff.2 hv
    have hw' := length_pos_iff.2 hw
    refine not_suffix_of_holdback_lt ?_ ?_ (htake.symm ▸ hsuf)
    · rw [length_append]
      omega
    · have hlen : pat.length = (v ++ r).length + w.length := by rw [← length_append, ← hpat]
      omega

/-- **What is given away is final.** The search in the whole text finds what the search in the
part held back finds. -/
theorem splitFirst_holdback (x : List α) :
    splitFirst pat (a ++ (r ++ x)) = (splitFirst pat (r ++ x)).map fun ab => (a ++ ab.1, ab.2) :=
  splitFirst_append_of_notIn (notIn_of_holdback hs hr x)

/-- The part held back of the whole text is the part held back of what was held back. -/
theorem holdback_holdback (x : List α) : holdback pat (a ++ (r ++ x)) = holdback pat (r ++ x) := by
  refine holdback_eq_of_forall fun n hn => ⟨fun h => ?_, fun h => h.trans (suffix_append _ _)⟩
  rcases suffix_or_suffix_of_suffix h (suffix_append a (r ++ x)) with h' | h'
  · exact h'
  · -- Otherwise the prefix starts inside `a`, and `notIn_of_holdback` excludes that.
    obtain ⟨v, hv⟩ := h'
    obtain ⟨u, hu⟩ := h
    have ha : a = u ++ v := by
      rw [← hv, ← append_assoc] at hu
      exact (append_cancel_right hu).symm
    by_cases hnil : v = []
    · rw [hnil, nil_append] at hv
      rw [hv]
    · refine absurd ?_ (notIn_of_holdback hs hr (x ++ pat.drop n) u v ha hnil)
      rw [← append_assoc r, ← append_assoc v, hv, take_append_drop]

end Nasiko.Text
