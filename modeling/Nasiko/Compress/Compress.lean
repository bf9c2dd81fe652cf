import Nasiko.Compress.Compressors
import Nasiko.Json.Integers

/-!
# The funnel

`compress` is the way to every compressor. It cuts a payload that is too long in the middle, leaves
alone what the policy excludes and what has a mark already, and takes what a compressor returns only
if that is shorter.

**Theorem (`compress_text_iff`).** If compression is off, or for a dry run, the text that comes back
is the input, if and only if the input is not cut: it is not longer than the policy admits, or has
at most 3000 characters, or the mark is not shorter than what it stands for.

The flags are looked at behind the cut, so a cut does not depend on them. Behind the cut each of
them returns the input: `enabled` before a compressor is called, `dryRun` when the result is built.
-/

namespace Nasiko.Compress

open List Nat Str

def ceilingHeadChars : Nat := 2000

def ceilingTailChars : Nat := 1000

/-- What comes back. -/
structure Compressed where
  text : Str
  contentType : ContentType
  originalBytes : Nat
  projectedBytes : Nat

namespace Compressed

def unchanged (input : Str) (kind : ContentType) : Compressed :=
  ⟨input, kind, utf8Len input, utf8Len input⟩

def shrunk (input : Str) (kind : ContentType) (out : Str) : Compressed :=
  ⟨out, kind, utf8Len input, utf8Len out⟩

def projected (input : Str) (kind : ContentType) (projectedBytes : Nat) : Compressed :=
  ⟨input, kind, utf8Len input, projectedBytes⟩

def savedBytes (c : Compressed) : Nat := c.originalBytes - c.projectedBytes

/-- A text that differs from the input is shorter. -/
def isChanged (c : Compressed) : Bool := utf8Len c.text < c.originalBytes

end Compressed

/-- Too long an input is cut in the middle, if that makes it shorter. -/
def cutInput (input : Str) (policy : Policy) : Compressed :=
  match headTail input ceilingHeadChars ceilingTailChars policy.recoveryRef with
  | some out =>
    if utf8Len out < utf8Len input then .shrunk input .prose out
    else .unchanged input .prose
  | none => .unchanged input .prose

/-- An input of this shape is given to its compressor. -/
def Admits (policy : Policy) (input : Str) (kind : ContentType) : Prop :=
  policy.enabled = true ∧ policy.minBytes ≤ utf8Len input ∧
    policy.types.contains kind = true ∧ containsMarker input = false

instance (policy : Policy) (input : Str) (kind : ContentType) :
    Decidable (Admits policy input kind) :=
  inferInstanceAs (Decidable (_ ∧ _ ∧ _ ∧ _))

def compress (N : Type) {F : Type} [SerdeJson N F] (input : Str) (policy : Policy) : Compressed :=
  if policy.maxInputBytes < utf8Len input then cutInput input policy
  else
    let kind := detect N input
    if Admits policy input kind then
      match dispatch N kind input policy with
      | some out =>
        if !out.isEmpty ∧ utf8Len out < utf8Len input then
          if policy.dryRun then .projected input kind (utf8Len out) else .shrunk input kind out
        else .unchanged input kind
      | none => .unchanged input kind
    else .unchanged input kind

/-! ## The cut -/

structure IsCut (policy : Policy) (input : Str) : Prop where
  tooLong : policy.maxInputBytes < utf8Len input
  hasMiddle : ceilingHeadChars + ceilingTailChars < input.length
  shorter : utf8Len
      (elidedChars (input.length - ceilingHeadChars - ceilingTailChars) policy.recoveryRef) <
    utf8Len (middle input ceilingHeadChars ceilingTailChars)

/-- The input without its middle. -/
def cut (input : Str) (recoveryRef : Option Str) : Str :=
  takeChars input ceilingHeadChars ++
    elidedChars (input.length - ceilingHeadChars - ceilingTailChars) recoveryRef ++
      tailChars input ceilingTailChars

variable {policy : Policy} {input : Str}

theorem cutInput_of_isCut (h : IsCut policy input) :
    cutInput input policy = .shrunk input .prose (cut input policy.recoveryRef) := by
  have hlt := (utf8Len_headTail_lt_iff policy.recoveryRef h.hasMiddle).2 h.shorter
  rw [cutInput, headTail, if_neg (not_le.2 h.hasMiddle)]
  exact if_pos hlt

theorem cutInput_of_not_isCut (hlo : policy.maxInputBytes < utf8Len input)
    (h : ¬ IsCut policy input) : cutInput input policy = .unchanged input .prose := by
  rw [cutInput, headTail]
  by_cases hmid : input.length ≤ ceilingHeadChars + ceilingTailChars
  · rw [if_pos hmid]
  · rw [if_neg hmid]
    refine if_neg fun hlt => h ⟨hlo, not_le.1 hmid, ?_⟩
    exact (utf8Len_headTail_lt_iff policy.recoveryRef (not_le.1 hmid)).1 hlt

theorem utf8Len_cut_lt (h : IsCut policy input) :
    utf8Len (cut input policy.recoveryRef) < utf8Len input :=
  (utf8Len_headTail_lt_iff policy.recoveryRef h.hasMiddle).2 h.shorter

section

variable (N : Type) {F : Type} [SerdeJson N F] {policy : Policy} {input : Str}

theorem compress_of_isCut (h : IsCut policy input) :
    (compress N input policy).text = cut input policy.recoveryRef := by
  rw [compress, if_pos h.tooLong, cutInput_of_isCut h]
  rfl

theorem compress_of_not_isCut (hlo : policy.maxInputBytes < utf8Len input)
    (h : ¬ IsCut policy input) : (compress N input policy).text = input := by
  rw [compress, if_pos hlo, cutInput_of_not_isCut hlo h]
  rfl

/-! ## Off, and dry -/

theorem compress_text_of_not_isCut (hoff : policy.enabled = false ∨ policy.dryRun = true)
    (h : ¬ IsCut policy input) : (compress N input policy).text = input := by
  by_cases hlo : policy.maxInputBytes < utf8Len input
  · exact compress_of_not_isCut N hlo h
  · rw [compress, if_neg hlo]
    dsimp only
    split
    · next hadm =>
      have hdry : policy.dryRun = true :=
        hoff.resolve_left fun hoff => Bool.false_ne_true (hoff.symm.trans hadm.1)
      cases dispatch N (detect N input) input policy with
      | none => rfl
      | some out =>
        dsimp only
        by_cases hsho : (!out.isEmpty) = true ∧ utf8Len out < utf8Len input
        · rw [if_pos hsho, if_pos hdry]
          rfl
        · rw [if_neg hsho]
          rfl
    · rfl

/-- **Without compression, and in a dry run, the input comes back if and only if it is not cut.** -/
theorem compress_text_iff (input : Str) (policy : Policy)
    (hoff : policy.enabled = false ∨ policy.dryRun = true) :
    (compress N input policy).text = input ↔ ¬ IsCut policy input := by
  constructor
  · intro htext hcut
    have hlt := utf8Len_cut_lt hcut
    rw [← compress_of_isCut N hcut, htext] at hlt
    exact lt_irrefl _ hlt
  · exact compress_text_of_not_isCut N hoff

end

/-! ## When a text changes -/

section

variable (N : Type) {F : Type} [SerdeJson N F]

/-- The compressor for its shape makes an input shorter. -/
structure Shrinks (policy : Policy) (input out : Str) : Prop where
  size : utf8Len input ≤ policy.maxInputBytes
  admits : Admits policy input (detect N input)
  wet : policy.dryRun = false
  result : dispatch N (detect N input) input policy = some out
  nonempty : out ≠ []
  shorter : utf8Len out < utf8Len input

variable {N} {policy : Policy} {input : Str}

theorem compress_of_shrinks {out : Str} (h : Shrinks N policy input out) :
    (compress N input policy).text = out := by
  have hsho : (!out.isEmpty) = true ∧ utf8Len out < utf8Len input :=
    ⟨by simpa using h.nonempty, h.shorter⟩
  rw [compress, if_neg (not_lt.2 h.size)]
  simp only [if_pos h.admits, h.result, if_pos hsho, h.wet]
  rfl

theorem compress_of_not_shrinks (hsi : utf8Len input ≤ policy.maxInputBytes)
    (h : ∀ out, ¬ Shrinks N policy input out) : (compress N input policy).text = input := by
  rw [compress, if_neg (not_lt.2 hsi)]
  by_cases hadm : Admits policy input (detect N input)
  · rw [if_pos hadm]
    cases hres : dispatch N (detect N input) input policy with
    | none => rfl
    | some out =>
      dsimp only
      by_cases hsho : (!out.isEmpty) = true ∧ utf8Len out < utf8Len input
      · rw [if_pos hsho]
        cases hdry : policy.dryRun with
        | true => rfl
        | false =>
          exact absurd ⟨hsi, hadm, hdry, hres, by simpa using hsho.1, hsho.2⟩ (h out)
      · rw [if_neg hsho]
        rfl
  · rw [if_neg hadm]
    rfl

/-- What comes back is the input, or the cut input, or what a compressor returns. -/
theorem compress_text_cases (policy : Policy) (input : Str) :
    (compress N input policy).text = input ∨
      (IsCut policy input ∧ (compress N input policy).text = cut input policy.recoveryRef) ∨
      Shrinks N policy input (compress N input policy).text := by
  by_cases hsi : utf8Len input ≤ policy.maxInputBytes
  · by_cases h : ∃ out, Shrinks N policy input out
    · obtain ⟨out, h⟩ := h
      refine .inr (.inr ?_)
      rwa [compress_of_shrinks h]
    · exact .inl (compress_of_not_shrinks hsi (not_exists.1 h))
  · by_cases hcut : IsCut policy input
    · exact .inr (.inl ⟨hcut, compress_of_isCut N hcut⟩)
    · exact .inl (compress_of_not_isCut N (not_le.1 hsi) hcut)

theorem contentType_compress (hsi : utf8Len input ≤ policy.maxInputBytes) :
    (compress N input policy).contentType = detect N input := by
  rw [compress, if_neg (not_lt.2 hsi)]
  by_cases hadm : Admits policy input (detect N input)
  · rw [if_pos hadm]
    cases dispatch N (detect N input) input policy with
    | none => rfl
    | some out =>
      dsimp only
      split_ifs <;> rfl
  · rw [if_neg hadm]
    rfl

/-- An input that is not cut is made shorter by the compressor for its shape. -/
theorem shrinks_of_ne (hshort : (compress N input policy).text ≠ input)
    (hkind : (compress N input policy).contentType ≠ .prose) :
    Shrinks N policy input (compress N input policy).text ∧
      detect N input = (compress N input policy).contentType := by
  rcases compress_text_cases (N := N) policy input with hsame | ⟨hcut, -⟩ | h
  · exact absurd hsame hshort
  · rw [compress, if_pos hcut.tooLong, cutInput_of_isCut hcut] at hkind
    exact absurd rfl hkind
  · exact ⟨h, (contentType_compress h.size).symm⟩

end

/-- The standard policy, which is off, returns a short text. -/
theorem compress_text_iff_short : (compress Int "some text" Policy.default).text = "some text" :=
  (compress_text_iff Int _ _ (Or.inl rfl)).2 fun h => absurd h.hasMiddle (by decide)

/-- A policy that is off, and admits at most 3000 bytes. -/
def smallPolicy : Policy := { Policy.default with maxInputBytes := 3000 }

/-- **A text of 3100 characters is cut although the policy is off.** -/
theorem compress_off_cuts : smallPolicy.enabled = false ∧
      (compress Int (replicate 3100 'a') smallPolicy).text ≠ replicate 3100 'a' := by
  refine ⟨rfl, fun htext => ?_⟩
  have hcut : IsCut smallPolicy (replicate 3100 'a') :=
    ⟨by decide +kernel, by decide +kernel, by decide +kernel⟩
  have hlt := utf8Len_cut_lt hcut
  rw [← compress_of_isCut Int hcut, htext] at hlt
  exact lt_irrefl _ hlt

/-- A policy that compresses everything. -/
def eagerPolicy : Policy :=
  { Policy.default with enabled := true, minBytes := 0, types := .all, level := .aggressive }

end Nasiko.Compress
