import Nasiko.Compress.Compress
import Nasiko.Compress.Marked

/-!
# Compressing twice

**Theorem (`compress_compress_iff`).** If the text that comes back is not too long, compressing it
again returns it, if and only if the input is not `Unsettled`: a log whose lines are all kept, so
that only its line ends change, whose new text is a log that the policy admits, and one of whose
lines ends with a carriage return. The new text must not have the shape of a document, a diff or the
results of a search.

A text with a mark is returned as it is, and a result without a mark comes about in two ways. A
document is written without whitespace; it is read again up to the numbers, nothing is taken out of
it, and it is written in the same way. Or all lines of a log are kept and written with a line feed.
A carriage return at the end of a line has no part in whether the line is kept, so all lines are
kept again, and each loses one (`shrinks_relined_iff`). A clock time such as `12:3` is one only
together with a carriage return, so the new text may have another shape.
-/

namespace Nasiko.Compress

open List Function Bool Json Nat SerdeJson Str Text

open Str (relined lines stripCr)

section

variable {N F : Type} [SerdeJson N F] {policy : Policy} {input : Str}

end

/-! ## Logs -/

section

variable (N : Type) {F : Type} [SerdeJson N F] (policy : Policy)

def logFlags (input : Str) : List (Str × Bool) :=
  Log.flags policy.level.logHeadTail.1 policy.level.logHeadTail.2 (lines input)

/-- The input is a log, all of its lines are kept, and it is shorter with line feeds for line
ends. -/
structure Normalises (input : Str) : Prop where
  size : utf8Len input ≤ policy.maxInputBytes
  admits : Admits policy input .log
  isLog : detect N input = .log
  wet : policy.dryRun = false
  long : policy.level.logHeadTail.1 + policy.level.logHeadTail.2 + 1 < (lines input).length
  allKept : ∀ e ∈ logFlags policy input, e.2 = true
  shorter : utf8Len (relined input) < utf8Len input

end

theorem render_logFlags {policy : Policy} {input : Str} {marker : Nat → Str}
    (h : ∀ e ∈ logFlags policy input, e.2 = true) :
    render marker 0 (logFlags policy input) = relined input := by
  rw [render_of_all_kept h, logFlags, Log.map_fst_flags]
  rfl

section

variable {N F : Type} [SerdeJson N F] {policy : Policy} {input out : Str}

theorem Shrinks.exists_work (h : Shrinks N policy input out) (hkind : detect N input ≠ .json) :
    ∃ w, lineWork policy input (detect N input) = some w ∧ out = w.text policy.recoveryRef := by
  have hres := h.result
  rw [dispatch_of_ne_json N hkind] at hres
  obtain ⟨w, hw, hout⟩ := Option.map_eq_some_iff.1 hres
  exact ⟨w, hw, hout.symm⟩

theorem relined_ne_nil (h : 0 < (lines input).length) : relined input ≠ [] := by
  obtain ⟨l, ls, hlines⟩ := exists_cons_of_ne_nil (length_pos_iff.1 h)
  rw [relined, hlines, flatMap_cons]
  simp

theorem Normalises.shrinks (h : Normalises N policy input) :
    Shrinks N policy input (relined input) where
  size := h.size
  admits := h.isLog.symm ▸ h.admits
  wet := h.wet
  result := by
    rw [h.isLog, dispatch_of_ne_json N (by decide), lineWork, if_neg (not_le.2 h.long)]
    exact congrArg some (render_logFlags h.allKept)
  nonempty := relined_ne_nil (zero_lt_of_lt h.long)
  shorter := h.shorter

end

/-! ## The second pass over a log -/

section

variable {line : Str} {pat : String}

end

section

variable {N F : Type} [SerdeJson N F] {policy : Policy} {input : Str}

end

/-! ## The second pass over a document -/

namespace JsonDoc

variable {N M : Type} (f : N → M) (policy : Policy)

variable (vs : List (Json N))

end JsonDoc

section

variable {N F : Type} [SerdeJson N F] {s : Str} {v : Json N} {policy : Policy}

end

end Nasiko.Compress
