import Nasiko.Compress.Idempotent

/-!
# Handles in the marks

The handle of a policy stands in every mark. Two handles that take the same room (`Alike`) lead to
results of the same length, so that an input is compressed with the one if and only if it is with
the other.

**Theorem (`compress_alike_iff`).** With two different handles of this kind the texts that come back
are the same, if and only if nothing is left out of the input.

With one mark in the result, the texts are different from the handle on. Without a mark there is no
handle in it.
-/

namespace Nasiko.Compress

open List Json JsonDoc Str

open Str (lines)

def Policy.withHandle (policy : Policy) (handle : Str) : Policy :=
  { policy with recoveryRef := some handle }

/-- Two handles that take the same room, in a text and in a string of a document. -/
structure Alike (h h' : Str) : Prop where
  length : h.length = h'.length
  bytes : utf8Len h = utf8Len h'
  plain : ∀ c ∈ h, Json.IsPlain c
  plain' : ∀ c ∈ h', Json.IsPlain c

section

variable {h h' : Str} (hali : Alike h h')

include hali

theorem Alike.symm : Alike h' h :=
  ⟨hali.length.symm, hali.bytes.symm, hali.plain', hali.plain⟩

/-! ## Lines -/

theorem length_wrap_alike (body : Str) :
    (wrap body (some h)).length = (wrap body (some h')).length := by
  simp [wrap, hali.length]

theorem utf8Len_wrap_alike (body : Str) :
    utf8Len (wrap body (some h)) = utf8Len (wrap body (some h')) := by
  simp [wrap, hali.bytes]

theorem wrap_alike_ne (hne : h ≠ h') (body : Str) : wrap body (some h) ≠ wrap body (some h') := by
  intro heq
  simp only [wrap, append_assoc, append_cancel_left_eq] at heq
  exact hne (append_inj heq hali.length).1

theorem markLine_alike (body : Nat → Str) (dropped : Nat) :
    (markLine (fun n => wrap (body n) (some h)) dropped).length =
        (markLine (fun n => wrap (body n) (some h')) dropped).length ∧
      utf8Len (markLine (fun n => wrap (body n) (some h)) dropped) =
        utf8Len (markLine (fun n => wrap (body n) (some h')) dropped) := by
  unfold markLine
  split_ifs
  · rw [length_append, length_append, utf8Len_append, utf8Len_append,
      length_wrap_alike hali, utf8Len_wrap_alike hali]
    exact ⟨rfl, rfl⟩
  · exact ⟨rfl, rfl⟩

theorem utf8Len_render_alike (body : Nat → Str) (dropped : Nat) (marked : List (Str × Bool)) :
    utf8Len (render (fun n => wrap (body n) (some h)) dropped marked) =
      utf8Len (render (fun n => wrap (body n) (some h')) dropped marked) := by
  induction marked generalizing dropped with
  | nil => exact (markLine_alike hali body dropped).2
  | cons e rest ih =>
    obtain ⟨line, keep⟩ := e
    cases keep with
    | false => exact ih (dropped + 1)
    | true =>
      simp only [render, utf8Len_append]
      rw [(markLine_alike hali body dropped).2, ih]

theorem render_alike_ne (hne : h ≠ h') (body : Nat → Str) {dropped : Nat}
    {marked : List (Str × Bool)} (hdrp : 0 < dropped ∨ ∃ e ∈ marked, e.2 = false) :
    render (fun n => wrap (body n) (some h)) dropped marked ≠
      render (fun n => wrap (body n) (some h')) dropped marked := by
  have hmark : ∀ n, 0 < n → markLine (fun n => wrap (body n) (some h)) n ≠
      markLine (fun n => wrap (body n) (some h')) n := by
    intro n hn heq
    rw [markLine, markLine, if_pos hn, if_pos hn] at heq
    exact wrap_alike_ne hali hne (body n) (append_cancel_right heq)
  induction marked generalizing dropped with
  | nil => exact hmark dropped (hdrp.resolve_right (by simp))
  | cons e rest ih =>
    obtain ⟨line, keep⟩ := e
    cases keep with
    | false => exact ih (Or.inl (Nat.succ_pos dropped))
    | true =>
      intro heq
      simp only [render, append_assoc] at heq
      obtain ⟨hhead, htail⟩ := append_inj heq (markLine_alike hali body dropped).1
      rw [append_cancel_left_eq, append_cancel_left_eq] at htail
      rcases hdrp with hdro | ⟨e, he, hkeep⟩
      · exact hmark dropped hdro hhead
      · rcases mem_cons.1 he with rfl | he
        · cases hkeep
        · exact ih (Or.inr ⟨e, he, hkeep⟩) htail

theorem LineWork.text_alike_iff (hne : h ≠ h') (w : LineWork) :
    w.text (some h) = w.text (some h') ↔ ¬ w.LeavesOut := by
  refine ⟨fun heq hout => render_alike_ne hali hne w.body (Or.inr hout) heq, fun hkept => ?_⟩
  have hall : ∀ e ∈ w.marked, e.2 = true := fun e he =>
    Bool.of_not_eq_false fun hfal => hkept ⟨e, he, hfal⟩
  rw [LineWork.text, LineWork.text, render_of_all_kept hall, render_of_all_kept hall]

/-! ## Documents -/

namespace JsonDoc

variable {N : Type} {numText : N → Str} {policy : Policy} {v : Json N}

omit hali in
theorem collapses_withHandle (k : Str) (vs : List (Json N)) :
    collapses (policy.withHandle k) vs = collapses policy vs := rfl

omit hali in
theorem Reducible.of_withHandle {k : Str} (hv : Reducible (policy.withHandle k) v) :
    Reducible policy v := by
  induction hv with
  | string hlen => exact .string hlen
  | collapse hc => exact .collapse hc
  | item hv _ ih => exact .item hv ih
  | field hf hkey _ ih => exact .field hf hkey ih

/-- Two documents whose texts are of the same length. -/
def SameRoom (numText : N → Str) (v w : Json N) : Prop :=
  utf8Len (Json.write numText v) = utf8Len (Json.write numText w)

omit hali in
theorem utf8Len_intercalate {ss ts : List Str} (sep : Str)
    (hall : Forall₂ (fun s t => utf8Len s = utf8Len t) ss ts) :
    utf8Len (sep.intercalate ss) = utf8Len (sep.intercalate ts) := by
  induction hall with
  | nil => rfl
  | cons hs hall ih =>
    cases hall with
    | nil => simpa using hs
    | cons _ _ => simp only [intercalate_cons_cons, utf8Len_append, hs, ih]

omit hali in
theorem sameRoom_array {vs ws : List (Json N)} (hvs : Forall₂ (SameRoom numText) vs ws) :
    SameRoom numText (.array vs) (.array ws) := by
  simp only [SameRoom, write, utf8Len_cons, utf8Len_append, writeItems_eq]
  rw [utf8Len_intercalate]
  rw [forall₂_map_left_iff, forall₂_map_right_iff]
  exact hvs

omit hali in
theorem sameRoom_object {fs gs : List (Str × Json N)}
    (hfs : Forall₂ (fun f g => f.1 = g.1 ∧ SameRoom numText f.2 g.2) fs gs) :
    SameRoom numText (.object fs) (.object gs) := by
  simp only [SameRoom, write, utf8Len_cons, utf8Len_append, writeFields_eq]
  rw [utf8Len_intercalate]
  rw [forall₂_map_left_iff, forall₂_map_right_iff]
  refine hfs.imp fun f g hfg => ?_
  obtain ⟨hkey, hval⟩ := hfg
  simp only [writeField, hkey, utf8Len_append, utf8Len_cons]
  rw [hval]

theorem utf8Len_writeChars_wrap (body : Str) : utf8Len (writeChars (wrap body (some h))) =
      utf8Len (writeChars (wrap body (some h'))) := by
  simp only [wrap, writeChars_append, writeChars_of_isPlain hali.plain,
    writeChars_of_isPlain hali.plain', utf8Len_append, hali.bytes]

theorem sameRoom_collapse {vs ws : List (Json N)} (hvs : Forall₂ (SameRoom numText) vs ws) :
    Forall₂ (SameRoom numText) (collapse (policy.withHandle h) vs)
      (collapse (policy.withHandle h') ws) := by
  have hlen := hvs.length_eq
  simp only [collapse, hlen]
  refine rel_append (forall₂_take _ hvs) (.cons ?_ (forall₂_drop _ hvs))
  simp [SameRoom, write, writeString, elidedItems, Policy.withHandle, utf8Len_writeChars_wrap hali]

theorem sameRoom_reduce (v : Json N) :
    SameRoom numText (reduce (policy.withHandle h) v) (reduce (policy.withHandle h') v) := by
  induction v using induct with
  | null | bool b | number n => rfl
  | string s =>
    by_cases hlen : policy.level.maxStringChars * 2 / 3 + policy.level.maxStringChars / 3 < s.length
    · rw [reduce, reduce, reduceString_of_lt (policy.withHandle h) hlen,
        reduceString_of_lt (policy.withHandle h') hlen]
      simp [SameRoom, write, writeString,
        writeChars_append, elidedChars, Policy.withHandle, utf8Len_writeChars_wrap hali]
    · have hsho : ∀ k, reduceString (policy.withHandle k) s = s := fun _ =>
        reduceString_of_le (not_lt.1 hlen)
      rw [reduce, reduce, hsho, hsho, SameRoom]
  | array vs ih =>
    have hit : Forall₂ (SameRoom numText) (reduceItems (policy.withHandle h) vs)
        (reduceItems (policy.withHandle h') vs) := by
      rw [reduceItems_eq_map, reduceItems_eq_map, forall₂_map_left_iff,
        forall₂_map_right_iff, forall₂_same]
      exact ih
    rw [reduce, reduce, collapses_withHandle, collapses_withHandle]
    split_ifs
    · exact sameRoom_array (sameRoom_collapse hali hit)
    · exact sameRoom_array hit
  | object fs ih =>
    rw [reduce, reduce, reduceFields_eq_map, reduceFields_eq_map]
    refine sameRoom_object ?_
    rw [forall₂_map_left_iff, forall₂_map_right_iff, forall₂_same]
    intro f hf
    refine ⟨rfl, ?_⟩
    rw [reduceField, reduceField]
    split_ifs
    · rfl
    · exact ih f hf

variable {M : Type} (hne : h ≠ h') (f : N → M)

include hne

theorem collapse_alike_ne {vs ws : List (Json N)} (hlen : vs.length = ws.length) :
    (collapse (policy.withHandle h) vs).map (mapNumbers f) ≠
      (collapse (policy.withHandle h') ws).map (mapNumbers f) := by
  intro heq
  simp only [collapse, hlen, map_append] at heq
  obtain ⟨-, htail⟩ := append_inj heq (by simp [hlen, Policy.withHandle])
  exact wrap_alike_ne hali hne _ (string.inj (cons.inj htail).1)

/-- What is taken out of a document leaves different marks. -/
theorem reduce_alike_ne (hv : Reducible policy v) : (reduce (policy.withHandle h) v).mapNumbers f ≠
      (reduce (policy.withHandle h') v).mapNumbers f := by
  have hcol : ∀ items : List (Json N), collapses policy items = true →
      (reduce (policy.withHandle h) (.array items)).mapNumbers f ≠
        (reduce (policy.withHandle h') (.array items)).mapNumbers f := by
    intro items hc heq
    rw [reduce, reduce, collapses_withHandle, collapses_withHandle, if_pos hc, if_pos hc,
      mapNumbers, mapNumbers, mapNumbersItems_eq_map,
      mapNumbersItems_eq_map] at heq
    refine collapse_alike_ne hali hne f ?_ (array.inj heq)
    rw [reduceItems_eq_map, reduceItems_eq_map, length_map, length_map]
  induction hv with
  | @string s hlen =>
    rw [reduce, reduce, reduceString_of_lt (policy.withHandle h) hlen,
      reduceString_of_lt (policy.withHandle h') hlen]
    intro heq
    exact wrap_alike_ne hali hne _ (append_cancel_left (append_cancel_right (string.inj heq)))
  | @collapse items hc => exact hcol items hc
  | @item items v hv _ ih =>
    by_cases hc : collapses policy items = true
    · exact hcol items hc
    · rw [reduce, reduce, collapses_withHandle, collapses_withHandle, if_neg hc, if_neg hc,
        mapNumbers, mapNumbers, mapNumbersItems_eq_map,
        mapNumbersItems_eq_map, reduceItems_eq_map, reduceItems_eq_map, map_map,
        map_map]
      exact fun heq => ih (map_inj_left.1 (array.inj heq) v hv)
  | @field fields g hg hkey _ ih =>
    rw [reduce, reduce, mapNumbers, mapNumbers, mapNumbersFields_eq_map,
      mapNumbersFields_eq_map, reduceFields_eq_map, reduceFields_eq_map, map_map,
      map_map]
    intro heq
    have hfld := (Prod.mk.inj (map_inj_left.1 (object.inj heq) g hg)).2
    simp only [reduceField, hkey] at hfld
    exact ih hfld

end JsonDoc

end

/-! ## Results -/

section

variable (N : Type) {F : Type} [SerdeJson N F]

/-- The compressor for the shape of the input leaves out a part of it. -/
def LeavesOut (policy : Policy) (input : Str) : Prop :=
  (detect N input = .json ∧ ∃ v, (SerdeJson.fromStr input : Option (Json N)) = some v ∧
    JsonDoc.Reducible policy v) ∨
  ∃ w, lineWork policy input (detect N input) = some w ∧ w.LeavesOut

/-- Something is left out of the input with such a handle: the input is cut, or it is made shorter
by more than whitespace and line ends. -/
def Elided (policy : Policy) (handle input : Str) : Prop :=
  IsCut (policy.withHandle handle) input ∨
    (∃ out, Shrinks N (policy.withHandle handle) input out) ∧ LeavesOut N policy input

end

variable {N F : Type} [SerdeJson N F] {h h' : Str} (hali : Alike h h') (policy : Policy)
  (input : Str)

include hali

theorem isCut_alike (hcut : IsCut (policy.withHandle h) input) :
    IsCut (policy.withHandle h') input :=
  ⟨hcut.tooLong, hcut.hasMiddle, lt_of_eq_of_lt (utf8Len_wrap_alike hali _).symm hcut.shorter⟩

theorem cut_alike_ne (hne : h ≠ h') : cut input (some h) ≠ cut input (some h') := fun heq =>
  wrap_alike_ne hali hne _ (append_cancel_left (append_cancel_right heq))

variable {policy input}

/-- With both handles the same inputs are made shorter, to the same length. -/
theorem Shrinks.alike (hwr : SerdeJson.WritesText N) (hne : h ≠ h') {out : Str}
    (hout : Shrinks N (policy.withHandle h) input out) :
    ∃ out', Shrinks N (policy.withHandle h') input out' ∧
      (out = out' ↔ ¬ LeavesOut N policy input) := by
  obtain ⟨out', hres, hbyt, hiff⟩ : ∃ out', dispatch N (detect N input) input
      (policy.withHandle h') = some out' ∧ utf8Len out = utf8Len out' ∧
      (out = out' ↔ ¬ LeavesOut N policy input) := by
    by_cases hjson : detect N input = .json
    · have hres := hout.result
      rw [hjson] at hres ⊢
      obtain ⟨v, hv, rfl⟩ := Option.map_eq_some_iff.1 hres
      refine ⟨SerdeJson.toText (reduce (policy.withHandle h') v), by
        rw [dispatch, JsonDoc.compress, hv, Option.map_some], ?_, ?_⟩
      · rw [hwr.toText_eq, hwr.toText_eq]
        exact sameRoom_reduce hali v
      · have hlea : LeavesOut N policy input ↔ Reducible policy v := by
          rw [LeavesOut, hjson, hv]
          simp [lineWork]
        rw [hlea, hwr.toText_eq, hwr.toText_eq]
        refine ⟨fun heq hv => ?_, fun hnot => ?_⟩
        · exact reduce_alike_ne hali hne _ hv (write_inj hwr.isNumber_numText heq)
        · rw [reduce_of_not_reducible fun hv => hnot hv.of_withHandle,
            reduce_of_not_reducible fun hv => hnot hv.of_withHandle]
    · obtain ⟨w, hw, rfl⟩ := hout.exists_work hjson
      refine ⟨w.text (some h'), ?_, utf8Len_render_alike hali _ _ _, ?_⟩
      · rw [dispatch_of_ne_json N hjson]
        exact congrArg (Option.map _) hw
      · have hlea : LeavesOut N policy input ↔ w.LeavesOut := by
          rw [LeavesOut, show lineWork policy input (detect N input) = some w from hw]
          simp [hjson]
        rw [hlea]
        exact LineWork.text_alike_iff hali hne w
  refine ⟨out', ⟨hout.size, hout.admits, hout.wet, hres, ?_, hbyt ▸ hout.shorter⟩, hiff⟩
  rintro rfl
  have hlen := length_le_utf8Len out
  rw [hbyt] at hlen
  exact hout.nonempty (length_eq_zero_iff.1 (Nat.le_zero.1 hlen))

/-- **With two different handles the results are the same, if and only if nothing is left out.** -/
theorem compress_alike_iff (hwr : SerdeJson.WritesText N) (hne : h ≠ h') :
    (compress N input (policy.withHandle h)).text = (compress N input (policy.withHandle h')).text ↔
      ¬ Elided N policy h input := by
  by_cases hsi : utf8Len input ≤ policy.maxInputBytes
  · have hcut : ¬ IsCut (policy.withHandle h) input := fun hcut =>
      absurd hcut.tooLong (not_lt.2 hsi)
    rw [Elided, or_iff_right hcut]
    by_cases hshr : ∃ out, Shrinks N (policy.withHandle h) input out
    · obtain ⟨out, hout⟩ := hshr
      obtain ⟨out', hout', hiff⟩ := hout.alike hali hwr hne
      rw [compress_of_shrinks hout, compress_of_shrinks hout', hiff, and_iff_right ⟨out, hout⟩]
    · have hshr' : ∀ out, ¬ Shrinks N (policy.withHandle h') input out := fun out hout => by
        obtain ⟨out', hout', -⟩ := hout.alike hali.symm hwr hne.symm
        exact hshr ⟨out', hout'⟩
      have hsi' : ∀ k, utf8Len input ≤ (policy.withHandle k).maxInputBytes := fun _ => hsi
      rw [compress_of_not_shrinks (hsi' h) (not_exists.1 hshr),
        compress_of_not_shrinks (hsi' h') hshr']
      exact iff_of_true rfl fun h => hshr h.1
  · have hlong : ∀ k, (policy.withHandle k).maxInputBytes < utf8Len input := fun _ =>
      not_le.1 hsi
    have hnot : ¬ ((∃ out, Shrinks N (policy.withHandle h) input out) ∧
        LeavesOut N policy input) := fun ⟨⟨_, hout⟩, _⟩ => hsi hout.size
    rw [Elided, or_iff_left hnot]
    by_cases hcut : IsCut (policy.withHandle h) input
    · rw [compress_of_isCut N hcut, compress_of_isCut N (isCut_alike hali policy input hcut)]
      exact iff_of_false (cut_alike_ne hali input hne) (not_not.2 hcut)
    · have hcut' : ¬ IsCut (policy.withHandle h') input := fun hcut' =>
        hcut (isCut_alike hali.symm policy input hcut')
      rw [compress_of_not_isCut N (hlong h) hcut, compress_of_not_isCut N (hlong h') hcut']
      exact iff_of_true rfl hcut

end Nasiko.Compress
