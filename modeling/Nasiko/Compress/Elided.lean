import Nasiko.Compress.Compress
import Nasiko.Compress.Marked
import Nasiko.Json.Integers

/-!
# What is left out

The compressors for lines decide for each line whether it is kept. `runs` takes the lines in their
order apart into the longest runs of lines that are not kept, each with the line that ends it.

**Theorem (`lines_elided`).** In a log and in a diff that `compress` makes shorter, each run becomes
one mark that says how long it is, and no line of a run is one that has to be kept.

**Theorem (`matches_counted_iff`).** In the results of a search that `compress` makes shorter, each
mark says how many files its matches are from, if and only if every run is from as many files as all
runs are.

**Theorem (`errors_kept_iff`).** Each value under an error-like key is in the reduced document, if
and only if each of them stands at a place that is not in the middle of an array that is cut.

**Theorem (`faithful_compress`).** Whatever `compress` leaves out is replaced by a mark that says
how much it was: characters in the middle of a text or of a string, lines, or elements in the middle
of an array.
-/

namespace Nasiko.Compress

open List Function Nat Str Bool Prod Json

/-! ## Runs of lines -/

/-- The runs of lines that are not kept, each with the line after it; `run` is the one before. -/
def runs (run : List Str) : List (Str × Bool) → List (List Str × Option Str)
  | [] => [(run, none)]
  | (line, true) :: rest => (run, some line) :: runs [] rest
  | (line, false) :: rest => runs (run ++ [line]) rest

/-- A mark for the run, if it is not empty, and the line after it. -/
def shown (mark : List Str → Str) (piece : List Str × Option Str) : Str :=
  (if piece.1 = [] then [] else mark piece.1 ++ ['\n']) ++ piece.2.elim [] (· ++ ['\n'])

theorem render_eq_shown (marker : Nat → Str) (run : List Str) (marked : List (Str × Bool)) :
    render marker run.length marked =
      (runs run marked).flatMap (shown fun run => marker run.length) := by
  fun_induction runs run marked with
  | case1 run => simp [render, markLine, shown, length_pos_iff, ite_not]
  | case2 run line rest ih => simp_all [render, markLine, shown, length_pos_iff, ite_not]
  | case3 run line rest ih => simpa [render] using ih

theorem Log.mem_of_mem_attachFrames {raised : Bool} {marked : List (Str × Bool)} {line : Str}
    (h : (line, false) ∈ attachFrames raised marked) : (line, false) ∈ marked := by
  fun_induction attachFrames raised marked with
  | case1 => exact h
  | case2 raised line' keep rest kept ih => grind

/-- The text has the lines that are kept, and a mark for each run of the others. -/
structure Elides (mark : List Str → Str) (input : Str) (marked : List (Str × Bool)) (out : Str) :
    Prop where
  lines : marked.map fst = lines input
  text : out = (runs [] marked).flatMap (shown mark)

variable {input out : Str} {policy : Policy}

theorem Log.elides (h : Log.compress input policy = some out) : ∃ marked,
    Elides (fun run => elidedLines run.length policy.recoveryRef) input marked out ∧
      ∀ line, (line, false) ∈ marked →
        Log.isSevere line = false ∧ Log.isStackFrame line = false := by
  simp only [Log.compress, Option.ite_none_left_eq_some, Option.some.injEq] at h
  refine ⟨_, ⟨Log.map_fst_flags _ _ _, h.2.symm.trans (render_eq_shown _ [] _)⟩,
    fun line hline => ?_⟩
  obtain ⟨e, -, he⟩ := mem_map.1 (Log.mem_of_mem_attachFrames hline)
  simp only [Log.keeps, mk.injEq, or_eq_false_iff] at he
  obtain ⟨rfl, ⟨-, hsev⟩, hfra⟩ := he
  exact ⟨hsev, hfra⟩

theorem Diff.elides (h : Diff.compress input policy = some out) : ∃ marked,
    Elides (fun run => elidedLines run.length policy.recoveryRef) input marked out ∧
      ∀ i line, marked[i]? = some (line, false) →
        Diff.isStructural line = false ∧ Diff.isChange line = false ∧
        ∀ j change, (lines input)[j]? = some change → Diff.isChange change = true →
          i + policy.level.diffContext < j ∨ j + policy.level.diffContext < i := by
  simp only [Diff.compress, Option.ite_none_left_eq_some, Option.some.injEq] at h
  refine ⟨_, ⟨by simp [Diff.flags, comp_def], h.2.symm.trans (render_eq_shown _ [] _)⟩,
    fun i line hline => ?_⟩
  simp only [Diff.flags, getElem?_map, getElem?_zipIdx, Option.map_map,
    Option.map_eq_some_iff, Diff.keeps, comp, mk.injEq, or_eq_false_iff,
    any_eq_false] at hline
  obtain ⟨_, hget, rfl, hkept, hfar⟩ := hline
  refine ⟨hkept.1, hkept.2, fun j change hj hcha => ?_⟩
  have hmem : j ∈ Diff.changed (lines input) := by
    refine mem_map.2 ⟨(change, j), mem_filter.2 ⟨?_, hcha⟩, rfl⟩
    exact mem_zipIdx_iff_getElem?.2 (by simpa using hj)
  have hfar := hfar j hmem
  simp at hfar
  omega

/-- **Each run of lines that is left out of a log or a diff becomes one mark with its length**, and
no line of it is severe, a frame, a change, structural or near a change. -/
theorem lines_elided (N : Type) {F : Type} [SerdeJson N F] (input : Str) (policy : Policy)
    (hshort : (compress N input policy).text ≠ input) :
    ((compress N input policy).contentType = .log → ∃ marked,
      Elides (fun run => elidedLines run.length policy.recoveryRef) input marked
        (compress N input policy).text ∧
      ∀ line, (line, false) ∈ marked → Log.isSevere line = false ∧ Log.isStackFrame line = false) ∧
    ((compress N input policy).contentType = .diff → ∃ marked,
      Elides (fun run => elidedLines run.length policy.recoveryRef) input marked
        (compress N input policy).text ∧
      ∀ i line, marked[i]? = some (line, false) →
        Diff.isStructural line = false ∧ Diff.isChange line = false ∧
        ∀ j change, (lines input)[j]? = some change → Diff.isChange change = true →
          i + policy.level.diffContext < j ∨ j + policy.level.diffContext < i) := by
  refine ⟨fun hkind => Log.elides ?_, fun hkind => Diff.elides ?_⟩
  all_goals
    obtain ⟨hshr, hdetect⟩ := shrinks_of_ne hshort (by rw [hkind]; decide)
    have hresult := hshr.result
    rwa [hdetect, hkind] at hresult

/-- A change whose line ends with two carriage returns, and lines without a change. -/
def returnedDiff : Str :=
  "diff --git a/x b/x\n+a\r\r\n b\n one unchanged line\n and another one\n"

theorem lines_elided_returned : ∃ marked,
    Elides (fun run => elidedLines run.length none) returnedDiff marked
      (compress Int returnedDiff eagerPolicy).text := by
  obtain ⟨marked, helides, -⟩ :=
    (lines_elided Int returnedDiff eagerPolicy (by decide +kernel)).2 (by decide +kernel)
  exact ⟨marked, helides⟩

/-- **A line is written with its carriage return, and is then read without it.** -/
theorem return_lost :
    let c := compress Int returnedDiff eagerPolicy
    c.contentType = .diff ∧ c.text ≠ returnedDiff ∧ Diff.isChange "+a\r" = true ∧
      "+a\r".toList ∈ lines returnedDiff ∧ "+a\r".toList ∉ lines c.text := by
  decide +kernel

/-! ## Matches -/

variable {recoveryRef : Option Str}

/-- The number of files can be read from a mark, also with more text behind it. -/
theorem elidedMatches_append_inj {n f f' : Nat} {s t : Str} :
    elidedMatches n f recoveryRef ++ s = elidedMatches n f' recoveryRef ++ t ↔ f = f' ∧ s = t := by
  constructor
  · intro h
    have hdig : ∀ k r, (countText k ++ ' ' :: r).takeWhile isDigit = countText k :=
      fun k r => (Text.takeWhile_append_of_all (fun c hc => Json.Integers.isDigit_of_mem hc)
        (by simp [isDigit])).1
    have hf : countText f = countText f' := by
      cases recoveryRef <;>
        simp only [elidedMatches, wrap, append_assoc, append_cancel_left_eq] at h <;>
        simpa [hdig] using congrArg (takeWhile isDigit) h
    obtain rfl : f = f' := by simpa [countText] using congrArg (ofDigitChars 10 · 0) hf
    exact ⟨rfl, append_cancel_left h⟩
  · rintro ⟨rfl, rfl⟩
    rfl

theorem flatMap_shown_eq_iff {files : Nat} {pieces : List (List Str × Option Str)} :
    pieces.flatMap (shown fun run => elidedMatches run.length files recoveryRef) =
      pieces.flatMap (shown fun run =>
        elidedMatches run.length (Search.distinctFiles run) recoveryRef) ↔
    ∀ piece ∈ pieces, piece.1 ≠ [] → Search.distinctFiles piece.1 = files := by
  induction pieces with
  | nil => simp
  | cons piece pieces ih =>
    rw [forall_mem_cons, ← ih]
    by_cases hrun : piece.1 = []
    · simp [shown, hrun]
    · simp [shown, hrun, elidedMatches_append_inj, eq_comm]

/-- The lines of the results, and which of them are kept. -/
def searchFlags (policy : Policy) (input : Str) : List (Str × Bool) :=
  Search.flags policy.level.searchHeadTail.1 policy.level.searchHeadTail.2 (lines input)

theorem Search.elides (h : Search.compress input policy = some out) :
    Elides (fun run => elidedMatches run.length
      (Search.distinctFiles (Search.elided (searchFlags policy input))) policy.recoveryRef)
        input (searchFlags policy input) out := by
  simp only [Search.compress, Option.ite_none_left_eq_some, Option.some.injEq] at h
  exact ⟨by simp [searchFlags, Search.flags, comp_def],
    h.2.2.symm.trans (render_eq_shown _ [] _)⟩

/-- **Each mark counts the files of its matches, if and only if every run of matches that are left
out is from as many files as all of them.** -/
theorem matches_counted_iff (N : Type) {F : Type} [SerdeJson N F] (input : Str) (policy : Policy)
    (hshort : (compress N input policy).text ≠ input)
    (hkind : (compress N input policy).contentType = .searchResults) :
    Elides (fun run => elidedMatches run.length (Search.distinctFiles run) policy.recoveryRef)
        input (searchFlags policy input) (compress N input policy).text ↔
      ∀ piece ∈ runs [] (searchFlags policy input), piece.1 ≠ [] → Search.distinctFiles piece.1 =
          Search.distinctFiles (Search.elided (searchFlags policy input)) := by
  obtain ⟨hshr, hdetect⟩ := shrinks_of_ne hshort (by rw [hkind]; decide)
  have hresult := hshr.result
  rw [hdetect, hkind] at hresult
  have helides := Search.elides hresult
  rw [← flatMap_shown_eq_iff]
  constructor
  · intro h
    exact helides.text.symm.trans h.text
  · intro heq
    exact ⟨helides.lines, helides.text.trans heq⟩

/-- Matches from two files of which two next to each other are left out. -/
def matchesTogether : Str :=
  "a:1:x\na:2:x\na:3:x\na:4:a match that is not kept\nb:5:and one of another file\na:6:x\n"

theorem matches_counted_iff_together :
    Elides (fun run => elidedMatches run.length (Search.distinctFiles run) none) matchesTogether
      (searchFlags eagerPolicy matchesTogether) (compress Int matchesTogether eagerPolicy).text :=
  (matches_counted_iff Int _ eagerPolicy (by decide +kernel) (by decide +kernel)).2
    (by decide +kernel)

/-- Two matches that are left out, with one between them that is kept. -/
def matchesApart : Str := "a:1:x\na:2:x\na:3:x\n" ++
  "a:4:a match that is not kept, and is longer than its mark\nb:5:error\n" ++
  "b:6:another one that is not kept, and is longer than its mark\na:7:x\n"

/-- **One match, said to be from two files.** -/
theorem files_of_other_runs_counted :
    (compress Int matchesApart eagerPolicy).contentType = .searchResults ∧
    (compress Int matchesApart eagerPolicy).text =
      ("a:1:x\na:2:x\na:3:x\n[⋯ 1 more matches in 2 files elided ⋯]\nb:5:error\n" ++
        "[⋯ 1 more matches in 2 files elided ⋯]\na:7:x\n").toList := by
  decide +kernel

/-! ## Values under error-like keys -/

namespace JsonDoc

variable {N : Type}

/-- The value stands under the key, at any depth. -/
inductive Under (key : Str) (v : Json N) : Json N → Prop
  | here {fields : List (Str × Json N)} : (key, v) ∈ fields → Under key v (.object fields)
  | field {fields : List (Str × Json N)} {f : Str × Json N} : f ∈ fields → Under key v f.2 →
      Under key v (.object fields)
  | item {items : List (Json N)} {w : Json N} : w ∈ items → Under key v w →
      Under key v (.array items)

/-- The elements of an array that are not cut out. -/
def remaining (policy : Policy) (items : List (Json N)) : List (Json N) :=
  if collapses policy items then
    items.take policy.level.jsonArrayHeadTail.1 ++
      items.drop (items.length - policy.level.jsonArrayHeadTail.2)
  else items

/-- The value stands under the key, at a place that is not cut out. Nothing is cut out below an
error-like key. -/
inductive Spared (policy : Policy) (key : Str) (v : Json N) : Json N → Prop
  | here {fields : List (Str × Json N)} : (key, v) ∈ fields → Spared policy key v (.object fields)
  | within {fields : List (Str × Json N)} {f : Str × Json N} : f ∈ fields → isPreserved f.1 = true →
      Under key v f.2 → Spared policy key v (.object fields)
  | field {fields : List (Str × Json N)} {f : Str × Json N} : f ∈ fields → isPreserved f.1 = false →
      Spared policy key v f.2 → Spared policy key v (.object fields)
  | item {items : List (Json N)} {w : Json N} : w ∈ remaining policy items →
      Spared policy key v w → Spared policy key v (.array items)

variable {policy : Policy} {key : Str} {v : Json N} {items : List (Json N)}

theorem under_array_iff : Under key v (.array items) ↔ ∃ w ∈ items, Under key v w := by
  constructor
  · rintro (_ | _ | ⟨hw, h⟩)
    exact ⟨_, hw, h⟩
  · rintro ⟨w, hw, h⟩
    exact .item hw h

theorem mem_of_mem_remaining {w : Json N} (h : w ∈ remaining policy items) : w ∈ items := by
  rw [remaining] at h
  split_ifs at h
  · exact (mem_append.1 h).elim mem_of_mem_take mem_of_mem_drop
  · exact h

theorem under_reduce_array_iff (items : List (Json N)) :
    Under key v (reduce policy (.array items)) ↔
      ∃ w ∈ remaining policy items, Under key v (reduce policy w) := by
  have hmark : ∀ s, ¬ Under key v (.string s : Json N) := by
    intro s h
    cases h
  rw [reduce, remaining, reduceItems_eq_map]
  split_ifs
  · simp [under_array_iff, collapse, or_and_right, exists_or, hmark, ← map_take, ← map_drop]
  · simp [under_array_iff]

theorem under_reduce_iff (hkey : isPreserved key = true) {doc : Json N} :
    Under key v (reduce policy doc) ↔ Spared policy key v doc := by
  induction doc using induct with
  | null | bool b | number n | string s =>
    constructor
    all_goals
      intro h
      cases h
  | array items ih =>
    rw [under_reduce_array_iff]
    constructor
    · rintro ⟨w, hw, h⟩
      exact .item hw ((ih w (mem_of_mem_remaining hw)).1 h)
    · rintro (_ | _ | _ | ⟨hw, h⟩)
      exact ⟨_, hw, (ih _ (mem_of_mem_remaining hw)).2 h⟩
  | object fields ih =>
    rw [reduce, reduceFields_eq_map]
    constructor
    · rintro (hmem | ⟨hmem, h⟩)
      · obtain ⟨f, hf, heq⟩ := mem_map.1 hmem
        cases heq
        rw [if_pos hkey]
        exact .here hf
      · obtain ⟨f, hf, rfl⟩ := mem_map.1 hmem
        cases hpre : isPreserved f.1 with
        | true => exact .within hf hpre (by simpa [reduceField, hpre] using h)
        | false => exact .field hf hpre ((ih f hf).1 (by simpa [reduceField, hpre] using h))
    · rintro (hmem | ⟨hf, hpre, h⟩ | ⟨hf, hpre, h⟩)
      · exact .here (mem_map.2 ⟨_, hmem, by simp [reduceField, hkey]⟩)
      · exact .field (mem_map_of_mem hf) (by simpa [reduceField, hpre] using h)
      · exact .field (mem_map_of_mem hf) (by simpa [reduceField, hpre] using (ih _ hf).2 h)

/-- **Each value under an error-like key is in the reduced document, if and only if each of them
stands at a place that is not cut out.** -/
theorem errors_kept_iff (policy : Policy) (doc : Json N) :
    (∀ key v, isPreserved key = true → Under key v doc → Under key v (reduce policy doc)) ↔
      ∀ key v, isPreserved key = true → Under key v doc → Spared policy key v doc := by
  constructor
  · intro h key v hkey hund
    exact (under_reduce_iff hkey).1 (h key v hkey hund)
  · intro h key v hkey hund
    exact (under_reduce_iff hkey).2 (h key v hkey hund)

def aggressive : Policy := { Policy.default with level := .aggressive }

/-- 40 objects with an error each. -/
def errorItems : List (Json Int) := (List.range 40).map fun n => .object [("error", .number n)]

/-- **An error in the middle of an array is cut out.** -/
theorem error_cut_out :
    isPreserved "error" = true ∧ Under "error" (.number 20) (.array errorItems) ∧
      ¬ Under "error" (.number 20) (reduce aggressive (.array errorItems)) := by
  refine ⟨by decide, .item (mem_map.2 ⟨20, by decide, rfl⟩) (.here (by simp)), ?_⟩
  have hrem : remaining aggressive errorItems =
      [.object [("error", .number 0)], .object [("error", .number 39)]] := by rfl
  rw [under_reduce_iff (by decide)]
  rintro (_ | _ | _ | ⟨hw, h⟩)
  rcases mem_pair.1 hw with rfl | rfl
  all_goals
    cases h with
    | here hmem => simp at hmem
    | within hf _ h | field hf _ h =>
      obtain rfl := mem_singleton.1 hf
      cases h

/-- The second document is the first one, with a mark for whatever is left out. -/
inductive Leaves (recoveryRef : Option Str) : Json N → Json N → Prop
  | same (v : Json N) : Leaves recoveryRef v v
  | middle (head mid tail : Str) : Leaves recoveryRef (.string (head ++ (mid ++ tail)))
      (.string (head ++ elidedChars mid.length recoveryRef ++ tail))
  | items {vs ws : List (Json N)} : Forall₂ (Leaves recoveryRef) vs ws →
      Leaves recoveryRef (.array vs) (.array ws)
  | elements {head head' tail tail' : List (Json N)} (mid : List (Json N)) :
      Forall₂ (Leaves recoveryRef) head head' → Forall₂ (Leaves recoveryRef) tail tail' →
      Leaves recoveryRef (.array (head ++ (mid ++ tail))) (.array (head' ++
        .string (elidedItems mid.length (head ++ (mid ++ tail)).length recoveryRef) :: tail'))
  | fields {fs gs : List (Str × Json N)} : fs.map fst = gs.map fst →
      Forall₂ (fun f g => Leaves recoveryRef f.2 g.2) fs gs →
      Leaves recoveryRef (.object fs) (.object gs)

theorem leaves_collapse {head tail : Nat} {f : Json N → Json N} {recoveryRef : Option Str}
    (hlen : head + tail ≤ items.length) (hf : ∀ v ∈ items, Leaves recoveryRef v (f v)) :
    Leaves recoveryRef (.array items) (.array ((items.map f).take head ++
      .string (elidedItems (items.length - head - tail) items.length recoveryRef) ::
        (items.map f).drop (items.length - tail))) := by
  have hforall : ∀ vs, vs ⊆ items → Forall₂ (Leaves recoveryRef) vs (vs.map f) := fun vs hvs =>
    forall₂_map_right_iff.2 (forall₂_same.2 fun v hv => hf v (hvs hv))
  have hsplit : items.take head ++ ((items.drop head).take (items.length - head - tail) ++
      items.drop (items.length - tail)) = items := by
    rw [show items.drop (items.length - tail) =
        (items.drop head).drop (items.length - head - tail) by rw [drop_drop]; congr 1; omega,
      take_append_drop, take_append_drop]
  have h := Leaves.elements ((items.drop head).take (items.length - head - tail))
    (hforall _ (take_subset head items)) (hforall _ (drop_subset (items.length - tail) items))
  rwa [hsplit, length_take, length_drop, min_eq_left (sub_le ..), map_take, map_drop] at h

theorem leaves_reduce (policy : Policy) (v : Json N) :
    Leaves policy.recoveryRef v (reduce policy v) := by
  induction v using induct with
  | null | bool b | number n => exact .same _
  | string s =>
    rw [reduce]
    rcases lt_or_ge (policy.level.maxStringChars * 2 / 3 + policy.level.maxStringChars / 3)
      s.length with hlt | hge
    · have h : Leaves (N := N) policy.recoveryRef _ _ := .middle
        (takeChars s (policy.level.maxStringChars * 2 / 3))
        (middle s (policy.level.maxStringChars * 2 / 3) (policy.level.maxStringChars / 3))
        (tailChars s (policy.level.maxStringChars / 3))
      rw [append_middle hlt, middle, length_take, length_drop, min_eq_left (sub_le ..)] at h
      rwa [reduceString_of_lt policy hlt]
    · rw [reduceString_of_le hge]
      exact .same _
  | array vs ih =>
    rw [reduce, reduceItems_eq_map]
    split_ifs with hcut
    · simp only [collapses, and_eq_true, not_eq_true', decide_eq_false_iff_not] at hcut
      have hlen : policy.level.jsonArrayHeadTail.1 + policy.level.jsonArrayHeadTail.2 ≤
          vs.length := by omega
      rw [collapse, length_map]
      exact leaves_collapse hlen ih
    · exact .items (forall₂_map_right_iff.2 (forall₂_same.2 ih))
  | object fs ih =>
    rw [reduce, reduceFields_eq_map]
    refine .fields (by simp [reduceField, comp_def])
      (forall₂_map_right_iff.2 (forall₂_same.2 fun f hf => ?_))
    rw [reduceField]
    split_ifs
    · exact .same _
    · exact ih f hf

end JsonDoc

/-! ## What comes back -/

/-- What may come back for an input: the input, with a mark for whatever is left out. -/
inductive Faithful (N : Type) {F : Type} [SerdeJson N F] (recoveryRef : Option Str) (input : Str) :
    Str → Prop
  | same : Faithful N recoveryRef input input
  | middle (head mid tail : Str) : input = head ++ (mid ++ tail) →
      Faithful N recoveryRef input (head ++ elidedChars mid.length recoveryRef ++ tail)
  | lines {marked : List (Str × Bool)} {out : Str} :
      Elides (fun run => elidedLines run.length recoveryRef) input marked out →
      Faithful N recoveryRef input out
  | hits {marked : List (Str × Bool)} {out : Str} (files : Nat) :
      Elides (fun run => elidedMatches run.length files recoveryRef) input marked out →
      Faithful N recoveryRef input out
  | document {v w : Json N} : SerdeJson.fromStr input = some v → JsonDoc.Leaves recoveryRef v w →
      Faithful N recoveryRef input (SerdeJson.toText w)

/-- **Nothing is left out without a mark that says how much**, and a text that changes gets
shorter. -/
theorem faithful_compress (N : Type) {F : Type} [SerdeJson N F] (input : Str) (policy : Policy) :
    Faithful N policy.recoveryRef input (compress N input policy).text ∧
      ((compress N input policy).text = input ∨
        utf8Len (compress N input policy).text < utf8Len input) := by
  rcases compress_text_cases (N := N) policy input with hsame | ⟨hcut, hout⟩ | hout
  · rw [hsame]
    exact ⟨.same, .inl rfl⟩
  · rw [hout]
    refine ⟨?_, .inr (utf8Len_cut_lt hcut)⟩
    have h : Faithful N policy.recoveryRef input _ := .middle _ _ _
      (append_middle hcut.hasMiddle).symm
    rwa [middle, length_take, length_drop, min_eq_left (sub_le ..)] at h
  · refine ⟨?_, .inr hout.shorter⟩
    have hres := hout.result
    cases hkind : detect N input with
    | json =>
      rw [hkind] at hres
      obtain ⟨v, hv, htext⟩ := Option.map_eq_some_iff.1 hres
      rw [← htext]
      exact .document hv (JsonDoc.leaves_reduce policy v)
    | log =>
      rw [hkind] at hres
      obtain ⟨marked, helides, -⟩ := Log.elides hres
      exact .lines helides
    | diff =>
      rw [hkind] at hres
      obtain ⟨marked, helides, -⟩ := Diff.elides hres
      exact .lines helides
    | searchResults =>
      rw [hkind] at hres
      exact .hits _ (Search.elides hres)
    | code | markup | prose =>
      rw [hkind] at hres
      cases hres

end Nasiko.Compress
