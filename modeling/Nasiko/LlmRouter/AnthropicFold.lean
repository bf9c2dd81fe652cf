import Nasiko.LlmRouter.AnthropicEvents
import Nasiko.LlmRouter.Folding

/-!
# What a client puts together from the events

A client keeps the content blocks of a message by their indices and adds every delta to the block it
names (`putTogether`). A client of the chunks themselves would add up the text, and the fragments of
tool calls by their index (`fold`).

**Theorem (`faithful_iff`).** For a reply whose calls differ from each other, and whose ids and
names are not empty, the two agree exactly if each call has one fragment with an id or a name, these
fragments come in the order in which the calls first come, and no arguments of a call come before
it.

Every fragment with an id or a name starts a block, and a fragment without is dropped if its index
has none. `heard` is what is not dropped. As long as no index is started twice, `Assembled` relates
the blocks to the calls in `heard` by `tool_index_map`. In general the blocks have the ids and the
names of the fragments that start them (`labels_stream`), so a call that is not started is missing,
and one that is started twice is one too many.
-/

namespace Nasiko.LlmRouter.Anthropic

open List Emitter Function Event Piece
open StreamRenderer (isStart)

/-! ## Two ways to put a reply together -/

/-- A content block, as far as it has come. -/
inductive Block where
  | text (text : Str)
  | toolUse (call : Call)
  deriving DecidableEq

namespace Block

def new : ContentBlock → Block
  | .text t => text t
  | .toolUse id name => toolUse ⟨id, name, []⟩

def add : Block → BlockDelta → Block
  | text t, .textDelta s => text (t ++ s)
  | toolUse c, .inputJsonDelta s => toolUse { c with arguments := c.arguments ++ s }
  | b, _ => b

def words : Block → Str
  | text t => t
  | toolUse _ => []

def call? : Block → Option Call
  | text _ => none
  | toolUse c => some c

end Block

def assemble (content : List (Int × Block)) : Event → List (Int × Block)
  | .contentBlockStart index block => content ++ [(index, .new block)]
  | .contentBlockDelta index delta =>
    content.map fun e => if e.1 = index then (e.1, e.2.add delta) else e
  | _ => content

def putTogether (events : List Event) : Reply :=
  let content := events.foldl assemble []
  ⟨content.flatMap fun e => e.2.words, content.filterMap fun e => e.2.call?⟩

variable (chunks : List ChatChunk)

/-- The events tell what the chunks tell. -/
def Faithful : Prop := putTogether (stream chunks) = fold chunks

/-! ## The fragments of the calls -/

variable (ds : List ToolCallDelta)

/-- The calls that the fragments make, by their indices. -/
def gather : List (Int × Folding) := ds.foldl addFragment []

/-- The indices of the calls, in the order in which they first come. -/
def keys : List Int := (gather ds).map Prod.fst

/-- The indices of the fragments with an id or a name. -/
def starts : List Int :=
  (ds.filter isStart).map (·.index)

/-- A fragment that comes before its call is started has no arguments. -/
def Proper (before : List ToolCallDelta) (d : ToolCallDelta) : Prop :=
  isStart d = false → d.index ∉ starts before → d.text = []

/-- Every call is started once, in the order in which the calls first come, and has no arguments
before that. -/
structure WellFormed : Prop where
  order : keys (fragments chunks) = starts (fragments chunks)
  early : Throughout Proper (fragments chunks)

variable {ds : List ToolCallDelta} {d : ToolCallDelta}

theorem gather_snoc : gather (ds ++ [d]) = addFragment (gather ds) d := foldl_concat _ _ _ _

theorem keys_snoc : keys (ds ++ [d]) =
    if d.index ∈ keys ds then keys ds else keys ds ++ [d.index] := by
  rw [keys, gather_snoc]
  exact keys_addFragment _ d

theorem starts_snoc_start (hd : isStart d = true) :
    starts (ds ++ [d]) = starts ds ++ [d.index] := by
  simp [starts, hd]

theorem starts_snoc (hd : isStart d = false) : starts (ds ++ [d]) = starts ds := by
  simp [starts, hd]

theorem nodup_keys : (keys ds).Nodup := by
  induction ds using reverseRecOn with
  | nil => exact nodup_nil
  | append_singleton ds d ih =>
    rw [keys_snoc]
    split
    · exact ih
    · exact nodup_append.2 ⟨ih, nodup_singleton _, by grind⟩

theorem label_of_not_start (hd : isStart d = false) : d.id = none ∧ d.name = none := by
  simpa [StreamRenderer.isStart] using hd

/-! ## What is heard -/

def hears (before : List ToolCallDelta) (d : ToolCallDelta) : Bool :=
  isStart d || decide (d.index ∈ starts before)

/-- The fragments without those that come before their call is started. -/
def heard (ds : List ToolCallDelta) : List ToolCallDelta :=
  ds.foldl (fun before d => if hears before d then before ++ [d] else before) []

theorem heard_snoc :
    heard (ds ++ [d]) = if hears (heard ds) d then heard ds ++ [d] else heard ds :=
  foldl_concat _ _ _ _

theorem starts_heard : starts (heard ds) = starts ds := by
  induction ds using reverseRecOn with
  | nil => rfl
  | append_singleton ds d ih =>
    rw [heard_snoc, hears]
    cases hd : isStart d with
    | true => rw [Bool.true_or, if_pos rfl, starts_snoc_start hd, starts_snoc_start hd, ih]
    | false =>
      rw [starts_snoc hd, ← ih]
      split
      · rw [starts_snoc hd]
      · rfl

/-- The three things that may happen to the next fragment, as long as no call is started twice. -/
theorem snoc_cases {P : List ToolCallDelta → Prop} (hnodup : (starts (ds ++ [d])).Nodup)
    (hstart : isStart d = true → d.index ∉ starts ds → P (heard ds ++ [d]))
    (hgoes : isStart d = false → d.index ∈ starts ds → P (heard ds ++ [d]))
    (hdrop : isStart d = false → d.index ∉ starts ds → P (heard ds)) :
    P (heard (ds ++ [d])) := by
  rw [heard_snoc, hears, starts_heard]
  cases hd : isStart d with
  | true =>
    rw [starts_snoc_start hd] at hnodup
    exact hstart hd fun hmem => (nodup_append.1 hnodup).2.2 _ hmem _ (mem_singleton_self _) rfl
  | false =>
    by_cases hmem : d.index ∈ starts ds
    · rw [decide_eq_true hmem]
      exact hgoes hd hmem
    · rw [decide_eq_false hmem]
      exact hdrop hd hmem

theorem nodup_of_snoc (h : (starts (ds ++ [d])).Nodup) : (starts ds).Nodup := by
  rw [starts, filter_append, map_append] at h
  exact (nodup_append.1 h).1

theorem keys_heard (h : (starts ds).Nodup) : keys (heard ds) = starts ds := by
  induction ds using reverseRecOn with
  | nil => rfl
  | append_singleton ds d ih =>
    have ih := ih (nodup_of_snoc h)
    refine snoc_cases (P := fun es => keys es = starts (ds ++ [d])) h (fun hd hnew => ?_)
      (fun hd hmem => ?_) fun hd _ => ?_
    · rw [keys_snoc, ih, if_neg hnew, starts_snoc_start hd]
    · rw [keys_snoc, ih, if_pos hmem, starts_snoc hd]
    · rw [ih, starts_snoc hd]

/-! ## The calls by their indices -/

/-- The fragments of an index, put together. -/
def value (ds : List ToolCallDelta) (k : Int) : Folding :=
  ds.foldl (fun f d => if d.index = k then f.add d else f) ⟨none, none, []⟩

theorem value_snoc (k : Int) : value (ds ++ [d]) k =
    if d.index = k then (value ds k).add d else value ds k := foldl_concat _ _ _ _

theorem value_of_not_mem {k : Int} (h : k ∉ keys ds) : value ds k = ⟨none, none, []⟩ := by
  induction ds using reverseRecOn with
  | nil => rfl
  | append_singleton ds d ih =>
    rw [keys_snoc] at h
    rw [value_snoc, if_neg, ih]
    all_goals grind

theorem gather_eq (ds : List ToolCallDelta) :
    gather ds = (keys ds).map fun k => (k, value ds k) := by
  induction ds using reverseRecOn with
  | nil => rfl
  | append_singleton ds d ih =>
    have hkeys : (gather ds).map Prod.fst = keys ds := rfl
    rw [gather_snoc, addFragment, hkeys, keys_snoc, ih]
    simp only [value_snoc]
    split
    · rw [map_map]
      refine map_congr_left fun k _ => ?_
      by_cases hk : d.index = k
      · simp [hk]
      · simp [hk, Ne.symm hk]
    · rename_i hnew
      rw [map_append]
      congr 1
      · refine map_congr_left fun k hk => ?_
        rw [if_neg]
        rintro rfl
        exact hnew hk
      · simp [value_of_not_mem hnew]

/-- The call with an index. -/
def callAt (ds : List ToolCallDelta) (k : Int) : Call := (value ds k).call

theorem fold_calls :
    (fold chunks).calls = (keys (fragments chunks)).map (callAt (fragments chunks)) := by
  have hcalls := calls_foldl chunks ⟨[], []⟩
  change (chunks.foldl foldChunk ⟨[], []⟩).calls = gather (fragments chunks) at hcalls
  rw [fold, hcalls, gather_eq, map_map]
  rfl

/-- What is dropped has no id and no name. -/
theorem value_heard (ds : List ToolCallDelta) (k : Int) :
    (value (heard ds) k).id = (value ds k).id ∧ (value (heard ds) k).name = (value ds k).name ∧
      (value (heard ds) k).arguments <+ (value ds k).arguments := by
  induction ds using reverseRecOn with
  | nil => exact ⟨rfl, rfl, Sublist.refl _⟩
  | append_singleton ds d ih =>
    obtain ⟨hid, hname, hargs⟩ := ih
    rw [heard_snoc, value_snoc]
    split
    · rw [value_snoc]
      split
      · exact ⟨congrArg (·.or d.id) hid, congrArg (·.or d.name) hname, hargs.append_right _⟩
      · exact ⟨hid, hname, hargs⟩
    · rename_i hnot
      obtain ⟨hd, -⟩ := Bool.or_eq_false_iff.1 (Bool.eq_false_iff.2 hnot)
      split
      · rw [Folding.add, (label_of_not_start hd).1, (label_of_not_start hd).2, Option.or_none,
          Option.or_none]
        exact ⟨hid, hname, hargs.trans (sublist_append_left _ _)⟩
      · exact ⟨hid, hname, hargs⟩

theorem proper_iff_length : Throughout Proper ds ↔ ∀ k,
    (value ds k).arguments.length ≤ (value (heard ds) k).arguments.length := by
  induction ds using reverseRecOn with
  | nil => exact iff_of_true throughout_nil fun _ => le_rfl
  | append_singleton ds d ih =>
    rw [throughout_snoc, ih, heard_snoc]
    simp only [value_snoc]
    split
    · rename_i hhears
      have hp : Proper ds d := by
        intro hd hnot
        rw [hears, hd, Bool.false_or, starts_heard] at hhears
        exact absurd (of_decide_eq_true hhears) hnot
      rw [and_iff_left hp]
      refine forall_congr' fun k => ?_
      rw [value_snoc]
      split
      · simp [Folding.add]
      · rfl
    · rename_i hnot
      obtain ⟨hd, hmem⟩ := Bool.or_eq_false_iff.1 (Bool.eq_false_iff.2 hnot)
      rw [starts_heard] at hmem
      constructor
      · rintro ⟨hle, hp⟩ k
        split
        · simpa [Folding.add, hp hd (of_decide_eq_false hmem)] using hle k
        · exact hle k
      · intro hle
        have hlast := hle d.index
        rw [if_pos rfl] at hlast
        have hge := (value_heard ds d.index).2.2.length_le
        simp only [Folding.add, length_append] at hlast
        refine ⟨fun k => ?_, fun _ _ => length_eq_zero_iff.1 (by omega)⟩
        have hk := hle k
        split at hk
        · simp only [Folding.add, length_append] at hk
          omega
        · exact hk

theorem callAt_heard {k : Int}
    (h : (value ds k).arguments.length ≤ (value (heard ds) k).arguments.length) :
    callAt (heard ds) k = callAt ds k := by
  obtain ⟨hid, hname, hargs⟩ := value_heard ds k
  rw [callAt, callAt, Folding.call, Folding.call, hid, hname, hargs.eq_of_length_le h]

/-! ## Piece by piece -/

def Piece.words : Piece → Str
  | text t => t
  | call _ => []

def Piece.fragment? : Piece → Option ToolCallDelta
  | text _ => none
  | call d => some d

theorem read_pieces : (chunks.flatMap pieces).flatMap words = (fold chunks).text ∧
      (chunks.flatMap pieces).filterMap fragment? = fragments chunks := by
  have hfold : ∀ acc : Folded, acc.text ++ (chunks.flatMap pieces).flatMap words =
      (chunks.foldl foldChunk acc).text := by
    induction chunks with
    | nil => exact fun acc => append_nil _
    | cons chunk chunks ih =>
      intro acc
      rw [flatMap_cons, flatMap_append, foldl_cons, ← ih, ← append_assoc, pieces, foldChunk]
      congr 1
      cases chunk.choices.head? with
      | none => exact append_nil _
      | some choice =>
        rcases hte : choice.delta.content with _ | _ | ⟨c, t⟩ <;>
          simp [choicePieces, textPieces, hte, flatMap_map, Piece.words]
  refine ⟨hfold ⟨[], []⟩, ?_⟩
  rw [fragments, filterMap_flatMap]
  refine flatMap_congr fun chunk _ => ?_
  rw [pieces]
  cases chunk.choices.head? with
  | none => rfl
  | some choice =>
    change (choicePieces choice).filterMap fragment? = _
    rw [choicePieces, filterMap_append, filterMap_map]
    rcases choice.delta.content with _ | _ | ⟨c, t⟩ <;> exact filterMap_some

/-! ## The content of the events -/

def content (es : List Event) : List (Int × Block) := es.foldl assemble []

theorem content_append (es es' : List Event) :
    content (es ++ es') = es'.foldl assemble (content es) :=
  foldl_append

namespace StreamRenderer

/-- What holds along the pieces: a fact about the blocks that the start of a message does not
change. -/
theorem forEach_render_invariant {K : List Piece → StreamRenderer → List Event → Prop}
    (hdef : K [] default []) (hfs : ∀ {ps r es} started id model usage reason, K ps r es →
      K ps ⟨started, id, model, usage, reason, r.openBlock, r.nextIndex, r.toolIndexMap⟩ es)
    (hst : ∀ {ps r es} id model usage, K ps r es → K ps r (es ++ [.messageStart id model usage]))
    (hpc : ∀ {ps r es} p, K ps r es → K (ps ++ [p]) (renderPiece p r).1 (es ++ (renderPiece p r).2))
    (chunks : List ChatChunk) :
    K (chunks.flatMap pieces) (forEach render chunks default).1
      (forEach render chunks default).2 := by
  refine forEach_invariant (J := fun chunks r es => K (chunks.flatMap pieces) r es) chunks hdef ?_
  intro read chunk r es hK
  obtain ⟨finishReason, heq⟩ := render_eq chunk r
  have hbeg : K (read.flatMap pieces) (begin chunk r).1 (es ++ (begin chunk r).2) := by
    unfold StreamRenderer.begin
    dsimp only
    split
    · rw [append_nil]
      exact hfs _ _ _ _ _ hK
    · exact hfs _ _ _ _ _ (hst _ _ _ hK)
  have hpie := forEach_invariant_from (pieces chunk) hbeg fun ps p r es h => hpc p h
  obtain ⟨reason, hnote⟩ := noteStop_eq finishReason
    (forEach renderPiece (pieces chunk) (StreamRenderer.begin chunk r).1).1
  rw [heq, hnote, flatMap_append, flatMap_singleton, ← append_assoc]
  exact hfs _ _ _ _ _ hpie

/-- The blocks are the text and the calls that have been folded. -/
structure Assembled (told : Str) (folded : List (Int × Folding)) (r : StreamRenderer)
    (cs : List (Int × Block)) : Prop where
  text : cs.flatMap (fun e => e.2.words) = told
  calls : cs.filterMap (fun e => e.2.call?.map fun c => (some e.1, c)) =
    folded.map fun c => (r.toolIndexMap c.1, c.2.call)
  keys : ∀ k, k ∈ folded.map Prod.fst ↔ (r.toolIndexMap k).isSome = true
  below : ∀ e ∈ cs, e.1 < r.nextIndex
  lastText : ∀ i, r.openBlock = some (.text i) →
    ∃ before t, cs = before ++ [(i, .text t)] ∧ ∀ e ∈ before, e.1 ≠ i

variable {told : Str} {folded : List (Int × Folding)} {r : StreamRenderer}
  {cs : List (Int × Block)}

theorem assemble_close (r : StreamRenderer) (cs : List (Int × Block)) :
    (closeBlock r).2.foldl assemble cs = cs := by
  unfold closeBlock
  split <;> rfl

variable {i : Int} {δ : BlockDelta} {e : Int × Block}

theorem map_of_ne (h : ∀ e ∈ cs, e.1 ≠ i) :
    cs.map (fun e => if e.1 = i then (e.1, e.2.add δ) else e) = cs := by
  refine (map_congr_left fun e he => ?_).trans (map_id cs)
  exact if_neg (h e he)

theorem assemble_last {before : List (Int × Block)} {b : Block} (h : ∀ e ∈ before, e.1 ≠ i) :
    assemble (before ++ [(i, b)]) (.contentBlockDelta i δ) = before ++ [(i, b.add δ)] := by
  rw [assemble, map_append, map_of_ne h]
  simp

theorem Assembled.ensureText (h : Assembled told folded r cs) :
    Assembled told folded (ensureTextBlock r).1 ((ensureTextBlock r).2.foldl assemble cs) ∧
      ∃ i, (ensureTextBlock r).1.openBlock = some (.text i) := by
  rcases ensureTextBlock_cases r with ⟨i, hi, hsame⟩ | hnew
  · rw [hsame]
    exact ⟨h, i, hi⟩
  · rw [hnew, andThen_fst, andThen_snd, closeBlock_fst, foldl_append, assemble_close]
    refine ⟨⟨?_, ?_, h.keys, ?_, ?_⟩, r.nextIndex, rfl⟩
    · change (cs ++ [(r.nextIndex, Block.text [])]).flatMap _ = _
      rw [flatMap_append, h.text]
      exact append_nil _
    · change (cs ++ [(r.nextIndex, Block.text [])]).filterMap _ = _
      rw [filterMap_append, h.calls]
      exact append_nil _
    · intro e he
      rcases mem_append.1 he with he | he
      · exact (h.below e he).trans (Int.lt_succ _)
      · cases mem_singleton.1 he
        exact Int.lt_succ _
    · rintro i ⟨⟩
      exact ⟨cs, [], rfl, fun e he => (h.below e he).ne⟩

theorem Assembled.text_piece (h : Assembled told folded r cs) {t : Str} :
    Assembled (told ++ t) folded (renderText t r).1 ((renderText t r).2.foldl assemble cs) := by
  obtain ⟨h, i, hi⟩ := h.ensureText
  obtain ⟨before, t₀, hcs, hne⟩ := h.lastText i hi
  rw [renderText, andThen_fst, andThen_snd, textDelta_of_open hi, foldl_append,
    foldl_cons, foldl_nil]
  have hte := h.text
  have hcal := h.calls
  have hbel := h.below
  rw [hcs] at hte hcal hbel ⊢
  rw [assemble_last hne]
  refine ⟨?_, ?_, h.keys, ?_, ?_⟩
  · rw [← hte]
    simp [Block.words, Block.add]
  · rw [filterMap_append] at hcal ⊢
    exact hcal
  · intro e he
    rcases mem_append.1 he with he | he
    · exact hbel e (mem_append_left _ he)
    · cases mem_singleton.1 he
      exact hbel (i, .text t₀) (mem_append_right _ (mem_singleton_self _))
  · intro j hj
    cases hi.symm.trans hj
    exact ⟨before, t₀ ++ t, rfl, hne⟩

theorem assemble_start (hd : isStart d = true) (hbel : ∀ e ∈ cs, e.1 < r.nextIndex) :
    (renderToolCall d r).2.foldl assemble cs =
      cs ++ [(r.nextIndex, .toolUse ⟨d.id.getD [], d.name.getD [], d.text⟩)] := by
  have hst : (startToolBlock d (closeBlock r).1).2.foldl assemble cs =
      cs ++ [(r.nextIndex, .toolUse ⟨d.id.getD [], d.name.getD [], []⟩)] := by
    rw [closeBlock_fst]
    rfl
  rw [renderToolCall_of_start hd, andThen_snd, andThen_fst, andThen_snd, argumentsDelta_snd,
    startToolBlock_fst, foldl_append, foldl_append, assemble_close, hst]
  split
  · rename_i hte
    rw [hte]
    rfl
  · simp only [update_self]
    exact assemble_last fun e he => (hbel e he).ne

theorem Assembled.start_piece (h : Assembled told folded r cs) (hd : isStart d = true)
    (hnew : d.index ∉ folded.map Prod.fst) :
    Assembled told (addFragment folded d) (renderToolCall d r).1
      ((renderToolCall d r).2.foldl assemble cs) := by
  have hsta : (renderToolCall d r).1 = { r with
        openBlock := some (.tool r.nextIndex), nextIndex := r.nextIndex + 1,
        toolIndexMap := update r.toolIndexMap d.index (some r.nextIndex) } := by
    rw [renderToolCall_of_start hd, andThen_fst, argumentsDelta_fst, andThen_fst,
      startToolBlock_fst]
  rw [assemble_start hd h.below, hsta, addFragment, if_neg hnew]
  refine ⟨?_, ?_, fun k => ?_, fun e he => ?_, nofun⟩
  · rw [flatMap_append, h.text]
    exact append_nil _
  · rw [filterMap_append, h.calls, map_append]
    congr 1
    · refine map_congr_left fun c hc => ?_
      have hne : c.1 ≠ d.index := fun heq => hnew (heq ▸ mem_map_of_mem hc)
      change _ = (update r.toolIndexMap d.index (some r.nextIndex) c.1, _)
      rw [update_of_ne hne]
    · simp [Block.call?, Folding.call, Folding.add]
  · rw [map_append, mem_append, h.keys]
    by_cases hk : k = d.index <;> simp [hk]
  · rcases mem_append.1 he with he | he
    · exact (h.below e he).trans (Int.lt_succ _)
    · cases mem_singleton.1 he
      exact Int.lt_succ _

/-- A block with more arguments, if it is the one with the index. -/
def extended (i : Int) (s : Str) (e : Int × Block) : Int × Block :=
  if e.1 = i then (e.1, e.2.add (.inputJsonDelta s)) else e

theorem extended_fst (i : Int) (s : Str) (e : Int × Block) : (extended i s e).1 = e.1 := by
  unfold extended
  split <;> rfl

theorem extended_text (i : Int) (s : Str) (j : Int) (t : Str) :
    extended i s (j, .text t) = (j, .text t) := by
  unfold extended
  split <;> rfl

theorem extended_nil (i : Int) (e : Int × Block) : extended i [] e = e := by
  rcases e with ⟨j, t | c⟩
  · exact extended_text i [] j t
  · simp [extended, Block.add]

theorem words_extended {s : Str} : (extended i s e).2.words = e.2.words := by
  rcases e with ⟨j, t | c⟩
  · rw [extended_text]
  · unfold extended
    split <;> rfl

theorem call?_extended {s : Str} :
    ((extended i s e).2.call?.map fun c => (some (extended i s e).1, c)) =
      (e.2.call?.map fun c => (some e.1, c)).map fun x =>
        if x.1 = some i then (x.1, { x.2 with arguments := x.2.arguments ++ s }) else x := by
  rcases e with ⟨j, t | c⟩
  · rw [extended_text]
    rfl
  · by_cases hj : j = i
    · simp [extended, hj, Block.call?, Block.add]
    · simp [extended, hj, Block.call?]

theorem assemble_continue (hd : isStart d = false) (hi : r.toolIndexMap d.index = some i) :
    (renderToolCall d r).1 = r ∧
      (renderToolCall d r).2.foldl assemble cs = cs.map (extended i d.text) := by
  rw [renderToolCall_of_not_start hd]
  refine ⟨argumentsDelta_fst d r, ?_⟩
  rw [argumentsDelta_snd, hi]
  split
  · rename_i hte
    refine (map_id cs).symm.trans (map_congr_left fun e _ => ?_)
    rw [hte, extended_nil]
    rfl
  · rfl

theorem Assembled.continue_piece (h : Assembled told folded r cs)
    (hinj : ∀ k k' i, r.toolIndexMap k = some i → r.toolIndexMap k' = some i → k = k')
    (hd : isStart d = false) (hkno : d.index ∈ folded.map Prod.fst) :
    Assembled told (addFragment folded d) (renderToolCall d r).1
      ((renderToolCall d r).2.foldl assemble cs) := by
  obtain ⟨i, hi⟩ := Option.isSome_iff_exists.1 ((h.keys d.index).1 hkno)
  obtain ⟨hid, hname⟩ := label_of_not_start hd
  obtain ⟨hsta, hcont⟩ := assemble_continue hd hi
  rw [hcont, hsta]
  refine ⟨?_, ?_, fun k => ?_, fun e he => ?_, fun j hj => ?_⟩
  · rw [← h.text, flatMap_map]
    exact flatMap_congr fun e _ => words_extended
  · -- The block of the call is the one that is changed.
    rw [filterMap_map]
    refine (filterMap_congr fun e _ => call?_extended).trans ?_
    rw [← map_filterMap, h.calls, addFragment, if_pos hkno, map_map, map_map]
    refine map_congr_left fun c _ => ?_
    have hblk : r.toolIndexMap c.1 = some i ↔ c.1 = d.index :=
      ⟨fun hc => hinj _ _ i hc hi, fun hc => hc ▸ hi⟩
    by_cases hc : c.1 = d.index
    · simp [hc, hi, Folding.call, Folding.add, hid, hname]
    · simp [hc, hblk]
  · rw [keys_addFragment, if_pos hkno]
    exact h.keys k
  · obtain ⟨e', he', rfl⟩ := mem_map.1 he
    rw [extended_fst]
    exact h.below e' he'
  · obtain ⟨before, t, rfl, hne⟩ := h.lastText j hj
    refine ⟨before.map (extended i d.text), t, ?_, fun e he => ?_⟩
    · rw [map_append, map_singleton, extended_text]
    · obtain ⟨e', he', rfl⟩ := mem_map.1 he
      rw [extended_fst]
      exact hne e' he'

theorem renderToolCall_dropped (hd : isStart d = false) (hi : r.toolIndexMap d.index = none) :
    renderToolCall d r = (r, []) := by
  rw [renderToolCall_of_not_start hd]
  refine Prod.ext (argumentsDelta_fst d r) ?_
  rw [argumentsDelta_snd, hi]
  exact ite_self _

theorem Assembled.piece (h : Assembled told (gather (heard ds)) r cs)
    (hinj : ∀ k k' i, r.toolIndexMap k = some i → r.toolIndexMap k' = some i → k = k')
    (hnodup : (starts (ds ++ [d])).Nodup) :
    Assembled told (gather (heard (ds ++ [d]))) (renderToolCall d r).1
      ((renderToolCall d r).2.foldl assemble cs) := by
  have hkeys : (gather (heard ds)).map Prod.fst = starts ds := keys_heard (nodup_of_snoc hnodup)
  refine snoc_cases (P := fun es => Assembled told (gather es) _ _) hnodup (fun hd hnew => ?_)
    (fun hd hmem => ?_) fun hd hmem => ?_
  · rw [gather_snoc]
    exact h.start_piece hd (hkeys ▸ hnew)
  · rw [gather_snoc]
    exact h.continue_piece hinj hd (hkeys ▸ hmem)
  · have hnone : r.toolIndexMap d.index = none := by
      rw [← Option.not_isSome_iff_eq_none, ← h.keys, hkeys]
      exact hmem
    rw [renderToolCall_dropped hd hnone]
    exact h

/-- As long as no index is started twice, the blocks are the calls that are heard. -/
theorem assembled_heard {chunks : List ChatChunk} (h : (starts (fragments chunks)).Nodup) :
    Assembled (fold chunks).text (gather (heard (fragments chunks)))
      (forEach render chunks default).1 (content (forEach render chunks default).2) := by
  obtain ⟨hwords, hfragments⟩ := read_pieces chunks
  rw [← hfragments] at h ⊢
  rw [← hwords]
  refine (forEach_render_invariant (K := fun ps r es => Tracks ps r ∧
    ((starts (ps.filterMap fragment?)).Nodup → Assembled (ps.flatMap words)
      (gather (heard (ps.filterMap fragment?))) r (content es))) ?_ ?_ ?_ ?_ chunks).2 h
  · exact ⟨tracks_default, fun _ => ⟨rfl, rfl, fun k => ⟨nofun, nofun⟩, nofun, nofun⟩⟩
  · intro ps r es started id model usage reason hK
    exact ⟨{ hK.1 with }, fun hps => { hK.2 hps with }⟩
  · intro ps r es id model usage hK
    rw [content_append]
    exact hK
  · intro ps r es p hK
    refine ⟨(read_renderPiece hK.1 p).2, fun hps => ?_⟩
    rw [content_append, flatMap_append, flatMap_singleton]
    rw [filterMap_append] at hps ⊢
    cases p with
    | text t =>
      rw [show [Piece.text t].filterMap fragment? = [] from rfl, append_nil] at hps ⊢
      exact (hK.2 hps).text_piece
    | call d =>
      rw [show (Piece.call d).words = [] from rfl, append_nil]
      exact (hK.2 (nodup_of_snoc hps)).piece hK.1.injective hps

theorem assemble_finish (r : StreamRenderer) (cs : List (Int × Block)) :
    (finish r).2.foldl assemble cs = cs := by
  have hclo : ∀ r : StreamRenderer, ((closeBlock.andThen fun r =>
      (r, [messageDelta (r.stopReason.getD "end_turn") (anthropicUsage r.usage),
        .messageStop])) r).2.foldl assemble cs = cs := by
    intro r
    rw [andThen_snd, foldl_append, assemble_close]
    rfl
  rw [finish, andThen_snd]
  split <;> exact hclo _

end StreamRenderer

open StreamRenderer

theorem putTogether_stream : putTogether (stream chunks) =
      ⟨(content (forEach render chunks default).2).flatMap fun e => e.2.words,
        (content (forEach render chunks default).2).filterMap fun e => e.2.call?⟩ := by
  have hcont : content (stream chunks) = content (forEach render chunks default).2 := by
    rw [stream, andThen_snd, content_append, assemble_finish]
  rw [← hcont]
  rfl

variable {chunks : List ChatChunk}

theorem putTogether_heard (h : (starts (fragments chunks)).Nodup) :
    putTogether (stream chunks) = ⟨(fold chunks).text,
      (starts (fragments chunks)).map (callAt (heard (fragments chunks)))⟩ := by
  have hall := assembled_heard h
  have hcal := congrArg (map Prod.snd) hall.calls
  rw [map_filterMap, gather_eq, map_map, map_map, keys_heard h] at hcal
  rw [putTogether_stream, hall.text]
  refine congrArg (Reply.mk _) (Eq.trans ?_ hcal)
  refine filterMap_congr fun e _ => ?_
  rw [Option.map_map]
  exact Option.map_id'.symm

theorem faithful_of_wellFormed (h : WellFormed chunks) : Faithful chunks := by
  have hnodup : (starts (fragments chunks)).Nodup := h.order ▸ nodup_keys
  rw [Faithful, putTogether_heard hnodup, ← h.order]
  refine congrArg (Reply.mk _) (Eq.trans ?_ (fold_calls chunks).symm)
  exact map_congr_left fun k _ => callAt_heard (proper_iff_length.1 h.early k)

/-! ## The ids and the names of the blocks -/

def label (c : Call) : Str × Str := (c.id, c.name)

def Event.label? : Event → Option (Str × Str)
  | contentBlockStart _ (.toolUse callId name) => some (callId, name)
  | _ => none

/-- The ids and the names of the fragments that have one. -/
def labels (ds : List ToolCallDelta) : List (Str × Str) :=
  (ds.filter isStart).map fun d => (d.id.getD [], d.name.getD [])

theorem labels_content {es : List Event} :
    ((content es).filterMap fun e => e.2.call?.map label) = es.filterMap Event.label? := by
  induction es using reverseRecOn with
  | nil => rfl
  | append_singleton es e ih =>
    rw [content_append, filterMap_append, ← ih, foldl_cons, foldl_nil]
    cases e with
    | contentBlockStart i b =>
      cases b <;> simp [assemble, Block.new, Block.call?, Event.label?, label]
    | contentBlockDelta i δ =>
      have hsame : ∀ e : Int × Block,
        ((if e.1 = i then (e.1, e.2.add δ) else e).2.call?.map label) =
          e.2.call?.map label := by
        intro e
        split
        · rcases e with ⟨j, t | c⟩ <;> cases δ <;> rfl
        · rfl
      rw [assemble, filterMap_map]
      exact (filterMap_congr fun e _ => hsame e).trans (append_nil _).symm
    | _ => exact (append_nil _).symm

theorem labels_closeBlock (r : StreamRenderer) : (closeBlock r).2.filterMap Event.label? = [] := by
  unfold closeBlock
  split <;> rfl

theorem labels_renderPiece (p : Piece) (r : StreamRenderer) :
    (renderPiece p r).2.filterMap Event.label? = labels p.fragment?.toList := by
  cases p with
  | text t =>
    have hdlt : ∀ r, (textDelta t r).2.filterMap Event.label? = [] := by
      intro r
      unfold textDelta
      split <;> rfl
    change (renderText t r).2.filterMap Event.label? = []
    rw [renderText, andThen_snd, filterMap_append, hdlt]
    rcases ensureTextBlock_cases r with ⟨i, -, hsame⟩ | hnew
    · rw [hsame]
      rfl
    · rw [hnew, andThen_snd, filterMap_append, labels_closeBlock]
      rfl
  | call d =>
    have hdlt : ∀ r, (argumentsDelta d r).2.filterMap Event.label? = [] := by
      intro r
      rw [argumentsDelta_snd]
      split
      · rfl
      · cases r.toolIndexMap d.index <;> rfl
    change (renderToolCall d r).2.filterMap Event.label? = labels [d]
    rw [renderToolCall, andThen_snd, filterMap_append, hdlt, labels]
    split
    · rename_i hd
      rw [andThen_snd, filterMap_append, labels_closeBlock, filter_cons_of_pos hd]
      rfl
    · rename_i hd
      rw [filter_cons_of_neg hd]
      rfl

theorem labels_stream (chunks : List ChatChunk) :
    (putTogether (stream chunks)).calls.map label = labels (fragments chunks) := by
  rw [putTogether_stream, ← (read_pieces chunks).2]
  refine (map_filterMap ..).trans (labels_content.trans ?_)
  refine forEach_render_invariant
    (K := fun ps _ es => es.filterMap Event.label? = labels (ps.filterMap fragment?)) rfl
    (fun _ _ _ _ _ hK => hK) (fun id model usage hK => ?_) (fun p hK => ?_) chunks
  · rw [filterMap_append, hK]
    exact append_nil _
  · rw [filterMap_append, hK, labels_renderPiece, filterMap_append, labels, labels, labels,
      filter_append, map_append]
    cases p <;> rfl

/-! ## The result -/

/-- A fragment with an id or a name has one that is not empty. -/
def Labelled (chunks : List ChatChunk) : Prop := ∀ l ∈ labels (fragments chunks), l ≠ ([], [])

theorem value_label {k : Int} (h : k ∉ starts ds) :
    (value ds k).id = none ∧ (value ds k).name = none := by
  induction ds using reverseRecOn with
  | nil => exact ⟨rfl, rfl⟩
  | append_singleton ds d ih =>
    rw [value_snoc]
    cases hd : isStart d with
    | true =>
      rw [starts_snoc_start hd, mem_append, not_or] at h
      rw [if_neg fun hk => h.2 (mem_singleton.2 hk.symm)]
      exact ih h.1
    | false =>
      rw [starts_snoc hd] at h
      obtain ⟨hid, hname⟩ := ih h
      split
      · rw [Folding.add, hid, hname, (label_of_not_start hd).1, (label_of_not_start hd).2]
        exact ⟨rfl, rfl⟩
      · exact ⟨hid, hname⟩

/-- Every call is started once: none is missing among the blocks, and none is there twice. -/
theorem perm_of_faithful (hlabelled : Labelled chunks) (h : Faithful chunks) :
    keys (fragments chunks) ~ starts (fragments chunks) := by
  have hlabels := labels_stream chunks
  rw [h, fold_calls, map_map] at hlabels
  have hsub : keys (fragments chunks) ⊆ starts (fragments chunks) := by
    intro k hk
    by_contra hnot
    obtain ⟨hid, hname⟩ := value_label hnot
    refine hlabelled _ (hlabels ▸ mem_map_of_mem hk) ?_
    rw [Function.comp_apply, label, callAt, Folding.call, hid, hname]
    rfl
  refine (nodup_keys.subperm hsub).perm_of_length_le ?_
  have hlength := congrArg length hlabels
  rw [length_map, labels, length_map] at hlength
  rw [starts, length_map, hlength]

theorem eq_of_map_eq {f : Int → Call} {l l' : List Int} (h : l.map f = l'.map f)
    (hinj : ∀ x ∈ l, ∀ y ∈ l', f x = f y → x = y) : l = l' := by
  induction l generalizing l' with
  | nil => exact (map_eq_nil_iff.1 h.symm).symm
  | cons x l ih =>
    obtain ⟨y, l', rfl, hxy, hl⟩ := map_eq_cons_iff.1 h.symm
    rw [hinj x mem_cons_self y mem_cons_self hxy.symm,
      ih hl.symm fun x hx y hy => hinj x (mem_cons_of_mem _ hx) y (mem_cons_of_mem _ hy)]

/-- No arguments are dropped if there are as many in the blocks as in the calls. -/
theorem length_le_of_calls (hperm : keys ds ~ starts ds)
    (hcalls : (starts ds).map (callAt (heard ds)) = (keys ds).map (callAt ds)) (k : Int) :
    (value ds k).arguments.length ≤ (value (heard ds) k).arguments.length := by
  by_cases hk : k ∈ keys ds
  · by_contra hlt
    have hsum := congrArg (fun calls => (calls.map fun c : Call => c.arguments.length).sum) hcalls
    simp only [map_map] at hsum
    refine absurd hsum (ne_of_lt ?_)
    rw [← (hperm.map _).sum_eq]
    exact sum_lt_sum _ _ (fun k _ => (value_heard ds k).2.2.length_le) ⟨k, hk, Nat.not_le.1 hlt⟩
  · rw [value_of_not_mem hk]
    exact Nat.zero_le _

/-- **The events of a reply tell what its chunks tell, if every call is started once, in the order
in which the calls first come, and has no arguments before that.** For calls that are labelled and
differ from one another, only if. -/
theorem faithful_iff (chunks : List ChatChunk) : (WellFormed chunks → Faithful chunks) ∧
    (Labelled chunks → (fold chunks).calls.Nodup → (Faithful chunks ↔ WellFormed chunks)) := by
  refine ⟨faithful_of_wellFormed, fun hlabelled hdistinct =>
    ⟨fun h => ?_, faithful_of_wellFormed⟩⟩
  have hperm := perm_of_faithful hlabelled h
  have hcalls := congrArg Reply.calls h
  rw [putTogether_heard (hperm.nodup_iff.1 nodup_keys), fold_calls] at hcalls
  have hlength := length_le_of_calls hperm hcalls
  refine ⟨?_, proper_iff_length.2 hlength⟩
  rw [fold_calls] at hdistinct
  rw [map_congr_left fun k _ => callAt_heard (hlength k)] at hcalls
  exact eq_of_map_eq hcalls.symm fun x hx y hy hxy =>
    inj_on_of_nodup_map hdistinct hx (hperm.mem_iff.2 hy) hxy

/-- A call whose first fragment is empty. -/
def emptyFirst : List ChatChunk :=
  [callChunk [fragment 0 none none none], callChunk [fragment 0 (some "a") (some "search") none],
    callChunk [fragment 0 none none (some "\x7b\x7d")]]

theorem emptyFirst_faithful : Faithful emptyFirst :=
  (faithful_iff emptyFirst).1 ⟨by decide, by
    have hfragments : fragments emptyFirst = [] ++ [fragment 0 none none none] ++
        [fragment 0 (some "a") (some "search") none] ++
        [fragment 0 none none (some "\x7b\x7d")] := rfl
    rw [hfragments, throughout_snoc, throughout_snoc, throughout_snoc]
    exact ⟨⟨⟨throughout_nil, fun _ _ => rfl⟩, nofun⟩, fun _ h => absurd (by decide) h⟩⟩

/-- A provider that sends the id of a call with every fragment. -/
def repeatedId : List ChatChunk :=
  [callChunk [fragment 0 (some "a") (some "search") none],
    callChunk [fragment 0 (some "a") none (some "\x7b\x7d")]]

/-- **One call becomes two.** -/
theorem repeatedId_not_faithful : putTogether (stream repeatedId) ≠ fold repeatedId := by decide

end Nasiko.LlmRouter.Anthropic
