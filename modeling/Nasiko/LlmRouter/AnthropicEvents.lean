import Nasiko.LlmRouter.Anthropic

/-!
# When the events of a stream are in order

A client reads the events with one block in hand: a message starts, then blocks with the indices
0, 1, 2 and so on are opened and closed one after the other, a delta belongs to the block that is
open, and the message ends with its delta and its stop. `Phase` is what the client knows, and
`valid` says that it gets through the events.

**Theorem (`valid_stream_iff`).** The events of a reply are in order exactly if the text of the
arguments of a call comes before anything else is opened: no fragment without an id and a name adds
to the arguments of a call when another call has been started, or text has come, since the call was
started.

The renderer is read piece by piece (`Piece`). For what has been read so far, `Tracks` says which
block is open and which blocks the calls have; one lemma says what the client makes of the events of
a piece (`read_renderPiece`).
-/

namespace Nasiko.LlmRouter.Anthropic

open Emitter Option Function List StreamRenderer Anthropic

/-! ## What a client accepts -/

inductive Phase where
  | begin
  | between (next : Int)
  | inside (index : Int)
  | closing
  | stopped
  deriving DecidableEq

/-- What comes after an event; nothing if the event is out of order. -/
def Phase.after : Phase → Event → Option Phase
  | begin, .messageStart _ _ _ => some (between 0)
  | between next, .contentBlockStart index _ => if index = next then some (inside index) else none
  | inside i, .contentBlockDelta index _ => if index = i then some (inside i) else none
  | inside i, .contentBlockStop index => if index = i then some (between (i + 1)) else none
  | between _, .messageDelta _ _ => some closing
  | closing, .messageStop => some stopped
  | _, _ => none

/-- The client gets from the beginning to the end. -/
def valid (events : List Event) : Bool := events.foldlM Phase.after .begin == some .stopped

/-! ## What the renderer reads -/

/-- Text that is not empty, or a fragment of a tool call. -/
inductive Piece where
  | text (text : Str)
  | call (fragment : ToolCallDelta)
  deriving DecidableEq

def textPieces : Option Str → List Piece
  | some text => if text.isEmpty then [] else [.text text]
  | none => []

def choicePieces (choice : ChunkChoice) : List Piece :=
  textPieces choice.delta.content ++ (choice.delta.toolCalls.getD []).map .call

/-- Only the first choice of a chunk is read. -/
def pieces (chunk : ChatChunk) : List Piece :=
  match chunk.choices.head? with
  | none => []
  | some choice => choicePieces choice

/-- What a piece begins. -/
inductive Opening where
  | text
  | call (index : Int)
  deriving DecidableEq

def Piece.opens : Piece → Option Opening
  | text _ => some .text
  | call d => if isStart d then some (.call d.index) else none

variable (ps : List Piece)

def lastOpened : Option Opening := (ps.filterMap Piece.opens).getLast?

def startedCall (index : Int) : Bool :=
  ps.any fun p => p.opens == some (.call index)

/-- A fragment that goes on with the arguments of a call comes while nothing else has been begun. -/
def Addressed (ps : List Piece) : Piece → Prop
  | .text _ => True
  | .call d => isStart d = false → d.text ≠ [] → startedCall ps d.index = true →
      lastOpened ps = some (.call d.index)

instance (ps : List Piece) : (p : Piece) → Decidable (Addressed ps p)
  | .text _ => isTrue trivial
  | .call d => inferInstanceAs (Decidable (isStart d = false → d.text ≠ [] →
      startedCall ps d.index = true → lastOpened ps = some (.call d.index)))

/-- The arguments of every call come in one go. -/
def Contiguous (chunks : List ChatChunk) : Prop := Throughout Addressed (chunks.flatMap pieces)

theorem lastOpened_snoc (p : Piece) : lastOpened (ps ++ [p]) = p.opens.or (lastOpened ps) := by
  rw [lastOpened]
  cases hp : p.opens with
  | none => simp [hp, lastOpened]
  | some o => simp [hp]

theorem startedCall_snoc (p : Piece) (k : Int) :
    startedCall (ps ++ [p]) k = (startedCall ps k || p.opens == some (.call k)) := by
  simp [startedCall]

/-! ## The renderer, piece by piece -/

namespace StreamRenderer

def renderPiece : Piece → Emitter StreamRenderer Event
  | .text t => renderText t
  | .call d => renderToolCall d

theorem forEach_call (ds : List ToolCallDelta) (r : StreamRenderer) :
    forEach renderPiece (ds.map .call) r = forEach renderToolCall ds r := by
  induction ds generalizing r with
  | nil => rfl
  | cons d ds ih =>
    rw [map_cons, forEach_cons, andThen, ih]
    rfl

theorem forEach_textPieces (content : Option Str) (r : StreamRenderer) :
    forEach renderPiece (textPieces content) r = renderContent content r := by
  cases content with
  | none => rfl
  | some text =>
    rw [textPieces, renderContent]
    split
    · rfl
    · exact Prod.ext rfl (append_nil _)

theorem renderChoice_eq (choice : ChunkChoice) (r : StreamRenderer) : renderChoice choice r =
      (noteStop choice.finishReason (forEach renderPiece (choicePieces choice) r).1,
        (forEach renderPiece (choicePieces choice) r).2) := by
  rw [choicePieces, forEach_append, andThen, forEach_textPieces, forEach_call]
  exact Prod.ext rfl (congrArg ((renderContent choice.delta.content r).2 ++ ·) (append_nil _))

/-- A chunk is rendered piece by piece, after the start of the message. -/
theorem render_eq (chunk : ChatChunk) (r : StreamRenderer) : ∃ finishReason, render chunk r =
        (noteStop finishReason (forEach renderPiece (pieces chunk) (begin chunk r).1).1,
          (begin chunk r).2 ++ (forEach renderPiece (pieces chunk) (begin chunk r).1).2) := by
  unfold render pieces
  cases chunk.choices.head? with
  | none => exact ⟨none, rfl⟩
  | some choice =>
    refine ⟨choice.finishReason, ?_⟩
    change ((renderChoice choice (begin chunk r).1).1,
      (begin chunk r).2 ++ (renderChoice choice (begin chunk r).1).2) = _
    rw [renderChoice_eq]

/-! ## What is open, and which blocks the calls have -/

def Open (block : Option OpenBlock) (map : Int → Option Int) : Option Opening → Prop
  | none => block = none
  | some .text => ∃ i, block = some (.text i) ∧ ∀ k, map k ≠ some i
  | some (.call k) => ∃ i, block = some (.tool i) ∧ map k = some i

structure Tracks (ps : List Piece) (r : StreamRenderer) : Prop where
  last : Open r.openBlock r.toolIndexMap (lastOpened ps)
  next : ∀ b, r.openBlock = some b → b.index + 1 = r.nextIndex
  below : ∀ k i, r.toolIndexMap k = some i → i < r.nextIndex
  injective : ∀ k k' i, r.toolIndexMap k = some i → r.toolIndexMap k' = some i → k = k'
  calls : ∀ k, (r.toolIndexMap k).isSome = startedCall ps k

/-- What the client knows. -/
def phase (r : StreamRenderer) : Phase :=
  match r.openBlock with
  | none => .between r.nextIndex
  | some b => .inside b.index

/-- The client follows. -/
def Reads (f : Emitter StreamRenderer Event) (r : StreamRenderer) : Prop :=
  (f r).2.foldlM Phase.after r.phase = some (f r).1.phase

variable {r : StreamRenderer}

theorem Reads.andThen {f g : Emitter StreamRenderer Event} (hf : Reads f r)
    (hg : Reads g (f r).1) : Reads (f.andThen g) r := by
  unfold Reads at hf hg ⊢
  rw [andThen_snd, foldlM_append, hf]
  exact hg

theorem reads_closeBlock
    (hnext : ∀ b, r.openBlock = some b → b.index + 1 = r.nextIndex) : Reads closeBlock r := by
  unfold Reads closeBlock phase
  cases hop : r.openBlock with
  | none => simp [hop]
  | some b => simp [Phase.after, hnext b hop]

theorem closeBlock_fst (r : StreamRenderer) : (closeBlock r).1 = { r with openBlock := none } := by
  unfold closeBlock
  split
  · rfl
  · rename_i hop
    cases r
    cases hop
    rfl

theorem reads_openWith {block : Int → OpenBlock} {content : ContentBlock}
    (hblk : ∀ i, (block i).index = i) (hop : r.openBlock = none) :
    Reads (openWith block content) r := by
  simp [Reads, openWith, phase, hop, Phase.after, hblk]

variable {ps : List Piece} {r : StreamRenderer}

theorem Tracks.openText (h : Tracks ps r) (t : Str) : Tracks (ps ++ [.text t])
      { r with openBlock := some (.text r.nextIndex), nextIndex := r.nextIndex + 1 } where
  last := by
    rw [lastOpened_snoc]
    exact ⟨r.nextIndex, rfl, fun k hk => absurd (h.below k _ hk) (lt_irrefl _)⟩
  next := by
    rintro b ⟨⟩
    rfl
  below k i hk := (h.below k i hk).trans (Int.lt_succ _)
  injective := h.injective
  calls k := by
    rw [startedCall_snoc, h.calls k]
    exact (Bool.or_false _).symm

theorem ensureTextBlock_cases (r : StreamRenderer) :
    (∃ i, r.openBlock = some (.text i) ∧ ensureTextBlock r = (r, [])) ∨
      ensureTextBlock r = closeBlock.andThen (openWith .text (.text [])) r := by
  unfold ensureTextBlock
  split
  · rename_i i hi
    exact .inl ⟨i, hi, rfl⟩
  · exact .inr rfl

theorem ensureTextBlock_spec (h : Tracks ps r) {t : Str} :
    Reads ensureTextBlock r ∧ Tracks (ps ++ [.text t]) (ensureTextBlock r).1 ∧
      ∃ i, (ensureTextBlock r).1.openBlock = some (.text i) := by
  rcases ensureTextBlock_cases r with ⟨i, hi, hsame⟩ | hnew
  · rw [Reads, hsame]
    refine ⟨rfl, { h with last := ?_, calls := fun k => ?_ }, i, hi⟩
    · -- Text was begun last.
      have hla := h.last
      rw [lastOpened_snoc]
      cases hope : lastOpened ps with
      | none =>
        rw [hope] at hla
        exact absurd (hla.symm.trans hi) nofun
      | some o =>
        cases o with
        | text =>
          rw [hope] at hla
          exact hla
        | call k =>
          rw [hope] at hla
          obtain ⟨j, hj, -⟩ := hla
          exact absurd (hj.symm.trans hi) nofun
    · rw [startedCall_snoc, h.calls k]
      exact (Bool.or_false _).symm
  · have hclo : (closeBlock r).1 = { r with openBlock := none } := closeBlock_fst r
    refine ⟨?_, ?_, r.nextIndex, ?_⟩
    · rw [Reads, hnew]
      refine (reads_closeBlock h.next).andThen (reads_openWith (fun _ => rfl) ?_)
      rw [hclo]
    · rw [hnew, andThen_fst, hclo]
      exact h.openText t
    · rw [hnew, andThen_fst, hclo]
      rfl

theorem textDelta_of_open {i : Int} (hi : r.openBlock = some (.text i)) (t : Str) :
    textDelta t r = (r, [.contentBlockDelta i (.textDelta t)]) := by
  rw [textDelta, hi]

theorem renderText_spec (h : Tracks ps r) {t : Str} :
    Reads (renderText t) r ∧ Tracks (ps ++ [.text t]) (renderText t r).1 := by
  obtain ⟨hrd, htr, i, hi⟩ := ensureTextBlock_spec h
  refine ⟨hrd.andThen ?_, ?_⟩
  · rw [Reads, textDelta_of_open hi]
    simp [phase, hi, OpenBlock.index, Phase.after]
  · rw [renderText, andThen_fst, textDelta_of_open hi]
    exact htr

theorem update_eq_some {m : Int → Option Int} {k k' n i : Int}
    (h : update m k (some n) k' = some i) : k' = k ∧ i = n ∨ k' ≠ k ∧ m k' = some i := by
  by_cases hk : k' = k
  · rw [hk, update_self] at h
    exact .inl ⟨hk, (some.inj h).symm⟩
  · rw [update_of_ne hk] at h
    exact .inr ⟨hk, h⟩

variable {d : ToolCallDelta} {es : List Event} {r' : StreamRenderer} {chunks : List ChatChunk}

theorem Tracks.openCall (h : Tracks ps r) (hd : isStart d = true) : Tracks (ps ++ [.call d])
      { r with
        openBlock := some (.tool r.nextIndex), nextIndex := r.nextIndex + 1,
        toolIndexMap := update r.toolIndexMap d.index (some r.nextIndex) } := by
  have hopn : (Piece.call d).opens = some (.call d.index) := if_pos hd
  refine ⟨?_, ?_, fun k i hk => ?_, fun k k' i hk hk' => ?_, fun k => ?_⟩
  · rw [lastOpened_snoc, hopn]
    exact ⟨r.nextIndex, rfl, update_self ..⟩
  · rintro b ⟨⟩
    rfl
  · rcases update_eq_some hk with ⟨-, rfl⟩ | ⟨-, hk⟩
    · exact Int.lt_succ _
    · exact (h.below k i hk).trans (Int.lt_succ _)
  · rcases update_eq_some hk with ⟨rfl, rfl⟩ | ⟨-, hk⟩
    · rcases update_eq_some hk' with ⟨rfl, -⟩ | ⟨-, hk'⟩
      · rfl
      · exact absurd (h.below k' _ hk') (lt_irrefl _)
    · rcases update_eq_some hk' with ⟨-, rfl⟩ | ⟨-, hk'⟩
      · exact absurd (h.below k _ hk) (lt_irrefl _)
      · exact h.injective k k' i hk hk'
  · rw [startedCall_snoc, hopn]
    change (update r.toolIndexMap d.index (some r.nextIndex) k).isSome = _
    by_cases hkd : k = d.index
    · rw [hkd, update_self, beq_self_eq_true, Bool.or_true]
      rfl
    · have hne : (some (Opening.call d.index) == some (.call k)) = false := by
        simpa using fun heq => hkd heq.symm
      rw [update_of_ne hkd, h.calls k, hne, Bool.or_false]

theorem argumentsDelta_fst (d : ToolCallDelta) (r : StreamRenderer) :
    (argumentsDelta d r).1 = r := by
  unfold argumentsDelta
  split
  · split <;> rfl
  · rfl

theorem argumentsDelta_snd (d : ToolCallDelta) (r : StreamRenderer) :
    (argumentsDelta d r).2 = if d.text = [] then [] else
      ((r.toolIndexMap d.index).map fun i =>
        Event.contentBlockDelta i (.inputJsonDelta d.text)).toList := by
  unfold argumentsDelta ToolCallDelta.text
  cases d.arguments with
  | none => rfl
  | some args =>
    cases r.toolIndexMap d.index with
    | none | some i => cases args <;> rfl

theorem startToolBlock_fst (d : ToolCallDelta) (r : StreamRenderer) :
    (startToolBlock d (closeBlock r).1).1 = { r with
        openBlock := some (.tool r.nextIndex), nextIndex := r.nextIndex + 1,
        toolIndexMap := update r.toolIndexMap d.index (some r.nextIndex) } := by
  rw [closeBlock_fst]
  rfl

theorem renderToolCall_of_start (hd : isStart d = true) : renderToolCall d =
    (closeBlock.andThen (startToolBlock d)).andThen (argumentsDelta d) := by
  rw [renderToolCall, if_pos hd]

theorem renderToolCall_of_not_start (hd : isStart d = false) :
    renderToolCall d r = argumentsDelta d r := by
  rw [renderToolCall, hd]
  rfl

theorem renderToolCall_start (h : Tracks ps r) (hd : isStart d = true) :
    Reads (renderToolCall d) r ∧ Tracks (ps ++ [.call d]) (renderToolCall d r).1 := by
  have hop : (closeBlock r).1.openBlock = none := by rw [closeBlock_fst]
  rw [renderToolCall_of_start hd]
  constructor
  · refine ((reads_closeBlock h.next).andThen ?_).andThen ?_
    · simp [Reads, startToolBlock, openWith, phase, hop, Phase.after, OpenBlock.index]
    · rw [Reads, argumentsDelta_fst, argumentsDelta_snd, andThen_fst, startToolBlock_fst]
      split
      · rfl
      · simp [phase, OpenBlock.index, Phase.after]
  · rw [andThen_fst, argumentsDelta_fst, andThen_fst, startToolBlock_fst]
    exact h.openCall hd

theorem after_delta {φ : Phase} {i : Int} {δ : BlockDelta} :
    φ.after (.contentBlockDelta i δ) = if φ = .inside i then some φ else none := by
  cases φ with
  | inside j =>
    by_cases hij : i = j
    · simp [Phase.after, hij]
    · simp [Phase.after, hij, Ne.symm hij]
  | _ => rfl

/-- The block of a call is open exactly if the call was begun last. -/
theorem Tracks.inside_iff (h : Tracks ps r) {k i : Int} (hmap : r.toolIndexMap k = some i) :
    r.phase = .inside i ↔ lastOpened ps = some (.call k) := by
  have hla := h.last
  unfold phase
  cases hope : lastOpened ps with
  | none =>
    rw [hope] at hla
    rw [show r.openBlock = none from hla]
    exact ⟨nofun, nofun⟩
  | some o =>
    rw [hope] at hla
    cases o with
    | text =>
      obtain ⟨j, hj, hfree⟩ := hla
      rw [hj]
      refine ⟨fun hph => ?_, nofun⟩
      cases hph
      exact absurd hmap (hfree k)
    | call k' =>
      obtain ⟨j, hj, hk'⟩ := hla
      rw [hj]
      constructor
      · intro hph
        cases hph
        rw [h.injective k' k _ hk' hmap]
      · intro hope
        cases hope
        rw [some.inj (hk'.symm.trans hmap)]
        rfl

/-- A fragment that goes on with a call is read exactly if the block of the call is open. -/
theorem renderToolCall_continue (h : Tracks ps r) (hd : isStart d = false) :
    (renderToolCall d r).2.foldlM Phase.after r.phase =
        (if Addressed ps (.call d) then some (renderToolCall d r).1.phase else none) ∧
      Tracks (ps ++ [.call d]) (renderToolCall d r).1 := by
  have hopn : (Piece.call d).opens = none := by
    rw [Piece.opens, hd]
    rfl
  rw [renderToolCall_of_not_start hd, argumentsDelta_fst, argumentsDelta_snd]
  constructor
  · by_cases htext : d.text = []
    · have hp : Addressed ps (.call d) := fun _ htext' => absurd htext htext'
      rw [if_pos htext, if_pos hp]
      rfl
    rw [if_neg htext]
    cases hmap : r.toolIndexMap d.index with
    | none =>
      have hst : startedCall ps d.index = false := by rw [← h.calls, hmap]; rfl
      have hp : Addressed ps (.call d) := by
        intro _ _ hst'
        rw [hst] at hst'
        cases hst'
      rw [if_pos hp]
      rfl
    | some i =>
      have hst : startedCall ps d.index = true := by rw [← h.calls, hmap]; rfl
      have hadd : Addressed ps (.call d) ↔ lastOpened ps = some (.call d.index) :=
        ⟨fun hp => hp hd htext hst, fun hla _ _ _ => hla⟩
      rw [if_congr (hadd.trans (h.inside_iff hmap).symm) rfl rfl, ← after_delta]
      exact bind_pure _
  · refine { h with last := ?_, calls := fun k => ?_ }
    · rw [lastOpened_snoc, hopn]
      exact h.last
    · rw [startedCall_snoc, hopn, h.calls k]
      exact (Bool.or_false _).symm

theorem read_renderPiece (h : Tracks ps r) (p : Piece) :
    (renderPiece p r).2.foldlM Phase.after r.phase =
        (if Addressed ps p then some (renderPiece p r).1.phase else none) ∧
      Tracks (ps ++ [p]) (renderPiece p r).1 := by
  cases p with
  | text t =>
    obtain ⟨hrd, htr⟩ := renderText_spec h
    exact ⟨hrd, htr⟩
  | call d =>
    cases hd : isStart d with
    | true =>
      obtain ⟨hrd, htr⟩ := renderToolCall_start h hd
      have hp : Addressed ps (.call d) := by
        intro hd'
        rw [hd] at hd'
        cases hd'
      rw [if_pos hp]
      exact ⟨hrd, htr⟩
    | false => exact renderToolCall_continue h hd

/-! ## A whole reply -/

/-- What is known when some pieces have been rendered: the client has got through the events exactly
if every fragment so far was addressed to the open block. -/
structure Rendered (ps : List Piece) (r : StreamRenderer) (es : List Event) : Prop where
  tracks : Tracks ps r
  read : ∀ φ, es.foldlM Phase.after .begin = some φ ↔ Throughout Addressed ps ∧ φ = r.phase

theorem Rendered.piece (h : Rendered ps r es) (p : Piece) :
    Rendered (ps ++ [p]) (renderPiece p r).1 (es ++ (renderPiece p r).2) := by
  obtain ⟨hread, htr⟩ := read_renderPiece h.tracks p
  refine ⟨htr, fun φ => ?_⟩
  rw [throughout_snoc, foldlM_append]
  constructor
  · intro hφ
    obtain ⟨φ', hφ', hrest⟩ := bind_eq_some_iff.1 hφ
    obtain ⟨hps, rfl⟩ := (h.read φ').1 hφ'
    rw [hread] at hrest
    split at hrest
    · rename_i hp
      exact ⟨⟨hps, hp⟩, (some.inj hrest).symm⟩
    · cases hrest
  · rintro ⟨⟨hps, hp⟩, rfl⟩
    rw [(h.read _).2 ⟨hps, rfl⟩]
    exact hread.trans (if_pos hp)

theorem Rendered.pieces (h : Rendered ps r es) (qs : List Piece) :
    Rendered (ps ++ qs) (forEach renderPiece qs r).1 (es ++ (forEach renderPiece qs r).2) :=
  forEach_invariant_from qs h fun _ p _ _ hJ => hJ.piece p

/-- Nothing has been rendered, or the message has been started. -/
def Renders (chunks : List ChatChunk) (r : StreamRenderer) (es : List Event) : Prop :=
  if r.started then Rendered (chunks.flatMap pieces) r es
  else chunks = [] ∧ es = [] ∧ Tracks [] r ∧ r.phase = .between 0

theorem tracks_default : Tracks [] default :=
  ⟨rfl, nofun, nofun, nofun, fun _ => rfl⟩

theorem rendered_start (hr : Tracks [] r) (hph : r.phase = .between 0) (e : Event)
    (he : Phase.after .begin e = some (.between 0)) : Rendered [] r [e] := by
  refine ⟨hr, fun φ => ?_⟩
  have hread : [e].foldlM Phase.after .begin = some (.between 0) := by
    rw [foldlM_cons, he]
    rfl
  rw [hread, hph]
  exact ⟨fun h => ⟨throughout_nil, (some.inj h).symm⟩, fun h => congrArg some h.2.symm⟩

theorem Renders.begin (h : Renders chunks r es) (chunk : ChatChunk) :
    (begin chunk r).1.started = true ∧
      Rendered (chunks.flatMap pieces) (begin chunk r).1 (es ++ (begin chunk r).2) := by
  unfold Renders at h
  cases hst : r.started with
  | true =>
    have hbeg : StreamRenderer.begin chunk r =
        ({ r with usage := addUsage r.usage chunk.usage }, []) := if_pos hst
    rw [if_pos hst] at h
    rw [hbeg, append_nil]
    exact ⟨hst, { h with tracks := { h.tracks with } }⟩
  | false =>
    have hnot : ¬ r.started = true := by
      rw [hst]
      exact Bool.false_ne_true
    rw [if_neg hnot] at h
    obtain ⟨rfl, rfl, htr, hph⟩ := h
    rw [begin, if_neg hnot]
    refine ⟨rfl, rendered_start ?_ ?_ (.messageStart ..) rfl⟩
    · exact { htr with }
    · exact hph

theorem closeBlock_started : (closeBlock r).1.started = r.started := by
  rw [closeBlock_fst]

theorem renderPiece_started (p : Piece) (r : StreamRenderer) :
    (renderPiece p r).1.started = r.started := by
  cases p with
  | text t =>
    have hdlt : ∀ r, (textDelta t r).1 = r := by
      intro r
      unfold textDelta
      split <;> rfl
    change (textDelta t (ensureTextBlock r).1).1.started = r.started
    rw [hdlt, ensureTextBlock]
    split
    · rfl
    · exact closeBlock_started
  | call d =>
    change (argumentsDelta d _).1.started = r.started
    rw [argumentsDelta_fst]
    split
    · exact closeBlock_started
    · rfl

theorem noteStop_eq (finishReason : Option Str) (r : StreamRenderer) :
    ∃ reason, noteStop finishReason r = { r with stopReason := reason } := by
  cases finishReason <;> exact ⟨_, rfl⟩

theorem Renders.render (h : Renders chunks r es) (chunk : ChatChunk) :
    Renders (chunks ++ [chunk]) (render chunk r).1 (es ++ (render chunk r).2) := by
  obtain ⟨hst, hbeg⟩ := h.begin chunk
  obtain ⟨finishReason, heq⟩ := render_eq chunk r
  have hpie := hbeg.pieces (pieces chunk)
  have hsti : (forEach renderPiece (pieces chunk)
      (StreamRenderer.begin chunk r).1).1.started = true := by
    refine forEach_invariant (J := fun _ (s : StreamRenderer) _ => s.started = true) _ hst ?_
    intro _ p s _ hs
    rw [renderPiece_started, hs]
  obtain ⟨reason, hnote⟩ := noteStop_eq finishReason
    (forEach renderPiece (pieces chunk) (StreamRenderer.begin chunk r).1).1
  rw [heq, hnote, Renders, if_pos hsti, flatMap_append, flatMap_singleton, ← append_assoc]
  exact { hpie with tracks := { hpie.tracks with } }

theorem renders_all (chunks : List ChatChunk) : Renders chunks (forEach render chunks default).1
      (forEach render chunks default).2 := by
  refine forEach_invariant chunks ?_ fun _ chunk _ _ hJ => hJ.render chunk
  exact ⟨rfl, rfl, tracks_default, rfl⟩

theorem Rendered.close (h : Rendered ps r es) (reason : Str) (usage : ReportedUsage) :
    valid (es ++ ((closeBlock r).2 ++ [.messageDelta reason usage, .messageStop])) = true ↔
      Throughout Addressed ps := by
  rw [valid, beq_iff_eq, foldlM_append]
  constructor
  · intro hval
    obtain ⟨φ, hφ, -⟩ := bind_eq_some_iff.1 hval
    exact ((h.read φ).1 hφ).1
  · intro hps
    have hclo : (closeBlock r).2.foldlM Phase.after r.phase = some (.between r.nextIndex) := by
      have hrd := reads_closeBlock h.tracks.next
      rw [Reads, closeBlock_fst] at hrd
      exact hrd
    rw [(h.read _).2 ⟨hps, rfl⟩]
    change foldlM Phase.after r.phase _ = _
    rw [foldlM_append, hclo]
    rfl

theorem finish_snd (h : r.started = true) : (finish r).2 = (closeBlock r).2 ++
      [.messageDelta ((closeBlock r).1.stopReason.getD "end_turn")
        (anthropicUsage (closeBlock r).1.usage), .messageStop] := by
  rw [finish, andThen_snd, if_pos h]
  rfl

end StreamRenderer

open StreamRenderer in
/-- **The events of a reply are in order exactly if the arguments of every call come in one go.** -/
theorem valid_stream_iff (chunks : List ChatChunk) :
    valid (stream chunks) = true ↔ Contiguous chunks := by
  have hren := renders_all chunks
  unfold stream
  rw [andThen_snd]
  unfold Renders at hren
  split at hren
  · rename_i hst
    rw [finish_snd hst]
    exact hren.close _ _
  · rename_i hst
    -- There were no chunks; the message is started at the end.
    obtain ⟨hchu, -, -, -⟩ := hren
    subst hchu
    exact ⟨fun _ => throughout_nil, fun _ => by decide⟩

def callChunk (fragments : List ToolCallDelta) : ChatChunk :=
  ⟨"chatcmpl-1", "gpt", [⟨0, ⟨none, none, some fragments⟩, none⟩], none⟩

def fragment (index : Int) (id name arguments : Option Str) : ToolCallDelta :=
  ⟨index, id, none, some ⟨name, arguments⟩⟩

/-- Two calls in parallel; the arguments of the first come after the second has been started. -/
def interleaved : List ChatChunk :=
  [callChunk [fragment 0 (some "a") (some "search") none],
    callChunk [fragment 1 (some "b") (some "fetch") none],
    callChunk [fragment 0 none none (some "\x7b\x7d")]]

/-- **A delta for a block that is closed.** -/
theorem interleaved_invalid : valid (stream interleaved) = false := by decide

end Nasiko.LlmRouter.Anthropic
