import Nasiko.Json.Integers
import Nasiko.LlmRouter.Folding
import Nasiko.LlmRouter.ResponsesEvents

/-!
# A response in chunks and in one piece

A reply may be rendered as it comes in chunks, or in one piece when it is there. The two renderers
check the calls on their own, and the first decides what a call is when its first fragment comes.

**Theorem (`stream_agrees`).** For every reply with one choice and every chunking of it in which the
first fragment of a call has the id and the name of the call, both renderings have the same status,
the same error code and the same items, up to the ids that were made up; provided that no custom
tool of a reply that was cut off has arguments without an input.

Along the chunks, `Follows` says that the renderer knows of every call what the fold knows of it. At
the end each call is checked; `collect` is what becomes of all of them, in either order.
-/

namespace Nasiko.LlmRouter.Responses

open List Bool Except Emitter ToolCall

/-! ## Outcomes -/

def Id.forget : Id → Id
  | given text => given text
  | made _ _ => made [] 0

/-- An item without the ids that were made up; its own id always is. -/
def Item.forget : Item → Item
  | message _ status content => message (.made [] 0) status content
  | functionCall _ callId name arguments status =>
    functionCall (.made [] 0) callId.forget name arguments status
  | customToolCall _ callId name input status =>
    customToolCall (.made [] 0) callId.forget name input status

structure SameOutcome (a b : Response) : Prop where
  status : a.status = b.status
  code : a.error.map (·.code) = b.error.map (·.code)
  items : (a.output.map Item.forget).Perm (b.output.map Item.forget)

instance (a b : Response) : Decidable (SameOutcome a b) :=
  decidable_of_iff (a.status = b.status ∧ a.error.map (·.code) = b.error.map (·.code) ∧
      (a.output.map Item.forget).Perm (b.output.map Item.forget))
    ⟨fun ⟨h₁, h₂, h₃⟩ => ⟨h₁, h₂, h₃⟩, fun ⟨h₁, h₂, h₃⟩ => ⟨h₁, h₂, h₃⟩⟩

/-- The response of the last event. -/
def finalResponse (fs : List Frame) : Option Response := fs.getLast?.bind fun f => f.event.terminal

/-! ## Chunkings -/

def lastFinishReason (chunks : List ChatChunk) : Option Str :=
  chunks.foldl (fun acc chunk => (chunk.choices.head?.bind (·.finishReason)).or acc) none

/-- The chunks, put together, are the reply; it has one choice. -/
structure ChunkingOf {N : Type} (chunks : List ChatChunk) (resp : ChatResponse N)
    (choice : Choice N) : Prop where
  oneChoice : ∀ chunk ∈ chunks, chunk.choices.length ≤ 1
  choices : resp.choices = [choice]
  text : choice.message.text.getD [] = (fold chunks).text
  calls : ((choice.message.toolCalls.getD []).map ToolCall.call).Perm (fold chunks).calls
  finishReason : choice.finishReason = lastFinishReason chunks

/-- The first fragment of a call has its id and its name. -/
def Announced (chunks : List ChatChunk) : Prop :=
  Throughout (fun before d => (∀ e ∈ before, e.index ≠ d.index) →
    d.id.isSome = true ∧ d.name.isSome = true) (fragments chunks)

/-- No custom tool of a reply that was cut off has arguments without an input. -/
def InputsGiven (N : Type) {F : Type} [SerdeJson N F] (kinds : Str → Option ToolKind)
    (incomplete : Bool) (calls : List Call) : Prop :=
  incomplete = true → ∀ c ∈ calls, kinds c.name = some .custom → ∀ arguments,
    parseArgumentsObject N c.arguments = .ok arguments → (stringInput N arguments).isSome = true

/-! ## All calls -/

section

variable {ε α : Type}

/-- The items of the calls that are not left out; the first error, if there is one. -/
def collect : List (Except ε (Option α)) → Except ε (List α)
  | [] => .ok []
  | x :: xs => do
    match ← x with
    | some a =>
      let as ← collect xs
      pure (a :: as)
    | none => collect xs

def item? : Except ε (Option α) → Option α
  | .ok o => o
  | .error _ => none

variable {l : List (Except ε (Option α))} {as : List α}

theorem collect_of_ok (h : ∀ x ∈ l, ∃ o, x = .ok o) : collect l = .ok (l.filterMap item?) := by
  induction l with
  | nil => rfl
  | cons x l ih =>
    obtain ⟨o, rfl⟩ := h x mem_cons_self
    have hl := ih fun y hy => h y (mem_cons_of_mem _ hy)
    cases o with
    | none => exact hl
    | some a =>
      change (collect l >>= fun as => pure (a :: as)) = _
      rw [hl]
      rfl

theorem ok_of_collect (h : collect l = .ok as) : ∀ x ∈ l, ∃ o, x = .ok o := by
  induction l generalizing as with
  | nil => exact fun _ hx => absurd hx not_mem_nil
  | cons x l ih =>
    obtain ⟨o, rfl, h⟩ := Result.bind_eq_ok_iff.1 h
    have hl : ∃ as, collect l = .ok as := by
      cases o with
      | none => exact ⟨as, h⟩
      | some a =>
        change (collect l >>= fun as => pure (a :: as)) = .ok as at h
        obtain ⟨as', has', -⟩ := Result.bind_eq_ok_iff.1 h
        exact ⟨as', has'⟩
    obtain ⟨as', has'⟩ := hl
    intro y hy
    rcases mem_cons.1 hy with rfl | hy
    · exact ⟨o, rfl⟩
    · exact ih has' y hy

theorem collect_perm {l' : List (Except ε (Option α))} (h : l.Perm l') (hl : collect l = .ok as) :
    ∃ as', collect l' = .ok as' ∧ as.Perm as' := by
  have hok := ok_of_collect hl
  have hok' : ∀ x ∈ l', ∃ o, x = .ok o := fun x hx => hok x (h.mem_iff.2 hx)
  refine ⟨_, collect_of_ok hok', ?_⟩
  cases hl.symm.trans (collect_of_ok hok)
  exact h.filterMap item?

end

/-! ## What the renderer knows of the calls -/

structure Seen where
  index : Int
  callId : Id
  name : Str
  kind : ToolKind
  arguments : Str

def seenCall (c : Int × StreamCall) : Seen := ⟨c.1, c.2.callId, c.2.name, c.2.kind, c.2.arguments⟩

def seenFold (kinds : Str → Option ToolKind) (c : Int × Folding) : Seen :=
  ⟨c.1, .given (c.2.id.getD []), c.2.name.getD [], (kinds (c.2.name.getD [])).getD .function,
    c.2.arguments⟩

def Seen.grow (d : ToolCallDelta) (s : Seen) : Seen :=
  if s.index = d.index then { s with arguments := s.arguments ++ d.text } else s

namespace StreamRenderer

/-- The renderer knows what the fold knows. -/
structure Follows (kinds : Str → Option ToolKind) (finish : Option Str) (folded : Folded)
    (r : StreamRenderer) : Prop where
  text : r.text = folded.text
  opened : r.textItemId.isSome = !folded.text.isEmpty
  index : r.textOutputIndex.isSome = r.textItemId.isSome
  calls : (r.calls.map seenCall).Perm (folded.calls.map (seenFold kinds))
  known : ∀ c ∈ folded.calls, c.2.id.isSome = true ∧ c.2.name.isSome = true
  toolKinds : r.toolKinds = kinds
  finishReason : r.finishReason = finish
  terminal : r.terminal = false

variable {kinds : Str → Option ToolKind} {finish : Option Str} {folded : Folded}
  {r : StreamRenderer} {d : ToolCallDelta} {c : Int × Folding}

theorem Follows.openText (h : Follows kinds finish folded r) (t : Str) (ht : t ≠ []) :
    Follows kinds finish { folded with text := folded.text ++ t }
      (openText.andThen (textDelta t) r).1 := by
  have hope : (folded.text ++ t).isEmpty = false := by
    rw [isEmpty_eq_false_iff]
    exact append_ne_nil_of_right_ne_nil _ ht
  cases hsome : r.textItemId.isSome with
  | true =>
    have hop : StreamRenderer.openText r = (r, []) := if_pos hsome
    rw [andThen_fst, hop]
    refine { h with text := congrArg (· ++ t) h.text, opened := ?_ }
    change r.textItemId.isSome = !(folded.text ++ t).isEmpty
    rw [hsome, hope]
    rfl
  | false =>
    have hnot : ¬ r.textItemId.isSome = true := by
      rw [hsome]
      exact false_ne_true
    rw [andThen_fst, StreamRenderer.openText, if_neg hnot]
    refine { h with text := congrArg (· ++ t) h.text, opened := ?_, index := rfl }
    rw [hope]
    rfl

theorem Follows.content (h : Follows kinds finish folded r) (content : Option Str) :
    Follows kinds finish { folded with text := folded.text ++ content.getD [] }
      (renderText content r).1 := by
  rcases content with _ | t
  · rw [Option.getD_none, append_nil]
    exact h
  · rw [renderText]
    split
    · rename_i hemp
      rw [Option.getD_some, isEmpty_iff.1 hemp, append_nil]
      exact h
    · rename_i hemp
      exact h.openText t fun ht => hemp (isEmpty_iff.2 ht)

theorem addArguments_eq : ∃ n, (addArguments d r).1 = { withArguments d r with sequence := n } := by
  unfold addArguments
  split
  · rename_i hemp
    have hsa : withArguments d r = r := by simp [withArguments, isEmpty_iff.1 hemp]
    exact ⟨r.sequence, by rw [hsa]⟩
  · split
    · split <;> exact ⟨_, rfl⟩
    · exact ⟨_, rfl⟩

theorem withArguments_calls (d : ToolCallDelta) (r : StreamRenderer) :
    (withArguments d r).calls.map seenCall = (r.calls.map seenCall).map (Seen.grow d) := by
  rw [withArguments, map_map, map_map]
  refine map_congr_left fun c _ => ?_
  change seenCall (if c.1 = d.index then _ else c) = if c.1 = d.index then _ else seenCall c
  split <;> rfl

theorem openCall_cases : containsCall d.index r.calls = true ∧ openCall d r = (r, []) ∨
      containsCall d.index r.calls = false ∧
        ∃ n, (openCall d r).1 = { withCall d r with sequence := n } := by
  cases hkno : containsCall d.index r.calls with
  | true => exact Or.inl ⟨rfl, if_pos hkno⟩
  | false =>
    refine Or.inr ⟨rfl, ?_⟩
    rw [openCall, hkno, if_neg Bool.false_ne_true]
    dsimp only
    split <;> exact ⟨_, rfl⟩

theorem containsCall_iff (k : Int) (calls : List (Int × StreamCall)) :
    containsCall k calls = true ↔ k ∈ (calls.map seenCall).map Seen.index := by
  rw [containsCall, any_eq_true, map_map, mem_map]
  exact ⟨fun ⟨c, hc, heq⟩ => ⟨c, hc, beq_iff_eq.1 heq⟩,
    fun ⟨c, hc, heq⟩ => ⟨c, hc, beq_iff_eq.2 heq⟩⟩

theorem Follows.contains_iff (h : Follows kinds finish folded r) {k : Int} :
    containsCall k r.calls = true ↔ k ∈ folded.calls.map Prod.fst := by
  rw [containsCall_iff, (h.calls.map Seen.index).mem_iff, map_map]
  rfl

theorem seenFold_add (hid : c.2.id.isSome = true) (hna : c.2.name.isSome = true) :
    seenFold kinds (if c.1 = d.index then (c.1, c.2.add d) else c) = (seenFold kinds c).grow d := by
  obtain ⟨k, id, name, arguments⟩ := c
  obtain ⟨id, rfl⟩ := Option.isSome_iff_exists.1 hid
  obtain ⟨name, rfl⟩ := Option.isSome_iff_exists.1 hna
  by_cases hk : k = d.index
  · simp [seenFold, Seen.grow, Folding.add, hk]
  · simp [seenFold, Seen.grow, hk]

variable (calls : List (Int × Folding))

/-- The calls before the text of a fragment is added. -/
def withIndex (d : ToolCallDelta) : List (Int × Folding) :=
  if d.index ∈ calls.map Prod.fst then calls else calls ++ [(d.index, ⟨d.id, d.name, []⟩)]

theorem addFragment_eq (d : ToolCallDelta) : addFragment calls d =
      (withIndex calls d).map fun c => if c.1 = d.index then (c.1, c.2.add d) else c := by
  unfold addFragment withIndex
  split
  · rfl
  · rename_i hnew
    have hold : calls.map (fun c => if c.1 = d.index then (c.1, c.2.add d) else c) = calls := by
      refine (map_congr_left fun c hc => ?_).trans (map_id calls)
      exact if_neg fun heq : c.1 = d.index => hnew (heq ▸ mem_map_of_mem hc)
    rw [map_append, hold]
    simp [Folding.add]

/-- Behind these calls, the first fragment of a call has its id and its name. -/
def AnnouncedAfter : List ToolCallDelta → Prop :=
  Throughout fun before d => d.index ∉ (before.foldl addFragment calls).map Prod.fst →
    d.id.isSome = true ∧ d.name.isSome = true

variable {d : ToolCallDelta}

section

variable (h : Follows kinds finish folded r)

include h

theorem Follows.openCall
    (hd : d.index ∉ folded.calls.map Prod.fst → d.id.isSome = true ∧ d.name.isSome = true) :
    Follows kinds finish { folded with calls := withIndex folded.calls d } (openCall d r).1 := by
  rcases openCall_cases with ⟨hkno, hsa⟩ | ⟨hnew, n, hop⟩
  · have hwith : withIndex folded.calls d = folded.calls := if_pos ((h.contains_iff).1 hkno)
    rw [hsa, hwith]
    exact h
  · have hnot : d.index ∉ folded.calls.map Prod.fst := by
      rw [← h.contains_iff, hnew]
      exact false_ne_true
    obtain ⟨hid, hna⟩ := hd hnot
    have hwith : withIndex folded.calls d = folded.calls ++ [(d.index, ⟨d.id, d.name, []⟩)] :=
      if_neg hnot
    have hcall : seenCall (d.index, newCall d r) =
        seenFold kinds (d.index, ⟨d.id, d.name, []⟩) := by
      obtain ⟨id, hid⟩ := Option.isSome_iff_exists.1 hid
      simp [seenCall, seenFold, newCall, hid, h.toolKinds]
    rw [hop, hwith]
    refine { h with calls := ?_, known := ?_ }
    · have hperm := (perm_orderedInsert (fun a b : Int × StreamCall => a.1 ≤ b.1)
        (d.index, newCall d r) r.calls).map seenCall
      rw [map_cons, hcall] at hperm
      rw [map_append]
      exact hperm.trans ((h.calls.cons _).trans (perm_append_singleton _ _).symm)
    · intro c hc
      rcases mem_append.1 hc with hc | hc
      · exact h.known c hc
      · cases mem_singleton.1 hc
        exact ⟨hid, hna⟩

theorem Follows.fragment
    (hd : d.index ∉ folded.calls.map Prod.fst → d.id.isSome = true ∧ d.name.isSome = true) :
    Follows kinds finish { folded with calls := addFragment folded.calls d }
      (renderToolCall d r).1 := by
  have hop := h.openCall hd
  obtain ⟨n, hadd⟩ := addArguments_eq
  rw [renderToolCall, andThen_fst, hadd, addFragment_eq]
  refine { hop with calls := ?_, known := ?_ }
  · rw [withArguments_calls]
    refine (hop.calls.map (Seen.grow d)).trans (Perm.of_eq ?_)
    rw [map_map, map_map]
    refine map_congr_left fun c hc => ?_
    obtain ⟨hid, hna⟩ := hop.known c hc
    exact (seenFold_add hid hna).symm
  · intro c hc
    obtain ⟨c', hc', rfl⟩ := mem_map.1 hc
    obtain ⟨hid, hna⟩ := hop.known c' hc'
    split
    · simp [Folding.add, hid, hna]
    · exact ⟨hid, hna⟩

theorem Follows.fragments (ds : List ToolCallDelta) (hds : AnnouncedAfter folded.calls ds) :
    Follows kinds finish { folded with calls := ds.foldl addFragment folded.calls }
      (forEach renderToolCall ds r).1 := by
  induction ds generalizing folded r with
  | nil => exact h
  | cons d ds ih =>
    refine ih (h.fragment (hds [] d ds rfl)) fun before e after hspl => ?_
    exact hds (d :: before) e after (congrArg (d :: ·) hspl)

theorem Follows.choice (choice : ChunkChoice)
    (hds : AnnouncedAfter folded.calls (choice.delta.toolCalls.getD [])) :
    Follows kinds (choice.finishReason.or finish) ⟨folded.text ++ choice.delta.content.getD [],
        (choice.delta.toolCalls.getD []).foldl addFragment folded.calls⟩
      (renderChoice choice r).1 := by
  have hfin : Follows kinds (choice.finishReason.or finish) folded
      { r with finishReason := choice.finishReason.or r.finishReason } :=
    { h with finishReason := congrArg choice.finishReason.or h.finishReason }
  exact (hfin.content choice.delta.content).fragments _ hds

theorem Follows.chunk (chunk : ChatChunk) (hone : chunk.choices.length ≤ 1)
    (hds : AnnouncedAfter folded.calls ((chunk.choices.head?.bind (·.delta.toolCalls)).getD [])) :
    Follows kinds ((chunk.choices.head?.bind (·.finishReason)).or finish) (foldChunk folded chunk)
      (render chunk r).1 := by
  have husa : Follows kinds finish folded { r with usage := chunk.usage.or r.usage } := { h with }
  have hnot : ¬ r.terminal = true := by
    rw [h.terminal]
    exact false_ne_true
  rw [render, if_neg hnot, foldChunk]
  rcases hcho : chunk.choices with _ | ⟨choice, _ | ⟨choice', rest⟩⟩
  · exact husa
  · rw [hcho] at hds
    exact husa.choice choice hds
  · rw [hcho] at hone
    simp at hone

end

theorem follows_chunks {chunks : List ChatChunk} (hone : ∀ chunk ∈ chunks, chunk.choices.length ≤ 1)
    (hann : Announced chunks) (model : Str) (kinds : Str → Option ToolKind) :
    Follows kinds (lastFinishReason chunks) (chunks.foldl foldChunk ⟨[], []⟩)
      (forEach render chunks (start (new model kinds)).1).1 := by
  refine forEach_invariant (J := fun read r _ => (∀ chunk ∈ read, chunk.choices.length ≤ 1) →
    Announced read → Follows kinds (lastFinishReason read) (read.foldl foldChunk ⟨[], []⟩) r) chunks
    ?_ ?_ hone hann
  · exact fun _ _ => ⟨rfl, rfl, rfl, Perm.refl _, fun _ hc => absurd hc not_mem_nil, rfl,
      rfl, rfl⟩
  · intro read chunk r _ ih hone hann
    have hspl : LlmRouter.fragments (read ++ [chunk]) = LlmRouter.fragments read ++
        (chunk.choices.head?.bind (·.delta.toolCalls)).getD [] := by
      rw [LlmRouter.fragments, flatMap_append, flatMap_singleton]
      rfl
    unfold Announced at hann ih
    rw [hspl] at hann
    have hread := ih (fun c hc => hone c (mem_append_left _ hc)) hann.left
    have hchu := hread.chunk chunk (hone chunk (by simp)) fun before d after heq hnew => ?_
    · rw [lastFinishReason, foldl_append, foldl_append]
      exact hchu
    · refine hann (LlmRouter.fragments read ++ before) d after ?_ fun e he heq' => hnew ?_
      · rw [heq, append_assoc]
      · rw [calls_foldl, ← foldl_append]
        exact (mem_keys_foldl _ _).2 ⟨e, he, heq'⟩

/-! ## The items at the end -/

def closedItem (incomplete : Bool) (entry : (Int × StreamCall) × Option Str) : Option Item :=
  match entry.1.2.kind with
  | .custom => entry.2.map fun input => streamCallItem entry.1.2 (finalStatus incomplete) input
  | .function => entry.2.map fun _ =>
      streamCallItem entry.1.2 (finalStatus incomplete) entry.1.2.arguments

theorem closeCustom_completedItems (incomplete : Bool) (call : StreamCall) (input : Str)
    (c : Closing) :
    (closeCustom incomplete call input c).1.completedItems = c.completedItems ++
      [(c.renderer.nextOutputIndex, streamCallItem call (finalStatus incomplete) input)] := by
  unfold closeCustom
  cases input.isEmpty <;> rfl

theorem closeCall_completedItems (incomplete : Bool) (entry : (Int × StreamCall) × Option Str)
    (c : Closing) :
    (closeCall incomplete entry c).1.completedItems.map Prod.snd =
      c.completedItems.map Prod.snd ++ (closedItem incomplete entry).toList := by
  obtain ⟨⟨index, call⟩, value⟩ := entry
  unfold closeCall closedItem
  cases value with
  | none => cases hki : call.kind <;> simp
  | some v =>
    cases hki : call.kind with
    | function =>
      simp only [hki]
      exact map_append
    | custom =>
      simp only [hki, closeCustom_completedItems]
      exact map_append

theorem closeCalls_completedItems (incomplete : Bool)
    (entries : List ((Int × StreamCall) × Option Str)) (c : Closing) :
    (forEach (closeCall incomplete) entries c).1.completedItems.map Prod.snd =
      c.completedItems.map Prod.snd ++ entries.filterMap (closedItem incomplete) := by
  induction entries generalizing c with
  | nil => exact (append_nil _).symm
  | cons e entries ih =>
    rw [forEach_cons, andThen_fst, ih, closeCall_completedItems]
    cases he : closedItem incomplete e <;> simp [he]

variable (N : Type) {F : Type} [SerdeJson N F]

def streamOutcome (incomplete : Bool) (call : StreamCall) : Except Str (Option Item) :=
  (validatedCallValue N incomplete call).map fun value =>
    value.map fun v => (streamCallItem call (finalStatus incomplete) v).forget

variable {incomplete : Bool}

theorem collect_streamOutcome (incomplete : Bool) (calls : List (Int × StreamCall)) :
    collect ((calls.map Prod.snd).map (streamOutcome N incomplete)) =
      (validatedCallValues N incomplete (calls.map Prod.snd)).map fun values =>
        ((calls.zip values).filterMap (closedItem incomplete)).map Item.forget := by
  induction calls with
  | nil => rfl
  | cons c calls ih =>
    rw [map_cons, map_cons, collect, ih, validatedCallValues]
    cases hval : validatedCallValue N incomplete c.2 with
    | error e => simp [streamOutcome, hval, Except.map]
    | ok value =>
      have hitem : (value.map fun v => (streamCallItem c.2 (finalStatus incomplete) v).forget) =
          (closedItem incomplete (c, value)).map Item.forget := by
        unfold closedItem
        cases hki : c.2.kind with
        | function =>
          rw [validatedCallValue_function N hval hki]
          rfl
        | custom =>
          rw [Option.map_map]
          rfl
      have hotc : streamOutcome N incomplete c.2 =
          .ok ((closedItem incomplete (c, value)).map Item.forget) := by
        rw [← hitem, streamOutcome, hval]
        rfl
      rw [hotc]
      cases validatedCallValues N incomplete (calls.map Prod.snd) with
      | error e => cases hclo : closedItem incomplete (c, value) <;> rfl
      | ok values =>
        cases hclo : closedItem incomplete (c, value) with
        | none | some item => simp [hclo, Except.map]

/-- What becomes of a call, by what is known of it. -/
def seenOutcome (incomplete : Bool) (s : Seen) : Except Str (Option Item) :=
  streamOutcome N incomplete ⟨.made [] 0, s.callId, s.name, s.kind, s.arguments, 0⟩

theorem streamOutcome_eq (incomplete : Bool) (c : Int × StreamCall) :
    streamOutcome N incomplete c.2 = seenOutcome N incomplete (seenCall c) := by
  have hitem : ∀ v, (streamCallItem c.2 (finalStatus incomplete) v).forget =
      (streamCallItem ⟨.made [] 0, c.2.callId, c.2.name, c.2.kind, c.2.arguments, 0⟩
        (finalStatus incomplete) v).forget := by
    intro v
    unfold streamCallItem
    cases c.2.kind <;> rfl
  unfold seenOutcome streamOutcome
  simp only [hitem]
  rfl

/-- What becomes of a call of a reply in one piece. -/
def itemOutcome (kinds : Str → Option ToolKind) (incomplete : Bool) (c : Call) :
    Except Str (Option Item) :=
  (callItem N kinds ⟨c.id, [], ⟨c.name, c.arguments⟩⟩ (finalStatus incomplete) incomplete 0).map
    fun item => item.map Item.forget

theorem callItem_forget (incomplete : Bool) (c : ToolCall) (n : Nat) :
    ((callItem N kinds c (finalStatus incomplete) incomplete n).map fun item =>
      item.map Item.forget) = itemOutcome N kinds incomplete c.call := by
  unfold itemOutcome callItem call
  split
  · cases parseArgumentsObject N c.function.arguments with
    | error e => cases incomplete <;> rfl
    | ok arguments =>
      dsimp only
      cases stringInput N arguments <;> rfl
  · cases incomplete with
    | true => rfl
    | false => cases parseArgumentsObject N c.function.arguments <;> rfl

theorem collect_itemOutcome (incomplete : Bool) (calls : List ToolCall) (n : Nat) :
    collect ((calls.map call).map (itemOutcome N kinds incomplete)) =
      (callItems N kinds (finalStatus incomplete) incomplete calls n).map
        (List.map Item.forget) := by
  induction calls generalizing n with
  | nil => rfl
  | cons c calls ih =>
    rw [map_cons, map_cons, collect, ← callItem_forget N incomplete c n, callItems]
    cases callItem N kinds c (finalStatus incomplete) incomplete n with
    | error e => rfl
    | ok item =>
      cases item with
      | none => exact ih n
      | some item =>
        have hrest := ih (n + 1)
        rw [hrest]
        cases callItems N kinds (finalStatus incomplete) incomplete calls (n + 1) <;> rfl

theorem seenOutcome_eq (hins : incomplete = true → kinds c.2.call.name = some .custom → ∀ arguments,
      parseArgumentsObject N c.2.call.arguments = .ok arguments →
        (stringInput N arguments).isSome = true) :
    seenOutcome N incomplete (seenFold kinds c) = itemOutcome N kinds incomplete c.2.call := by
  unfold seenOutcome itemOutcome streamOutcome validatedCallValue callItem
  dsimp only [seenFold, Folding.call] at hins ⊢
  by_cases hcus : kinds (c.2.name.getD []) = some .custom
  · simp only [hcus]
    cases hpar : parseArgumentsObject N c.2.arguments with
    | error e => cases incomplete <;> rfl
    | ok arguments =>
      cases hinp : stringInput N arguments with
      | some input => simp only [hinp]; rfl
      | none =>
        cases incomplete with
        | false => simp only [hinp]; rfl
        | true =>
          have hsome := hins rfl hcus arguments hpar
          rw [hinp] at hsome
          cases hsome
  · have hki : (kinds (c.2.name.getD [])).getD .function = .function := by
      cases hna : kinds (c.2.name.getD []) with
      | none => rfl
      | some kind =>
        cases kind with
        | function => rfl
        | custom => exact absurd hna hcus
    simp only [hcus, hki]
    cases parseArgumentsObject N c.2.arguments <;> cases incomplete <;> rfl

def textMessage (incomplete : Bool) (text : Str) : List Item :=
  if text.isEmpty then [] else [.message (.made [] 0) (finalStatus incomplete) [text]]

theorem Follows.closeText (h : Follows kinds finish folded r) (incomplete : Bool)
    (outcome : Option TerminalOutcome) :
    ((closeText incomplete
        ⟨{ r with terminal := true, outcome := outcome }, []⟩).1.completedItems.map Prod.snd).map
      Item.forget = textMessage incomplete folded.text := by
  have hope := h.opened
  have hidx := h.index
  unfold StreamRenderer.closeText textMessage
  rw [← h.text] at hope ⊢
  cases hid : r.textItemId with
  | none =>
    rw [hid] at hope
    have hemp : r.text.isEmpty = true := by
      rw [← not_eq_false', ← hope]
      rfl
    rw [hemp]
    rfl
  | some id =>
    rw [hid] at hope hidx
    obtain ⟨i, hi⟩ := Option.isSome_iff_exists.1 hidx
    have hemp : r.text.isEmpty = false := by
      rw [← not_eq_true', ← hope]
      rfl
    rw [hi, hemp]
    rfl

theorem Follows.outcomes (h : Follows kinds finish folded r) {calls : List ToolCall}
    (hcs : (calls.map call).Perm (folded.calls.map fun c => c.2.call))
    (hins : InputsGiven N kinds incomplete (folded.calls.map fun c => c.2.call)) :
    ((r.calls.map Prod.snd).map (streamOutcome N incomplete)).Perm
      ((calls.map call).map (itemOutcome N kinds incomplete)) := by
  have hstr : (r.calls.map Prod.snd).map (streamOutcome N incomplete) =
      (r.calls.map seenCall).map (seenOutcome N incomplete) := by
    rw [map_map, map_map]
    exact map_congr_left fun c _ => streamOutcome_eq N incomplete c
  have hfold : (folded.calls.map (seenFold kinds)).map (seenOutcome N incomplete) =
      (folded.calls.map fun c => c.2.call).map (itemOutcome N kinds incomplete) := by
    rw [map_map, map_map]
    refine map_congr_left fun c hc => ?_
    refine seenOutcome_eq N fun hinc => ?_
    exact hins hinc _ (mem_map_of_mem hc)
  rw [hstr]
  refine (h.calls.map _).trans ?_
  rw [hfold]
  exact (hcs.map _).symm

end StreamRenderer

/-! ## The result -/

theorem finalResponse_append (fs gs : List Frame) (f : Frame) :
    finalResponse (fs ++ (gs ++ [f])) = f.event.terminal := by
  rw [finalResponse, ← append_assoc, getLast?_concat]
  rfl

section

open StreamRenderer

variable {N F : Type} [SerdeJson N F] {kinds : Str → Option ToolKind} {resp : ChatResponse N}
  {choice : Choice N}

theorem responseOutput_forget (kinds : Str → Option ToolKind) (hcho : resp.choices = [choice]) :
    (responseOutput N kinds resp (isIncomplete choice.finishReason) 1).map (List.map Item.forget) =
      (collect (((choice.message.toolCalls.getD []).map call).map
        (itemOutcome N kinds (isIncomplete choice.finishReason)))).map
        (textMessage (isIncomplete choice.finishReason) (choice.message.text.getD []) ++ ·) := by
  have hmsg : ∀ text n, (messageItems text (finalStatus (isIncomplete choice.finishReason))
      n).map Item.forget = textMessage (isIncomplete choice.finishReason) (text.getD []) := by
    intro text n
    rcases text with _ | _ | ⟨c, t⟩ <;> rfl
  have hst : (if isIncomplete choice.finishReason then ItemStatus.incomplete else .completed) =
      finalStatus (isIncomplete choice.finishReason) := rfl
  unfold responseOutput
  rw [hcho]
  dsimp only [head?_cons]
  rw [hst, collect_itemOutcome N _ _ (1 + (messageItems choice.message.text
    (finalStatus (isIncomplete choice.finishReason)) 1).length)]
  cases callItems N kinds (finalStatus (isIncomplete choice.finishReason))
    (isIncomplete choice.finishReason) (choice.message.toolCalls.getD []) _ with
  | error e => rfl
  | ok items =>
    change ok ((_ ++ items).map Item.forget) = ok (_ ++ items.map Item.forget)
    rw [map_append, hmsg]

theorem agrees_finish {finish : Option Str} {folded : Folded} {r : StreamRenderer}
    (h : Follows kinds finish folded r) (hcho : resp.choices = [choice])
    (hfin : choice.finishReason = finish) (htext : choice.message.text.getD [] = folded.text)
    (hcs : ((choice.message.toolCalls.getD []).map call).Perm (folded.calls.map fun c => c.2.call))
    (hins : InputsGiven N kinds (isIncomplete finish) (folded.calls.map fun c => c.2.call))
    {model : Str} :
    ∃ gs f response, (StreamRenderer.finish N r).2 = gs ++ [f] ∧ f.event.terminal = some response ∧
      SameOutcome response (renderResponse N kinds resp model) := by
  have hrea : resp.choices.head?.bind (·.finishReason) = finish := by
    rw [hcho, ← hfin]
    rfl
  have honce := once_eq h.terminal
  unfold StreamRenderer.finish renderResponse
  rw [h.finishReason, hrea]
  by_cases hsuc : isUnsuccessful finish = true
  · rw [if_pos hsuc, if_pos hsuc, honce]
    exact ⟨[], _, _, rfl, rfl, rfl, rfl, .refl _⟩
  · rw [if_neg hsuc, if_neg hsuc, honce]
    have hperm := h.outcomes N hcs hins
    have hout := responseOutput_forget kinds hcho
    have hstr := collect_streamOutcome N (isIncomplete finish) r.calls
    rw [hfin] at hout
    unfold StreamRenderer.succeeds
    dsimp only
    cases hvals : validatedCallValues N (isIncomplete finish) (r.calls.map Prod.snd) with
    | error e =>
      -- The reply in one piece fails as well: otherwise all calls could be collected.
      rw [hvals] at hstr
      cases hresp : responseOutput N kinds resp (isIncomplete finish) 1 with
      | error e' => exact ⟨[], _, _, rfl, rfl, rfl, rfl, .refl _⟩
      | ok output =>
        rw [hresp] at hout
        obtain ⟨items, hit, -⟩ := Result.map_eq_ok_iff.1 hout.symm
        obtain ⟨items', hit', -⟩ := collect_perm hperm.symm hit
        exact absurd (hstr.symm.trans hit') nofun
    | ok values =>
      rw [hvals] at hstr
      obtain ⟨items, hit, hsa⟩ := collect_perm hperm hstr
      rw [hit] at hout
      obtain ⟨output, hresp, hfor⟩ := Result.map_eq_ok_iff.1 hout
      rw [hresp]
      obtain ⟨e, response, heq, hterm, -, -, hterm'⟩ := complete_spec (isIncomplete finish)
        ((closeText (isIncomplete finish)).andThen
          (forEach (closeCall (isIncomplete finish)) (r.calls.zip values))
          ⟨{ r with
            terminal := true
            outcome := some (if isIncomplete finish then .incomplete else .completed) }, []⟩).1
      refine ⟨_, _, response, congrArg _ heq, hterm, ?_⟩
      rw [hterm']
      refine ⟨rfl, rfl, ?_⟩
      dsimp only [terminalResponse]
      rw [hfor, htext]
      refine (((perm_insertionSort _ _).map Prod.snd).map Item.forget).trans ?_
      rw [andThen_fst, closeCalls_completedItems, map_append, h.closeText]
      exact hsa.append_left _

/-- **A reply in chunks and in one piece has the same outcome**, if it has one choice, the first
fragment of every call has its id and its name, and the inputs of custom tools are there. -/
theorem stream_agrees (N : Type) {F : Type} [SerdeJson N F] (kinds : Str → Option ToolKind)
    (model : Str) (chunks : List ChatChunk) (resp : ChatResponse N) (choice : Choice N)
    (hchunking : ChunkingOf chunks resp choice) (hannounced : Announced chunks)
    (hinputs : InputsGiven N kinds (isIncomplete choice.finishReason) (fold chunks).calls) :
    ∃ response, finalResponse (stream N model kinds chunks .finish) = some response ∧
      SameOutcome response (renderResponse N kinds resp model) := by
  have hfol := follows_chunks hchunking.oneChoice hannounced model kinds
  have hins' := hinputs
  rw [hchunking.finishReason] at hins'
  obtain ⟨gs, f, response, hfra, hterm, hsa⟩ := agrees_finish hfol hchunking.choices
    hchunking.finishReason hchunking.text hchunking.calls hins'
  refine ⟨response, ?_, hsa⟩
  rw [stream, andThen_snd, andThen_snd, hfra, ← append_assoc, finalResponse_append]
  exact hterm

end

/-! ## Samples -/

open Nasiko.Json.Integers

def callsChunk (ds : List ToolCallDelta) (finish : Option Str) : ChatChunk :=
  ⟨[], [], [⟨0, ⟨none, none, some ds⟩, finish⟩], none⟩

def callFragment (id name : Option Str) (arguments : Str) : ToolCallDelta :=
  ⟨0, id, none, some ⟨name, some arguments⟩⟩

def callReply (id name arguments : Str) (finish : Str) : Choice Int :=
  ⟨0, ⟨"assistant", none, some [⟨id, "function", ⟨name, arguments⟩⟩], none⟩,
    some finish⟩

def textReply (index : Int) (text : Str) : Choice Int :=
  ⟨index, ⟨"assistant", some (.string text), none, none⟩, some "stop"⟩

def reply (choices : List (Choice Int)) : ChatResponse Int := ⟨[], none, [], choices, none⟩

/-- One custom tool, `apply_patch`. -/
def patchKinds (name : Str) : Option ToolKind :=
  if name = "apply_patch" then some .custom else none

def patchArguments : Str := "\x7b\"input\":\"+x\"\x7d"

def patchChunks : List ChatChunk :=
  [callsChunk [callFragment (some "call_1") (some "apply_patch") []] none,
    callsChunk [callFragment none none patchArguments] (some "tool_calls")]

theorem stream_agrees_patch :
    ∃ response, finalResponse (stream Int "m" patchKinds patchChunks .finish) = some response ∧
      SameOutcome response (renderResponse Int patchKinds
        (reply [callReply "call_1" "apply_patch" patchArguments "tool_calls"]) "m") := by
  have hann : Announced patchChunks := by
    refine throughout_snoc.2 ⟨throughout_snoc.2 ⟨throughout_nil, fun _ => ⟨rfl, rfl⟩⟩,
      fun hnew => ?_⟩
    exact absurd rfl (hnew (callFragment (some "call_1") (some "apply_patch") []) mem_cons_self)
  exact stream_agrees Int patchKinds "m" patchChunks _ _
    ⟨by decide, rfl, by decide, by decide, by decide⟩ hann fun h => absurd h (by decide)

theorem differs_of_any {last : Option Response} {b : Response}
    (h : (last.any fun a => !decide (SameOutcome a b)) = true) :
    ∃ response, last = some response ∧ ¬ SameOutcome response b := by
  obtain ⟨a, ha, hdif⟩ := (Option.any_eq_true _ _).1 h
  exact ⟨a, ha, fun hsa => by simp [hsa] at hdif⟩

/-- The name of a call comes after its first fragment; the input of a custom tool is missing in a
reply that was cut off; a chunk has two choices. -/
theorem stream_differs : (∃ response, finalResponse (stream Int "m" patchKinds
        [callsChunk [callFragment (some "call_1") none []] none,
          callsChunk [callFragment none (some "apply_patch") patchArguments]
            (some "tool_calls")] .finish) = some response ∧
      ¬ SameOutcome response (renderResponse Int patchKinds
        (reply [callReply "call_1" "apply_patch" patchArguments "tool_calls"]) "m")) ∧
    (∃ response, finalResponse (stream Int "m" patchKinds
        [callsChunk [callFragment (some "call_1") (some "apply_patch")
          "\x7b\x7d"] (some "length")] .finish) = some response ∧
      ¬ SameOutcome response (renderResponse Int patchKinds
        (reply [callReply "call_1" "apply_patch" "\x7b\x7d" "length"]) "m")) ∧
    (∃ response, finalResponse (stream Int "m" patchKinds
        [⟨[], [], [⟨0, ⟨none, some "a", none⟩, some "stop"⟩,
          ⟨1, ⟨none, some "b", none⟩, some "stop"⟩], none⟩] .finish) = some response ∧
      ¬ SameOutcome response (renderResponse Int patchKinds
        (reply [textReply 0 "a", textReply 1 "b"]) "m")) := by
  refine ⟨differs_of_any ?_, differs_of_any ?_, differs_of_any ?_⟩ <;> decide +kernel

end Nasiko.LlmRouter.Responses
