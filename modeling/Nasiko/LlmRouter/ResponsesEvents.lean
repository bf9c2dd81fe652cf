import Nasiko.LlmRouter.Responses

/-!
# The events of a response

**Theorem (`stream_ordered`).** For every sequence of chunks and however the stream of the provider
ends, the events are numbered from 0, the last and no other is terminal, and unless it is a failure,
the items that were added are those that are done, each once, under different output indices, and
the response has the items that are done in the order of their output indices.

Before the end, an item that is added stays open: `Advances` relates the open items of the renderer
to the events, with the next numbers and the next output indices. At the end, `Closes` does the same
for the items that are done. Both are kept by one step after the other, so each function of the
renderer has one lemma.
-/

namespace Nasiko.LlmRouter.Responses

open List Emitter

/-! ## What the events say about items -/

def Event.added : Event → Option (Nat × Item)
  | outputItemAdded i item => some (i, item)
  | _ => none

def Event.done : Event → Option (Nat × Item)
  | outputItemDone i item => some (i, item)
  | _ => none

def Event.terminal : Event → Option Response
  | failed response | completed response | incomplete response => some response
  | _ => none

variable (fs : List Frame)

def added : List (Nat × Item) := fs.filterMap fun f => f.event.added

def done : List (Nat × Item) := fs.filterMap fun f => f.event.done

def Item.opened : Item → Item
  | message id _ _ => message id .inProgress []
  | functionCall id callId name _ _ => functionCall id callId name [] .inProgress
  | customToolCall id callId name _ _ => customToolCall id callId name [] .inProgress

theorem added_append (fs gs : List Frame) : added (fs ++ gs) = added fs ++ added gs :=
  filterMap_append

theorem done_append (fs gs : List Frame) : done (fs ++ gs) = done fs ++ done gs :=
  filterMap_append

theorem opened_streamCallItem (call : StreamCall) (status : ItemStatus) (value : Str) :
    (streamCallItem call status value).opened = streamCallItem call .inProgress [] := by
  unfold streamCallItem
  cases call.kind <;> rfl

/-! ## Numbers -/

/-- The frames have the numbers from `n` on; the next is `m`. -/
def Numbered (n : Nat) (fs : List Frame) (m : Nat) : Prop :=
  fs.map (·.sequenceNumber) = List.range' n fs.length ∧ m = n + fs.length

variable {n : Nat}

theorem numbered_nil : Numbered n [] n := ⟨rfl, rfl⟩

theorem numbered_singleton (n : Nat) (e : Event) : Numbered n [⟨n, e⟩] (n + 1) := ⟨rfl, rfl⟩

theorem Numbered.append {m k : Nat} {fs gs : List Frame} (hf : Numbered n fs m)
    (hg : Numbered m gs k) : Numbered n (fs ++ gs) k := by
  obtain ⟨hf, rfl⟩ := hf
  obtain ⟨hg, rfl⟩ := hg
  refine ⟨?_, ?_⟩
  · rw [map_append, hf, hg, length_append, range'_append_1]
  · rw [length_append, Nat.add_assoc]

/-- New items have the output indices from `n` on; the next is `m`. -/
def Indexed (n : Nat) (items : List (Nat × Item)) (m : Nat) : Prop :=
  items.map Prod.fst = List.range' n items.length ∧ m = n + items.length

theorem indexed_nil : Indexed n [] n := ⟨rfl, rfl⟩

theorem indexed_singleton {item : Item} : Indexed n [(n, item)] (n + 1) := ⟨rfl, rfl⟩

theorem Indexed.append {m k : Nat} {is js : List (Nat × Item)} (hi : Indexed n is m)
    (hj : Indexed m js k) : Indexed n (is ++ js) k := by
  obtain ⟨hi, rfl⟩ := hi
  obtain ⟨hj, rfl⟩ := hj
  refine ⟨?_, ?_⟩
  · rw [map_append, hi, hj, length_append, range'_append_1]
  · rw [length_append, Nat.add_assoc]

namespace StreamRenderer

/-! ## Before the end -/

variable (r : StreamRenderer)

def textItem : List (Nat × Item) :=
  match r.textItemId, r.textOutputIndex with
  | some id, some i => [(i, .message id .inProgress [])]
  | _, _ => []

def openCallItem (c : Int × StreamCall) : Option (Nat × Item) :=
  if c.2.kind = .function then some (c.2.outputIndex, streamCallItem c.2 .inProgress []) else none

def openItems : List (Nat × Item) :=
  r.textItem ++ r.calls.filterMap openCallItem

/-- Nothing is done, and nothing is terminal. -/
def Quiet (fs : List Frame) : Prop := ∀ f ∈ fs, f.event.done = none ∧ f.event.terminal = none

structure Advances (fs : List Frame) (r' : StreamRenderer) : Prop where
  quiet : Quiet fs
  items : r'.openItems.Perm (r.openItems ++ added fs)
  indexed : Indexed r.nextOutputIndex (added fs) r'.nextOutputIndex
  numbered : Numbered r.sequence fs r'.sequence
  terminal : r'.terminal = r.terminal

theorem Advances.refl : Advances r [] r where
  quiet _ hf := absurd hf not_mem_nil
  items := Perm.of_eq (append_nil _).symm
  indexed := indexed_nil
  numbered := numbered_nil
  terminal := rfl

variable {r r' : StreamRenderer} {fs gs : List Frame} {item : Item} {is : List (Nat × Item)}
  {c c' : Closing} {call : StreamCall} {delta : ToolCallDelta} {e : Event}

theorem Advances.trans {r'' : StreamRenderer} (hf : Advances r fs r') (hg : Advances r' gs r'') :
    Advances r (fs ++ gs) r'' where
  quiet f hf' := (mem_append.1 hf').elim (hf.quiet f) (hg.quiet f)
  items := by
    rw [added_append, ← append_assoc]
    exact hg.items.trans (hf.items.append_right _)
  indexed := by
    rw [added_append]
    exact hf.indexed.append hg.indexed
  numbered := hf.numbered.append hg.numbered
  terminal := hg.terminal.trans hf.terminal

/-- The step is made before the end. -/
def Advancing (f : Emitter StreamRenderer Frame) : Prop := ∀ r, Advances r (f r).2 (f r).1

theorem Advancing.andThen {f g : Emitter StreamRenderer Frame} (hf : Advancing f)
    (hg : Advancing g) : Advancing (f.andThen g) :=
  fun r => (hf r).trans (hg _)

theorem advancing_skip : Advancing skip := Advances.refl

theorem advancing_forEach {ι : Type} {f : ι → Emitter StreamRenderer Frame}
    (hf : ∀ i, Advancing (f i)) (is : List ι) : Advancing (forEach f is) := by
  induction is with
  | nil => exact advancing_skip
  | cons i is ih => exact (hf i).andThen ih

theorem advancing_emit (hadd : e.added = none) (hdo : e.done = none)
    (hte : e.terminal = none) : Advancing (emit e) := by
  intro r
  have hno : added (emit e r).2 = [] := by
    simp [emit, added, hadd]
  refine ⟨?_, ?_, ?_, numbered_singleton _ _, rfl⟩
  · intro f hf
    obtain rfl := mem_singleton.1 hf
    exact ⟨hdo, hte⟩
  · rw [hno, append_nil]
    exact Perm.refl _
  · rw [hno]
    exact indexed_nil

theorem advances_add (hit : r'.openItems.Perm (r.openItems ++ [(r.nextOutputIndex, item)]))
    (hidx : r'.nextOutputIndex = r.nextOutputIndex + 1) (hseq : r'.sequence = r.sequence)
    (hte : r'.terminal = r.terminal) :
    Advances r (emit (.outputItemAdded r.nextOutputIndex item) r').2
      (emit (.outputItemAdded r.nextOutputIndex item) r').1 := by
  refine ⟨?_, hit, ?_, ?_, hte⟩
  · intro f hf
    obtain rfl := mem_singleton.1 hf
    exact ⟨rfl, rfl⟩
  · change Indexed r.nextOutputIndex [(r.nextOutputIndex, item)] r'.nextOutputIndex
    rw [hidx]
    exact indexed_singleton
  · change Numbered r.sequence [⟨r'.sequence, _⟩] (r'.sequence + 1)
    rw [hseq]
    exact numbered_singleton _ _

/-- A change of what the events do not tell. -/
theorem Advances.of_eq {r₀ : StreamRenderer} (h : Advances r₀ fs r')
    (hit : r₀.openItems = r.openItems) (hidx : r₀.nextOutputIndex = r.nextOutputIndex)
    (hseq : r₀.sequence = r.sequence) (hte : r₀.terminal = r.terminal) :
    Advances r fs r' where
  quiet := h.quiet
  items := hit ▸ h.items
  indexed := hidx ▸ h.indexed
  numbered := hseq ▸ h.numbered
  terminal := h.terminal.trans hte

theorem advancing_start : Advancing start :=
  fun _ => ((advancing_emit rfl rfl rfl).andThen (advancing_emit rfl rfl rfl)) _

theorem advancing_openText : Advancing openText := by
  intro r
  unfold openText
  split
  · exact Advances.refl r
  · rename_i hsome
    have hno : r.textItem = [] := by
      unfold textItem
      rw [Option.not_isSome_iff_eq_none.1 hsome]
    have hit : r.withText.openItems.Perm
        (r.openItems ++ [(r.nextOutputIndex, .message r.newTextId .inProgress [])]) := by
      rw [openItems, openItems, hno]
      exact perm_append_comm
    exact (advances_add hit rfl rfl rfl).trans (advancing_emit rfl rfl rfl _)

theorem advancing_renderText {content : Option Str} : Advancing (renderText content) := by
  cases content with
  | none => exact advancing_skip
  | some text =>
    rw [renderText]
    split
    · exact advancing_skip
    · exact advancing_openText.andThen fun _ => (advancing_emit rfl rfl rfl _).of_eq rfl rfl rfl rfl

theorem openItems_withCall (delta : ToolCallDelta) (r : StreamRenderer) :
    (withCall delta r).openItems.Perm
      (r.openItems ++ (openCallItem (delta.index, newCall delta r)).toList) := by
  have hcons : ∀ c : Int × StreamCall, (c :: r.calls).filterMap openCallItem =
      (openCallItem c).toList ++ r.calls.filterMap openCallItem := by
    intro c
    cases hc : openCallItem c <;> simp [hc]
  have hcs := (perm_orderedInsert (fun a b : Int × StreamCall => a.1 ≤ b.1)
    (delta.index, newCall delta r) r.calls).filterMap openCallItem
  rw [hcons] at hcs
  rw [openItems, openItems, append_assoc]
  exact (hcs.trans perm_append_comm).append_left _

theorem openCallItem_custom {c : Int × StreamCall} (h : c.2.kind = .custom) :
    openCallItem c = none := by
  rw [openCallItem, h]
  rfl

theorem advancing_openCall : Advancing (openCall delta) := by
  intro r
  have hit := openItems_withCall delta r
  cases hkno : containsCall delta.index r.calls with
  | true =>
    have hcall : openCall delta r = (r, []) := if_pos hkno
    rw [hcall]
    exact Advances.refl r
  | false =>
    cases hki : (newCall delta r).kind with
    | function =>
      have hnot : ¬ (newCall delta r).kind = .custom := by
        rw [hki]
        exact nofun
      have hidx : (newCall delta r).outputIndex = r.nextOutputIndex := if_neg hnot
      have hcall : openCall delta r = emit (.outputItemAdded r.nextOutputIndex
          (streamCallItem (newCall delta r) .inProgress [])) (withCall delta r) := by
        rw [← hidx, openCall, hkno]
        exact if_pos hki
      have hopen : openCallItem (delta.index, newCall delta r) =
          some (r.nextOutputIndex, streamCallItem (newCall delta r) .inProgress []) := by
        rw [← hidx]
        exact if_pos hki
      rw [hopen] at hit
      rw [hcall]
      exact advances_add hit (if_neg hnot) rfl rfl
    | custom =>
      have hcall : openCall delta r = (withCall delta r, []) := by
        rw [openCall, hkno]
        dsimp only
        rw [hki]
        exact if_neg nofun
      have hidx : (withCall delta r).nextOutputIndex = r.nextOutputIndex := if_pos hki
      rw [openCallItem_custom hki] at hit
      rw [hcall]
      refine ⟨fun _ hf => absurd hf not_mem_nil, hit, ?_, numbered_nil, rfl⟩
      rw [hidx]
      exact indexed_nil

theorem openItems_withArguments : (withArguments delta r).openItems = r.openItems := by
  refine congrArg (r.textItem ++ ·) ?_
  change (r.calls.map _).filterMap openCallItem = r.calls.filterMap openCallItem
  rw [filterMap_map]
  refine filterMap_congr fun c _ => ?_
  rw [Function.comp_apply]
  split
  · rfl
  · rfl

theorem advancing_addArguments (delta : ToolCallDelta) : Advancing (addArguments delta) := by
  intro r
  have hsa : ∀ {fs r'}, Advances (withArguments delta r) fs r' → Advances r fs r' := fun h =>
    h.of_eq openItems_withArguments rfl rfl rfl
  unfold addArguments
  split
  · exact Advances.refl r
  split
  · split
    · exact hsa (advancing_emit rfl rfl rfl _)
    · exact hsa (Advances.refl _)
  · exact hsa (Advances.refl _)

theorem advancing_renderChoice (choice : ChunkChoice) : Advancing (renderChoice choice) := fun _ =>
  (advancing_renderText.andThen (advancing_forEach
    (fun delta => advancing_openCall.andThen (advancing_addArguments delta)) _) _).of_eq
    rfl rfl rfl rfl

theorem advancing_render (chunk : ChatChunk) : Advancing (render chunk) := by
  intro r
  unfold render
  split
  · exact Advances.refl r
  · exact (advancing_forEach advancing_renderChoice _ _).of_eq rfl rfl rfl rfl

/-! ## The end -/

/-- No event is terminal. -/
def Unfinished (fs : List Frame) : Prop := ∀ f ∈ fs, f.event.terminal = none

/-- The open items are done, and so are those that are added on the way. -/
structure Closes (items : List (Nat × Item)) (c : Closing) (fs : List Frame) (c' : Closing) :
    Prop where
  unfinished : Unfinished fs
  items : ((done fs).map fun d => (d.1, d.2.opened)).Perm (items ++ added fs)
  completed : c'.completedItems = c.completedItems ++ done fs
  indexed : Indexed c.renderer.nextOutputIndex (added fs) c'.renderer.nextOutputIndex
  numbered : Numbered c.renderer.sequence fs c'.renderer.sequence

theorem Closes.refl (c : Closing) : Closes [] c [] c where
  unfinished _ hf := absurd hf not_mem_nil
  items := Perm.refl _
  completed := (append_nil _).symm
  indexed := indexed_nil
  numbered := numbered_nil

theorem Closes.trans {js : List (Nat × Item)} {c'' : Closing} (hf : Closes is c fs c')
    (hg : Closes js c' gs c'') : Closes (is ++ js) c (fs ++ gs) c'' where
  unfinished f hf' := (mem_append.1 hf').elim (hf.unfinished f) (hg.unfinished f)
  items := by
    rw [done_append, added_append, map_append]
    refine (hf.items.append hg.items).trans ?_
    rw [append_assoc, append_assoc]
    refine Perm.append_left is ?_
    rw [← append_assoc, ← append_assoc]
    exact perm_append_comm.append_right _
  completed := by rw [hg.completed, hf.completed, done_append, append_assoc]
  indexed := by
    rw [added_append]
    exact hf.indexed.append hg.indexed
  numbered := hf.numbered.append hg.numbered

theorem closes_emit (hadd : e.added = none) (hdo : e.done = none)
    (hte : e.terminal = none) : Closes [] c (Closing.emit e c).2 (Closing.emit e c).1 := by
  have hno : added (Closing.emit e c).2 = [] := by
    simp [Closing.emit, emit, added, hadd]
  have hno' : done (Closing.emit e c).2 = [] := by
    simp [Closing.emit, emit, done, hdo]
  refine ⟨?_, ?_, ?_, ?_, numbered_singleton _ _⟩
  · intro f hf
    obtain rfl := mem_singleton.1 hf
    exact hte
  · rw [hno, hno']
    exact Perm.refl _
  · rw [hno', append_nil]
    rfl
  · rw [hno]
    exact indexed_nil

theorem closes_done (i : Nat) (item : Item) (c : Closing) :
    Closes [(i, item.opened)] c (Closing.done i item c).2 (Closing.done i item c).1 := by
  refine ⟨?_, Perm.refl _, rfl, indexed_nil, numbered_singleton _ _⟩
  intro f hf
  obtain rfl := mem_singleton.1 hf
  rfl

theorem Closes.add {c₁ : Closing} (h : Closes ((c.renderer.nextOutputIndex, item) :: is) c₁ fs c')
    (hidx : c₁.renderer.nextOutputIndex = c.renderer.nextOutputIndex + 1)
    (hseq : c₁.renderer.sequence = c.renderer.sequence + 1)
    (hcom : c₁.completedItems = c.completedItems) :
    Closes is c
      (⟨c.renderer.sequence, .outputItemAdded c.renderer.nextOutputIndex item⟩ :: fs) c' where
  unfinished f hf := by
    rcases mem_cons.1 hf with rfl | hf
    · rfl
    · exact h.unfinished f hf
  items := h.items.trans perm_middle.symm
  completed := by
    rw [h.completed, hcom]
    rfl
  indexed := by
    have hind := h.indexed
    rw [hidx] at hind
    exact indexed_singleton.append hind
  numbered := by
    have hnum := h.numbered
    rw [hseq] at hnum
    exact (numbered_singleton _ _).append hnum

section

variable (incomplete : Bool)

theorem closes_text (c : Closing) :
    Closes c.renderer.textItem c (closeText incomplete c).2 (closeText incomplete c).1 := by
  unfold closeText textItem
  rcases c.renderer.textItemId with _ | id
  · exact Closes.refl c
  rcases c.renderer.textOutputIndex with _ | i
  · exact Closes.refl c
  · exact (closes_emit rfl rfl rfl).trans ((closes_emit rfl rfl rfl).trans
      (closes_done i (.message id (finalStatus incomplete) [c.renderer.text]) _))

theorem closes_function : Closes [(call.outputIndex, streamCallItem call .inProgress [])] c
      (closeFunction incomplete call c).2 (closeFunction incomplete call c).1 := by
  have hdo := closes_done call.outputIndex
    (streamCallItem call (finalStatus incomplete) call.arguments)
    (Closing.emit (.functionCallArgumentsDone call.id call.outputIndex call.arguments) c).1
  rw [opened_streamCallItem] at hdo
  exact (closes_emit rfl rfl rfl).trans hdo

theorem closes_custom {input : Str} :
    Closes [] c (closeCustom incomplete call input c).2
      (closeCustom incomplete call input c).1 := by
  have hdlt : ∀ (e : Event) (c : Closing), e.added = none → e.done = none → e.terminal = none →
      Closes [] c ((if input.isEmpty then skip else Closing.emit e) c).2
        ((if input.isEmpty then skip else Closing.emit e) c).1 := by
    intro e c hadd hdo hte
    split
    · exact Closes.refl c
    · exact closes_emit hadd hdo hte
  have hdo : ∀ (call : StreamCall) (c : Closing),
      Closes [(call.outputIndex, streamCallItem call .inProgress [])] c
        (Closing.done call.outputIndex (streamCallItem call (finalStatus incomplete) input) c).2
        (Closing.done call.outputIndex
          (streamCallItem call (finalStatus incomplete) input) c).1 := by
    intro call c
    have hdo := closes_done call.outputIndex (streamCallItem call (finalStatus incomplete) input) c
    rwa [opened_streamCallItem] at hdo
  exact Closes.add ((hdlt _ _ rfl rfl rfl).trans ((closes_emit rfl rfl rfl).trans
    (hdo { call with outputIndex := c.renderer.nextOutputIndex } _))) rfl rfl rfl

theorem closes_call {entry : (Int × StreamCall) × Option Str}
    (hval : entry.1.2.kind = .function → entry.2.isSome = true) (c : Closing) :
    Closes (openCallItem entry.1).toList c (closeCall incomplete entry c).2
      (closeCall incomplete entry c).1 := by
  obtain ⟨⟨index, call⟩, value⟩ := entry
  have hsa : ∀ {is c₁ fs c'}, Closes is c₁ fs c' → c₁ = { c with renderer := { c.renderer with
      calls := c.renderer.calls.filter fun e => e.1 != index } } → Closes is c fs c' := by
    rintro is c₁ fs c' h rfl
    exact { h with }
  unfold closeCall
  cases hki : call.kind with
  | function =>
    have hopen : openCallItem (index, call) =
        some (call.outputIndex, streamCallItem call .inProgress []) := if_pos hki
    obtain ⟨v, rfl⟩ := Option.isSome_iff_exists.1 (hval hki)
    rw [hopen]
    simp only [hki]
    exact hsa (closes_function _) rfl
  | custom =>
    rw [openCallItem_custom hki]
    simp only [hki]
    cases value with
    | none => exact hsa (Closes.refl _) rfl
    | some input => exact hsa (closes_custom _) rfl

theorem closes_calls (entries : List ((Int × StreamCall) × Option Str))
    (hvals : ∀ e ∈ entries, e.1.2.kind = .function → e.2.isSome = true) (c : Closing) :
    Closes ((entries.map Prod.fst).filterMap openCallItem) c
      (forEach (closeCall incomplete) entries c).2
      (forEach (closeCall incomplete) entries c).1 := by
  induction entries generalizing c with
  | nil => exact Closes.refl c
  | cons e entries ih =>
    have hcons : ((e :: entries).map Prod.fst).filterMap openCallItem =
        (openCallItem e.1).toList ++ (entries.map Prod.fst).filterMap openCallItem := by
      cases he : openCallItem e.1 <;> simp [he]
    rw [hcons]
    exact (closes_call incomplete (hvals e mem_cons_self) c).trans
      (ih (fun e' he' => hvals e' (mem_cons_of_mem _ he')) _)

end

variable (N : Type) {F : Type} [SerdeJson N F] {incomplete : Bool}

theorem validatedCallValue_function {value : Option Str}
    (h : validatedCallValue N incomplete call = .ok value) (hki : call.kind = .function) :
    value = some call.arguments := by
  unfold validatedCallValue at h
  rw [hki] at h
  split at h
  · cases h
    rfl
  · split at h
    · cases h
      rfl
    · cases h

theorem values_spec {calls : List (Int × StreamCall)} {values : List (Option Str)}
    (h : validatedCallValues N incomplete (calls.map Prod.snd) = .ok values) :
    (calls.zip values).map Prod.fst = calls ∧
      ∀ e ∈ calls.zip values, e.1.2.kind = .function → e.2.isSome = true := by
  induction calls generalizing values with
  | nil => exact ⟨rfl, fun _ he => absurd he not_mem_nil⟩
  | cons c calls ih =>
    obtain ⟨value, hval, h⟩ := Result.bind_eq_ok_iff.1 h
    obtain ⟨values', hvals, h⟩ := Result.bind_eq_ok_iff.1 h
    cases h
    obtain ⟨hmap, hall⟩ := ih hvals
    refine ⟨by rw [zip_cons_cons, map_cons, hmap], fun e he hki => ?_⟩
    rcases mem_cons.1 he with rfl | he
    · rw [validatedCallValue_function N hval hki]
      rfl
    · exact hall e he hki

end StreamRenderer

/-! ## The result -/

/-- The items of a response are those that were added, each done once. -/
structure Delivers (output : List Item) : Prop where
  added_done : (added fs).Perm ((done fs).map fun d => (d.1, d.2.opened))
  distinct : ((added fs).map Prod.fst).Nodup
  output : ∃ ds : List (Nat × Item), ds.Perm (done fs) ∧ ds.Pairwise (fun a b => a.1 < b.1) ∧
    output = ds.map Prod.snd

/-- The events are numbered, and the last and only the last is terminal. -/
structure Ordered : Prop where
  numbered : fs.map (·.sequenceNumber) = List.range fs.length
  last : ∃ before last response, fs = before ++ [last] ∧ last.event.terminal = some response ∧
    (∀ f ∈ before, f.event.terminal = none) ∧
    (response.status ≠ .failed → Delivers fs response.output)

namespace StreamRenderer

variable {r : StreamRenderer} {fs : List Frame} {model : Str} {toolKinds : Str → Option ToolKind}

theorem once_eq (h : r.terminal = false) (f : Emitter StreamRenderer Frame) :
    once f r = f { r with terminal := true } := by
  rw [once, h, if_neg Bool.false_ne_true]

theorem ordered_fails (h : Advances (new model toolKinds) fs r) {code message : Str}
    {r₁ : StreamRenderer} (hseq : r₁.sequence = r.sequence) :
    Ordered (fs ++ (fails code message r₁).2) := by
  constructor
  · have hnum := h.numbered
    rw [← hseq] at hnum
    rw [range_eq_range']
    exact (hnum.append (numbered_singleton _ _)).1
  · exact ⟨fs, _, _, rfl, rfl, fun f hf => (h.quiet f hf).2, fun hst => absurd rfl hst⟩

theorem pairwise_lt_insertionSort {ds : List (Nat × Item)} (h : (ds.map Prod.fst).Nodup) :
    (ds.insertionSort fun a b => a.1 ≤ b.1).Pairwise fun a b => a.1 < b.1 := by
  have hperm := perm_insertionSort (fun a b : Nat × Item => a.1 ≤ b.1) ds
  have hne : (ds.insertionSort fun a b => a.1 ≤ b.1).Pairwise fun a b => a.1 ≠ b.1 :=
    pairwise_map.1 ((hperm.map Prod.fst).nodup_iff.2 h)
  have hle : (ds.insertionSort fun a b => a.1 ≤ b.1).Pairwise fun a b => a.1 ≤ b.1 := by
    exact pairwise_insertionSort _ ds
  exact (hle.and hne).imp fun hab => lt_of_le_of_ne hab.1 hab.2

theorem complete_spec (incomplete : Bool) (c : Closing) :
    ∃ e response, (complete incomplete c).2 = [⟨c.renderer.sequence, e⟩] ∧
      e.terminal = some response ∧ e.added = none ∧ e.done = none ∧
      response = terminalResponse c.renderer.responseId c.renderer.model
        ((c.completedItems.insertionSort fun a b => a.1 ≤ b.1).map Prod.snd) c.renderer.usage none
        incomplete := by
  cases incomplete <;> exact ⟨_, _, rfl, rfl, rfl, rfl, rfl⟩

theorem ordered_complete (h : Advances (new model toolKinds) fs r) {incomplete : Bool}
    {c c' : Closing} {gs : List Frame} (hclo : Closes r.openItems c gs c')
    (hidx : c.renderer.nextOutputIndex = r.nextOutputIndex)
    (hseq : c.renderer.sequence = r.sequence) (hcom : c.completedItems = []) :
    Ordered (fs ++ (gs ++ (complete incomplete c').2)) := by
  obtain ⟨e, response, heq, hte, hadd, hdo, hresp⟩ := complete_spec incomplete c'
  have hout : response.output =
      (c'.completedItems.insertionSort fun a b => a.1 ≤ b.1).map Prod.snd := by
    rw [hresp]
    rfl
  have hall : added (fs ++ (gs ++ [⟨c'.renderer.sequence, e⟩])) = added fs ++ added gs := by
    simp [added, hadd]
  have hdon : done (fs ++ (gs ++ [⟨c'.renderer.sequence, e⟩])) = done gs := by
    have hno : done fs = [] := filterMap_eq_nil_iff.2 fun f hf => (h.quiet f hf).1
    rw [done_append, hno]
    simp [done, hdo]
  rw [heq]
  constructor
  · have hnum := hclo.numbered
    rw [hseq] at hnum
    have htot := h.numbered.append (hnum.append (numbered_singleton _ e))
    rw [range_eq_range']
    exact htot.1
  · refine ⟨fs ++ gs, _, response, (append_assoc _ _ _).symm, hte, ?_, fun _ => ?_⟩
    · intro f hf
      exact (mem_append.1 hf).elim (fun hf => (h.quiet f hf).2) (hclo.unfinished f)
    · have hperm : (added fs ++ added gs).Perm ((done gs).map fun d => (d.1, d.2.opened)) :=
        (h.items.symm.append_right _).trans hclo.items.symm
      have hnd : ((added fs ++ added gs).map Prod.fst).Nodup := by
        have hind := hclo.indexed
        rw [hidx] at hind
        rw [(h.indexed.append hind).1]
        exact nodup_range' _
      have hdis : ((done gs).map Prod.fst).Nodup := by
        have hfst := hperm.map Prod.fst
        rw [map_map] at hfst
        exact hfst.nodup_iff.1 hnd
      have hcom' : c'.completedItems = done gs := by
        rw [hclo.completed, hcom, nil_append]
      have hsor : (done gs).insertionSort (fun a b => a.1 ≤ b.1) |>.Perm (done gs) :=
        perm_insertionSort _ _
      rw [hcom'] at hout
      refine ⟨?_, ?_, (done gs).insertionSort fun a b => a.1 ≤ b.1, ?_, ?_, hout⟩
      · rw [hall, hdon]
        exact hperm
      · rw [hall]
        exact hnd
      · rw [hdon]
        exact hsor
      · exact pairwise_lt_insertionSort hdis

variable (N : Type) {F : Type} [SerdeJson N F]

section

variable (h : Advances (new model toolKinds) fs r)

include h

theorem ordered_succeeds (incomplete : Bool) :
    Ordered (fs ++ (succeeds N incomplete { r with terminal := true }).2) := by
  unfold succeeds
  dsimp only
  split
  · exact ordered_fails h rfl
  · rename_i values hvals
    obtain ⟨hmap, hall⟩ := values_spec N hvals
    have hcs := closes_calls incomplete _ hall
    rw [hmap] at hcs
    have hclo := fun c => (closes_text incomplete c).trans (hcs (closeText incomplete c).1)
    exact ordered_complete h (hclo ⟨{ r with
      terminal := true, outcome := some (if incomplete then .incomplete else .completed) }, []⟩)
      rfl rfl rfl

theorem ordered_once {f : Emitter StreamRenderer Frame}
    (hf : Ordered (fs ++ (f { r with terminal := true }).2)) : Ordered (fs ++ (once f r).2) := by
  rwa [once_eq h.terminal]

theorem ordered_finish : Ordered (fs ++ (finish N r).2) := by
  unfold finish
  split
  · exact ordered_once h (ordered_fails h rfl)
  · exact ordered_once h (ordered_succeeds N h _)

end

end StreamRenderer

open StreamRenderer in
/-- **The events of every response are in order.** -/
theorem stream_ordered (N : Type) {F : Type} [SerdeJson N F] (model : Str)
    (toolKinds : Str → Option ToolKind) (chunks : List ChatChunk) (ending : Ending) :
    Ordered (stream N model toolKinds chunks ending) := by
  have hchu := (advancing_start.andThen (advancing_forEach advancing_render chunks))
    (new model toolKinds)
  unfold stream
  rw [andThen_snd, andThen_snd, ← append_assoc]
  cases ending with
  | finish => exact ordered_finish N hchu
  | fail message => exact ordered_once hchu (ordered_fails hchu rfl)

end Nasiko.LlmRouter.Responses
