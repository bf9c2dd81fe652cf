import Nasiko.LlmRouter.Folding
import Nasiko.LlmRouter.Providers.ToolBlocks

/-!
# The tool calls that the clients pass on

What an event says about blocks is a `BlockEvent`, for both providers. `Accumulates` says which
sequences of them are well formed and what blocks they make up.

**Theorem (`calls_fold`).** If the chunks have the fragments that the clients pass on for a
well-formed sequence of events, then they have, put together, the calls of the blocks: the id and
the name of a block, and its fragments, or `{}` if it has none.

`Passed` ties the blocks to what the client remembers (`Tracked`) and to what it has passed on, and
every rule of `Accumulates` is one step that keeps it.
-/

namespace Nasiko.LlmRouter.Providers

open List Function Prod Emitter ToolBlocks

/-! ## Well-formed streams -/

/-- What an event says about the blocks that are tool calls. -/
inductive BlockEvent where
  | start (block : Int) (id name : Option Str)
  | fragment (block : Int) (part : Str)
  | stop (block : Int)
  | other

def BlockEvent.emit : BlockEvent → Emitter ToolBlocks ToolCallDelta
  | start block id name => ToolBlocks.start block id name
  | fragment block part => ToolBlocks.fragment block part
  | stop block => ToolBlocks.stop block
  | other => Emitter.skip

/-- A block that is a tool call, as far as it has come. -/
structure ToolBlock where
  index : Int
  id : Str
  name : Str
  fragments : List Str
  stopped : Bool

/-- The blocks that the events make up. A block starts once, has fragments until it stops, and stops
once; blocks that are not tool calls may have fragments and stop as well. -/
inductive Accumulates : List BlockEvent → List ToolBlock → Prop
  | nil : Accumulates [] []
  | other {es : List BlockEvent} {bs : List ToolBlock} :
      Accumulates es bs → Accumulates (es ++ [.other]) bs
  | start {es : List BlockEvent} {bs : List ToolBlock} {index : Int} (id name : Str) :
      Accumulates es bs → index ∉ bs.map ToolBlock.index →
      Accumulates (es ++ [.start index (some id) (some name)])
        (bs ++ [⟨index, id, name, [], false⟩])
  | fragment {es : List BlockEvent} {bs bs' : List ToolBlock} {b : ToolBlock} (part : Str) :
      Accumulates es (bs ++ b :: bs') → b.stopped = false →
      Accumulates (es ++ [.fragment b.index part])
        (bs ++ { b with fragments := b.fragments ++ [part] } :: bs')
  | stop {es : List BlockEvent} {bs bs' : List ToolBlock} {b : ToolBlock} :
      Accumulates es (bs ++ b :: bs') → b.stopped = false →
      Accumulates (es ++ [.stop b.index]) (bs ++ { b with stopped := true } :: bs')
  | fragmentElsewhere {es : List BlockEvent} {bs : List ToolBlock} {index : Int} (part : Str) :
      Accumulates es bs → index ∉ bs.map ToolBlock.index →
      Accumulates (es ++ [.fragment index part]) bs
  | stopElsewhere {es : List BlockEvent} {bs : List ToolBlock} {index : Int} :
      Accumulates es bs → index ∉ bs.map ToolBlock.index →
      Accumulates (es ++ [.stop index]) bs

/-! ## What the client has passed on -/

namespace ToolBlock

/-- The arguments that have been passed on. -/
def passed (b : ToolBlock) : Str :=
  b.fragments.flatten ++ if b.stopped && b.fragments.isEmpty then noArguments else []

def folding (b : ToolBlock) : Folding := ⟨some b.id, some b.name, b.passed⟩

/-- The arguments when the block has stopped. -/
def text (b : ToolBlock) : Str := if b.fragments.isEmpty then noArguments else b.fragments.flatten

theorem passed_of_stopped {b : ToolBlock} (h : b.stopped = true) : b.passed = b.text := by
  unfold passed text
  rw [h]
  cases b.fragments with
  | nil => rfl
  | cons t ts => exact append_nil _

end ToolBlock

def callsFrom (n : Int) : List ToolBlock → List (Int × Folding)
  | [] => []
  | b :: bs => (n, b.folding) :: callsFrom (n + 1) bs

theorem callsFrom_append (n : Int) (bs bs' : List ToolBlock) :
    callsFrom n (bs ++ bs') = callsFrom n bs ++ callsFrom (n + bs.length) bs' := by
  induction bs generalizing n with
  | nil => simp [callsFrom]
  | cons b bs ih =>
    rw [cons_append, callsFrom, ih, length_cons]
    congr 3
    omega

variable {n : Int} {bs : List ToolBlock} {d : ToolCallDelta} {es : List BlockEvent}

theorem bounds_of_mem_callsFrom {c : Int × Folding} (h : c ∈ callsFrom n bs) :
    n ≤ c.1 ∧ c.1 < n + bs.length := by
  induction bs generalizing n with
  | nil => exact absurd h not_mem_nil
  | cons b bs ih =>
    rw [length_cons]
    rcases mem_cons.1 h with rfl | h
    · exact ⟨le_rfl, by dsimp only; omega⟩
    · have := ih h
      omega

theorem map_call_callsFrom (n : Int) (bs : List ToolBlock) :
    (callsFrom n bs).map (fun c => c.2.call) = bs.map fun b => b.folding.call := by
  induction bs generalizing n with
  | nil => rfl
  | cons b bs ih =>
    rw [callsFrom, map_cons, ih]
    rfl

theorem notMem_keys_callsFrom {k : Int} (h : k < n ∨ n + bs.length ≤ k) :
    k ∉ (callsFrom n bs).map fst := by
  intro hmem
  obtain ⟨c, hc, rfl⟩ := mem_map.1 hmem
  have := bounds_of_mem_callsFrom hc
  omega

theorem addFragment_callsFrom_new {b : ToolBlock} (hidx : d.index = bs.length)
    (hb : b.folding = Folding.add ⟨none, none, []⟩ d) :
    addFragment (callsFrom 0 bs) d = callsFrom 0 (bs ++ [b]) := by
  have hnew : d.index ∉ (callsFrom 0 bs).map fst := notMem_keys_callsFrom (by omega)
  rw [addFragment, if_neg hnew, callsFrom_append, callsFrom, callsFrom, hb, hidx, Int.zero_add]

theorem map_callsFrom_of_ne (h : d.index < n ∨ n + bs.length ≤ d.index) :
    (callsFrom n bs).map (fun c => if c.1 = d.index then (c.1, c.2.add d) else c) =
      callsFrom n bs := by
  refine (map_congr_left fun c hc => ?_).trans (map_id _)
  have := bounds_of_mem_callsFrom hc
  exact if_neg (by omega)

theorem addFragment_callsFrom {bs' : List ToolBlock} {b b' : ToolBlock}
    (hidx : d.index = bs.length) (hb : b'.folding = b.folding.add d) :
    addFragment (callsFrom 0 (bs ++ b :: bs')) d = callsFrom 0 (bs ++ b' :: bs') := by
  rw [callsFrom_append, callsFrom_append, callsFrom, callsFrom, Int.zero_add, ← hidx]
  have hmem : d.index ∈ (callsFrom 0 bs ++ (d.index, b.folding) :: callsFrom (d.index + 1) bs').map
      fst := by simp
  rw [addFragment, if_pos hmem, map_append, map_cons, map_callsFrom_of_ne (by omega),
    map_callsFrom_of_ne (by omega), if_pos rfl, hb]

/-! ## What the client remembers -/

/-- What the client remembers of the blocks. -/
structure Tracked (bs : List ToolBlock) (s : ToolBlocks) : Prop where
  next : s.nextToolIndex = bs.length
  known : ∀ (n : Nat) (i : Int), (bs.map ToolBlock.index)[n]? = some i →
    s.blockToTool i = some (n : Int)
  unknown : ∀ i ∉ bs.map ToolBlock.index, s.blockToTool i = none
  distinct : (bs.map ToolBlock.index).Nodup
  arguments : ∀ i, s.toolBlocksWithArguments.contains i =
    bs.any fun b => b.index == i && !b.fragments.isEmpty

namespace Tracked

variable {bs bs' : List ToolBlock} {b b' : ToolBlock} {s : ToolBlocks}

theorem blockToTool (h : Tracked (bs ++ b :: bs') s) :
    s.blockToTool b.index = some (bs.length : Int) := by
  refine h.known _ _ ?_
  simp

theorem contains (h : Tracked (bs ++ b :: bs') s) :
    s.toolBlocksWithArguments.contains b.index = !b.fragments.isEmpty := by
  have hdis := h.distinct
  rw [map_append, map_cons, nodup_middle, nodup_cons, ← map_append, mem_map] at hdis
  rw [h.arguments, Bool.eq_iff_iff, any_eq_true]
  constructor
  · rintro ⟨c, hc, hidx⟩
    rw [Bool.and_eq_true, beq_iff_eq] at hidx
    rcases mem_append.1 hc with hc | hc
    · exact absurd ⟨c, mem_append_left _ hc, hidx.1⟩ hdis.1
    · rcases mem_cons.1 hc with rfl | hc
      · exact hidx.2
      · exact absurd ⟨c, mem_append_right _ hc, hidx.1⟩ hdis.1
  · intro hb
    exact ⟨b, mem_append_right _ mem_cons_self, by rw [hb, beq_self_eq_true]; rfl⟩

/-- The same blocks, as far as the client remembers them. -/
theorem congr {s' : ToolBlocks} (h : Tracked (bs ++ b :: bs') s) (hidx : b'.index = b.index)
    (hnext : s'.nextToolIndex = s.nextToolIndex) (hmap : s'.blockToTool = s.blockToTool)
    (hargs : ∀ i, s'.toolBlocksWithArguments.contains i =
      (bs ++ b' :: bs').any fun b => b.index == i && !b.fragments.isEmpty) :
    Tracked (bs ++ b' :: bs') s' := by
  have hkeys : (bs ++ b' :: bs').map ToolBlock.index = (bs ++ b :: bs').map ToolBlock.index := by
    rw [map_append, map_append, map_cons, map_cons, hidx]
  refine ⟨?_, ?_, ?_, ?_, hargs⟩
  · rw [hnext, h.next, length_append, length_append, length_cons, length_cons]
  · rw [hkeys, hmap]
    exact h.known
  · rw [hkeys, hmap]
    exact h.unknown
  · rw [hkeys]
    exact h.distinct

end Tracked

/-- What the client remembers and has passed on when some events have come. -/
structure Passed (bs : List ToolBlock) (s : ToolBlocks) (ds : List ToolCallDelta) : Prop where
  tracked : Tracked bs s
  calls : ds.foldl addFragment [] = callsFrom 0 bs

namespace Passed

variable {bs bs' : List ToolBlock} {b : ToolBlock} {s : ToolBlocks} {ds : List ToolCallDelta}
  {index : Int}

theorem start (h : Passed bs s ds) (hidx : index ∉ bs.map ToolBlock.index) (id name : Str) :
    Passed (bs ++ [⟨index, id, name, [], false⟩]) (start index (some id) (some name) s).1
      (ds ++ (start index (some id) (some name) s).2) := by
  obtain ⟨⟨hnext, hkno, hunk, hdis, hargs⟩, hcs⟩ := h
  refine ⟨⟨?_, ?_, ?_, ?_, ?_⟩, ?_⟩
  · change s.nextToolIndex + 1 = _
    rw [hnext, length_append]
    rfl
  · intro n i hi
    change update s.blockToTool index (some s.nextToolIndex) i = _
    rw [map_append, map_singleton] at hi
    rw [getElem?_append] at hi
    split at hi
    · have hne : i ≠ index := by
        rintro rfl
        exact hidx (mem_of_getElem? hi)
      rw [update_of_ne hne]
      exact hkno n i hi
    · rename_i hn
      obtain ⟨hlast, rfl⟩ := List.getElem?_eq_some_iff.1 hi
      rw [length_map, length_singleton] at hlast
      rw [length_map] at hn
      have hlen : n = bs.length := by omega
      rw [getElem_singleton, update_self, hnext, hlen]
  · intro i hi
    rw [map_append, map_singleton, mem_append, mem_singleton, not_or] at hi
    change update s.blockToTool index (some s.nextToolIndex) i = _
    rw [update_of_ne hi.2]
    exact hunk i hi.1
  · rw [map_append]
    exact hdis.append (nodup_singleton _) (by simpa using hidx)
  · intro i
    change s.toolBlocksWithArguments.contains i = _
    rw [hargs]
    simp
  · rw [foldl_append, hcs]
    exact addFragment_callsFrom_new hnext rfl

theorem fragment (h : Passed (bs ++ b :: bs') s ds) (hb : b.stopped = false) (part : Str) :
    Passed (bs ++ { b with fragments := b.fragments ++ [part] } :: bs')
      (fragment b.index part s).1 (ds ++ (fragment b.index part s).2) := by
  unfold ToolBlocks.fragment
  rw [h.tracked.blockToTool]
  refine ⟨h.tracked.congr rfl rfl rfl fun i => ?_, ?_⟩
  · have hold := h.tracked.arguments i
    rw [any_append, any_cons] at hold ⊢
    change (i == b.index || s.toolBlocksWithArguments.contains i) = _
    rw [hold, Bool.beq_comm]
    cases (b.index == i) <;> simp
  · rw [foldl_append, h.calls]
    refine addFragment_callsFrom rfl ?_
    unfold ToolBlock.folding ToolBlock.passed
    rw [hb]
    simp [Folding.add, argumentsDelta, ToolCallDelta.text, ToolCallDelta.arguments]

theorem stop (h : Passed (bs ++ b :: bs') s ds) (hb : b.stopped = false) :
    Passed (bs ++ { b with stopped := true } :: bs')
      (stop b.index s).1 (ds ++ (stop b.index s).2) := by
  have hargs : ∀ i, s.toolBlocksWithArguments.contains i =
      (bs ++ { b with stopped := true } :: bs').any
        fun b => b.index == i && !b.fragments.isEmpty := by
    intro i
    rw [h.tracked.arguments, any_append, any_append]
    rfl
  have htra : Tracked (bs ++ { b with stopped := true } :: bs') s :=
    h.tracked.congr rfl rfl rfl hargs
  unfold ToolBlocks.stop
  rw [h.tracked.blockToTool]
  rw [h.tracked.contains]
  cases hemp : b.fragments.isEmpty with
  | false =>
    refine ⟨htra, ?_⟩
    have hfol : ToolBlock.folding { b with stopped := true } = b.folding := by
      unfold ToolBlock.folding ToolBlock.passed
      rw [hemp, hb]
      rfl
    change foldl addFragment [] (ds ++ []) = _
    rw [append_nil, h.calls, callsFrom_append, callsFrom_append, callsFrom, callsFrom, hfol]
  | true =>
    refine ⟨htra, ?_⟩
    rw [foldl_append, h.calls]
    refine addFragment_callsFrom rfl ?_
    unfold ToolBlock.folding ToolBlock.passed
    rw [hemp, hb]
    simp [Folding.add, argumentsDelta, ToolCallDelta.text, ToolCallDelta.arguments]

theorem elsewhere (h : Passed bs s ds) (hidx : index ∉ bs.map ToolBlock.index) :
    (∀ part, ToolBlocks.fragment index part s = (s, [])) ∧ ToolBlocks.stop index s = (s, []) := by
  unfold ToolBlocks.fragment ToolBlocks.stop
  rw [h.tracked.unknown index hidx]
  exact ⟨fun _ => rfl, rfl⟩

end Passed

/-- **What has been passed on when all events have come.** -/
theorem passed_of_accumulates (h : Accumulates es bs) :
    Passed bs (forEach BlockEvent.emit es .new).1 (forEach BlockEvent.emit es .new).2 := by
  -- The events come one by one at the end; each rule of `Accumulates` is one step of the client.
  induction h with
  | nil => exact ⟨⟨rfl, nofun, fun _ _ => rfl, nodup_nil, fun _ => rfl⟩, rfl⟩
  | other _ ih =>
    rw [forEach_append]
    simpa [BlockEvent.emit] using ih
  | start id name _ hidx ih =>
    rw [forEach_append]
    simpa [BlockEvent.emit] using ih.start hidx id name
  | fragment part _ hb ih =>
    rw [forEach_append]
    simpa [BlockEvent.emit] using ih.fragment hb part
  | stop _ hb ih =>
    rw [forEach_append]
    simpa [BlockEvent.emit] using ih.stop hb
  | fragmentElsewhere part _ hidx ih =>
    rw [forEach_append]
    simpa [BlockEvent.emit, (ih.elsewhere hidx).1] using ih
  | stopElsewhere _ hidx ih =>
    rw [forEach_append]
    simpa [BlockEvent.emit, (ih.elsewhere hidx).2] using ih

theorem calls_fold (h : Accumulates es bs) (hsto : ∀ b ∈ bs, b.stopped = true)
    {chunks : List ChatChunk} (hchu : fragments chunks = (forEach BlockEvent.emit es .new).2) :
    (fold chunks).calls = bs.map fun b => ⟨b.id, b.name, b.text⟩ := by
  rw [fold, calls_foldl, hchu, (passed_of_accumulates h).calls, map_call_callsFrom]
  refine map_congr_left fun b hb => ?_
  rw [ToolBlock.folding, ToolBlock.passed_of_stopped (hsto b hb)]
  rfl

end Nasiko.LlmRouter.Providers
