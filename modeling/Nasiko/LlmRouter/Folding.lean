import Nasiko.LlmRouter.Ir

/-!
# A reply put together from its chunks

The text of the chunks is added up, and so are the fragments of tool calls that have one index. A
call has the first id and the first name that one of its fragments has, and the calls are in the
order in which their indices have come.
-/

namespace Nasiko.LlmRouter

open List

structure Call where
  id : Str
  name : Str
  arguments : Str
  deriving DecidableEq

structure Reply where
  text : Str
  calls : List Call
  deriving DecidableEq

def ToolCall.call (c : ToolCall) : Call := ⟨c.id, c.function.name, c.function.arguments⟩

/-- A call, as far as its fragments have come. -/
structure Folding where
  id : Option Str
  name : Option Str
  arguments : Str
  deriving DecidableEq

namespace Folding

def add (f : Folding) (d : ToolCallDelta) : Folding :=
  ⟨f.id.or d.id, f.name.or d.name, f.arguments ++ d.text⟩

def call (f : Folding) : Call := ⟨f.id.getD [], f.name.getD [], f.arguments⟩

end Folding

structure Folded where
  text : Str
  calls : List (Int × Folding)
  deriving DecidableEq

def addFragment (calls : List (Int × Folding)) (d : ToolCallDelta) : List (Int × Folding) :=
  if d.index ∈ calls.map Prod.fst then
    calls.map fun c => if c.1 = d.index then (c.1, c.2.add d) else c
  else calls ++ [(d.index, Folding.add ⟨none, none, []⟩ d)]

def foldChunk (acc : Folded) (chunk : ChatChunk) : Folded :=
  match chunk.choices.head? with
  | none => acc
  | some choice =>
    ⟨acc.text ++ choice.delta.content.getD [],
      (choice.delta.toolCalls.getD []).foldl addFragment acc.calls⟩

variable (chunks : List ChatChunk)

/-- The chunks, folded by the index of the tool calls. -/
def fold : Reply :=
  let folded := chunks.foldl foldChunk ⟨[], []⟩
  ⟨folded.text, folded.calls.map fun c => c.2.call⟩

def fragments : List ToolCallDelta :=
  chunks.flatMap fun chunk => (chunk.choices.head?.bind (·.delta.toolCalls)).getD []

theorem calls_foldl (acc : Folded) :
    (chunks.foldl foldChunk acc).calls = (fragments chunks).foldl addFragment acc.calls := by
  induction chunks generalizing acc with
  | nil => rfl
  | cons chunk chunks ih =>
    have hcons : fragments (chunk :: chunks) =
        (chunk.choices.head?.bind (·.delta.toolCalls)).getD [] ++ fragments chunks :=
      flatMap_cons
    rw [foldl_cons, ih, hcons, foldl_append]
    unfold foldChunk
    cases chunk.choices.head? <;> rfl

/-! ## The indices of the calls -/

theorem keys_addFragment (calls : List (Int × Folding)) (d : ToolCallDelta) :
    (addFragment calls d).map Prod.fst =
      if d.index ∈ calls.map Prod.fst then calls.map Prod.fst
      else calls.map Prod.fst ++ [d.index] := by
  unfold addFragment
  split
  · rw [map_map]
    refine map_congr_left fun c _ => ?_
    change (if c.1 = d.index then (c.1, c.2.add d) else c).1 = c.1
    split <;> rfl
  · exact map_append

theorem mem_keys_foldl (ds : List ToolCallDelta) (k : Int) :
    k ∈ (ds.foldl addFragment []).map Prod.fst ↔ ∃ e ∈ ds, e.index = k := by
  induction ds using reverseRecOn with
  | nil => simp
  | append_singleton ds d ih =>
    rw [foldl_append, foldl_cons, foldl_nil, keys_addFragment]
    simp only [mem_append, mem_singleton, or_and_right, exists_or, exists_eq_left, ← ih]
    split
    · rename_i hmem
      exact ⟨Or.inl, fun h => h.elim id fun heq => heq ▸ hmem⟩
    · rw [mem_append, mem_singleton]
      exact or_congr_right eq_comm

end Nasiko.LlmRouter
