import Nasiko.LlmRouter.Config
import Mathlib.Data.List.NodupEquivFin

/-!
# The tools that fit into a request to OpenAI

An endpoint may have a cap on the tools of a request; `0` stands for none. A list that is too long
is cut: the tools of the caller come first, and the rest of the cap goes to the tools of MCP servers
that match the latest turn of the user best.

**Theorem (`fitTools_splits`).** A list of tools is split by position. The kept tools and the names
of the dropped ones are in their original order. With the cap `0` all tools are kept, and with
another one at most `cap` tools; if the tools that do not come from MCP are at most `cap`, or the
cap is `0`, they are all kept.

The ranking does not matter for this: however the tools of MCP servers are ranked, only as many are
taken as the other tools leave room for.

**Theorem (`offersChoice_applyToolBudget_iff`).** The function that a request asks for is still
offered exactly if the list is short enough, or a tool of that name is among the first `cap` tools
in the order in which they are taken. A tool that is asked for is not taken before the others
(`chosen_tool_dropped`).
-/

namespace Nasiko.LlmRouter.Providers.ToolBudget

open List Prod

/-- What is not modelled of a ranking: the classes of Unicode, and the arithmetic of `f64`. A score
is the integer that `total_cmp` compares; it is computed from the terms of the query, the number of
tools that have each of them, the words of a tool, the number of tools and that of all their
words. -/
structure Ranking where
  isAlphanumeric : Char → Bool
  toLowercase : Str → Str
  bm25 : List Str → List Nat → List Str → Nat → Nat → Int

variable {N F : Type} (r : Ranking)

def mcpPrefix : Str := "mcp__"

/-- Whether a tool comes from an MCP server. -/
def isMcp (tool : ToolDef N) : Bool := mcpPrefix.isPrefixOf tool.function.name

/-- Lowercased alphanumeric runs of more than one character. -/
def tokenize (text : Str) : List Str :=
  ((text.splitOnP fun c => !r.isAlphanumeric c).filter fun w => w.length > 1).map r.toLowercase

def toolText (tool : ToolDef N) : Str :=
  match tool.function.description with
  | some d => tool.function.name ++ " " ++ d
  | none => tool.function.name

variable (tools : List (ToolDef N))

def rankByRelevance (candidates : List Nat) (query : Str) : List Nat :=
  let terms := tokenize r query
  if terms.isEmpty || candidates.isEmpty then candidates
  else
    let docs := candidates.map fun i => (tools[i]?.map fun t => tokenize r (toolText t)).getD []
    let dfs := terms.map fun t => (docs.filter (t ∈ ·)).length
    let words := (docs.map length).sum
    let scored := candidates.zip (docs.map fun doc => r.bm25 terms dfs doc docs.length words)
    (scored.mergeSort fun a b => b.2 ≤ a.2).map Prod.fst

def positions (p : ToolDef N → Bool) (tools : List (ToolDef N)) : List Nat :=
  (tools.zipIdx.filter fun t => p t.1).map Prod.snd

def keptPositions (cap : Nat) (query : Str) : List Nat :=
  let keep := (positions (fun t => !isMcp t) tools).take cap
  let budget := cap - keep.length
  if budget > 0 then
    keep ++ (rankByRelevance r tools (positions isMcp tools) query).take budget
  else keep

def fitTools (cap : Nat) (query : Str) : List (ToolDef N) × List Str :=
  if cap = 0 ∨ tools.length ≤ cap then (tools, [])
  else
    let (kept, dropped) :=
      tools.zipIdx.partition fun p => (keptPositions r tools cap query).contains p.2
    (kept.map (·.1), dropped.map (·.1.function.name))

def latestUserText (messages : List (Message N)) : Str :=
  ((messages.reverse.find? (·.role = "user".toList)).bind Message.text).getD []

/-- The request that an endpoint with the given cap is sent. -/
def applyToolBudget (maxTools : Nat) (out : ChatRequest N F) : ChatRequest N F :=
  match out.tools with
  | none => out
  | some tools =>
    { out with tools := some (fitTools r tools maxTools (latestUserText out.messages)).1 }

/-! ## Splitting -/

/-- The tools at the kept positions, and the names of the others. -/
def SplitsAt (kept : Nat → Bool) (tools : List (ToolDef N))
    (result : List (ToolDef N) × List Str) : Prop :=
  result.1 = (tools.zipIdx.filter fun p => kept p.2).map (·.1) ∧
    result.2 = (tools.zipIdx.filter fun p => !kept p.2).map (·.1.function.name)

variable {r} {tools : List (ToolDef N)} {cap : Nat} {query : Str}

def order (r : Ranking) (tools : List (ToolDef N)) (query : Str) : List Nat :=
  positions (fun t => !isMcp t) tools ++ rankByRelevance r tools (positions isMcp tools) query

theorem keptPositions_eq : keptPositions r tools cap query = (order r tools query).take cap := by
  rw [keptPositions, order, take_append, length_take]
  split_ifs with hlt
  · congr 2
    omega
  · rw [show cap - _ = 0 by omega, take_zero, append_nil]

theorem length_kept (kept : List Nat) :
    (tools.zipIdx.filter fun p => kept.contains p.2).length ≤ kept.length := by
  -- The positions that are found are different from each other.
  have hnd : ((tools.zipIdx.filter fun p => kept.contains p.2).map snd).Nodup := by
    refine (filter_sublist.map _).nodup ?_
    rw [zipIdx_map_snd]
    exact nodup_range' ..
  have hsub : (tools.zipIdx.filter fun p => kept.contains p.2).map snd ⊆ kept := by
    intro i hi
    obtain ⟨p, hp, rfl⟩ := mem_map.1 hi
    exact contains_iff_mem.1 (mem_filter.1 hp).2
  simpa using (subperm_of_subset hnd hsub).length_le

theorem length_positions {p : ToolDef N → Bool} :
    (positions p tools).length = (tools.filter p).length := by
  have hfst : (tools.zipIdx.filter fun t => p t.1).map fst = tools.filter p := by
    change (tools.zipIdx.filter (p ∘ fst)).map fst = tools.filter p
    rw [← filter_map, zipIdx_map_fst]
  rw [positions, length_map, ← hfst, length_map]

/-- **If the tools of the caller fit, they are kept.** -/
theorem mem_keptPositions {tool : ToolDef N} {i : Nat}
    (hfit : (tools.filter fun t => !isMcp t).length ≤ cap) (hi : tools[i]? = some tool)
    (hcore : isMcp tool = false) : i ∈ keptPositions r tools cap query := by
  rw [keptPositions_eq, order, take_append, take_of_length_le (length_positions.trans_le hfit)]
  refine mem_append_left _ (mem_map.2 ⟨(tool, i), mem_filter.2 ⟨?_, by simp [hcore]⟩, rfl⟩)
  exact mem_zipIdx_iff_getElem?.2 hi

theorem fitTools_splits (r : Ranking) (tools : List (ToolDef N)) (cap : Nat) (query : Str) :
    ∃ kept : Nat → Bool, SplitsAt kept tools (fitTools r tools cap query) ∧
      (cap = 0 → fitTools r tools cap query = (tools, [])) ∧
      (cap ≠ 0 → (fitTools r tools cap query).1.length ≤ cap) ∧
      ((cap = 0 ∨ (tools.filter fun t => !isMcp t).length ≤ cap) →
        ∀ i tool, tools[i]? = some tool → isMcp tool = false → kept i) := by
  by_cases hall : cap = 0 ∨ tools.length ≤ cap
  · refine ⟨fun _ => true, ?_, ?_, ?_, fun _ _ _ _ _ => rfl⟩
    all_goals rw [fitTools, if_pos hall]
    · simp [SplitsAt]
    · exact fun _ => rfl
    · exact fun h => hall.resolve_left h
  · refine ⟨(keptPositions r tools cap query).contains, ?_, fun h => absurd (.inl h) hall, ?_, ?_⟩
    · simp [SplitsAt, fitTools, hall, partition_eq_filter_filter, Function.comp_def]
    · intro _
      rw [fitTools, if_neg hall]
      simpa [partition_eq_filter_filter] using
        (length_kept _).trans (keptPositions_eq ▸ length_take_le ..)
    · intro hfit i tool hi hcore
      exact contains_iff_mem.2
        (mem_keptPositions (hfit.resolve_left fun h => hall (.inl h)) hi hcore)

def asciiRanking : Ranking := ⟨Char.isAlphanum, map Char.toLower, fun _ _ _ _ _ => 0⟩

def toolNamed (name : Str) : ToolDef Int := ⟨"function", ⟨name, none, none⟩, []⟩

/-- With the cap `0` nothing is dropped. -/
theorem fitTools_zero :
    ¬ (fitTools asciiRanking [toolNamed "mcp__mail__send"] 0 []).1.length ≤ 0 := by
  decide

/-! ## The function that a request asks for -/

theorem mem_fitTools_iff {t : ToolDef N} (hcut : ¬ (cap = 0 ∨ tools.length ≤ cap)) :
    t ∈ (fitTools r tools cap query).1 ↔
      ∃ i ∈ (order r tools query).take cap, tools[i]? = some t := by
  rw [fitTools, if_neg hcut, partition_eq_filter_filter, ← keptPositions_eq]
  constructor
  · intro ht
    obtain ⟨⟨t, i⟩, hp, rfl⟩ := mem_map.1 ht
    obtain ⟨hi, hmem⟩ := mem_filter.1 hp
    exact ⟨i, contains_iff_mem.1 hmem, mem_zipIdx_iff_getElem?.1 hi⟩
  · rintro ⟨i, hmem, hi⟩
    exact mem_map.2 ⟨(t, i), mem_filter.2 ⟨mem_zipIdx_iff_getElem?.2 hi, contains_iff_mem.2 hmem⟩,
      rfl⟩

def chosenFunction (out : ChatRequest N F) : Option Str :=
  ((out.toolChoice.bind (·.get "function")).bind (·.get "name")).bind Json.asStr

/-- The function that a request asks for is among its tools. -/
def OffersChoice (out : ChatRequest N F) : Prop :=
  ∀ name, chosenFunction out = some name →
    ∃ tools t, out.tools = some tools ∧ t ∈ tools ∧ t.function.name = name

theorem offersChoice_applyToolBudget_iff (r : Ranking) {out : ChatRequest N F} (hcap : 0 < cap)
    (hout : OffersChoice out) : OffersChoice (applyToolBudget r cap out) ↔
      ∀ name tools, chosenFunction out = some name → out.tools = some tools →
        tools.length ≤ cap ∨ ∃ i ∈ (order r tools (latestUserText out.messages)).take cap,
          ∃ t, tools[i]? = some t ∧ t.function.name = name := by
  cases htl : out.tools with
  | none =>
    rw [applyToolBudget, htl]
    exact iff_of_true hout (by simp)
  | some tools =>
    rw [applyToolBudget, htl]
    constructor
    · rintro h name _ hname ⟨⟩
      refine or_iff_not_imp_left.2 fun hlong => ?_
      obtain ⟨_, t, ⟨⟩, ht, hn⟩ := h name hname
      obtain ⟨i, hmem, hi⟩ := (mem_fitTools_iff (by omega)).1 ht
      exact ⟨i, hmem, t, hi, hn⟩
    · intro h name hname
      by_cases hfew : tools.length ≤ cap
      · obtain ⟨_, t, hsome, ht, hn⟩ := hout name hname
        cases htl.symm.trans hsome
        exact ⟨_, t, rfl, by rwa [fitTools, if_pos (.inr hfew)], hn⟩
      · obtain ⟨i, hmem, t, hi, hn⟩ := (h name tools hname rfl).resolve_left hfew
        exact ⟨_, t, rfl, (mem_fitTools_iff (by omega)).2 ⟨i, hmem, hi⟩, hn⟩

/-- A request that asks for a tool of a mail server. -/
def mailRequest (names : List Str) : ChatRequest Int Int where
  model := none
  messages := []
  tools := some (names.map toolNamed)
  toolChoice := some (.object [("type", .string "function"),
    ("function", .object [("name", .string "mcp__mail__send")])])
  temperature := none
  maxTokens := none
  stream := none
  extra := []

theorem offersChoice_mailRequest {names : List Str} (h : "mcp__mail__send".toList ∈ names) :
    OffersChoice (mailRequest names) := by
  rintro _ ⟨⟩
  exact ⟨_, _, rfl, mem_map_of_mem h, rfl⟩

/-- The caller's own tool takes the place of the one that is asked for. -/
theorem chosen_tool_dropped : OffersChoice (mailRequest ["read", "mcp__mail__send"]) ∧
      ¬ OffersChoice
        (applyToolBudget asciiRanking 1 (mailRequest ["read", "mcp__mail__send"])) := by
  refine ⟨offersChoice_mailRequest (by decide), fun h => ?_⟩
  obtain ⟨_, t, ⟨⟩, ht, hn⟩ := h _ rfl
  revert t
  decide

theorem offersChoice_first : OffersChoice (applyToolBudget asciiRanking 1
    (mailRequest ["mcp__mail__send", "mcp__mail__list"])) := by
  refine (offersChoice_applyToolBudget_iff _ (by decide)
    (offersChoice_mailRequest (by decide))).2 ?_
  rintro _ _ ⟨⟩ ⟨⟩
  exact .inr ⟨0, by decide, _, rfl, rfl⟩

end Nasiko.LlmRouter.Providers.ToolBudget
