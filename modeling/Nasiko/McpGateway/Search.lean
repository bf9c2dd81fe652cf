import Nasiko.McpGateway.Listing

/-!
# Searching for tools

The search index is filled from the rows of all connectors' tools. A search ranks the rows that the
user can reach and the agent may use, by keywords or by the similarity of embeddings, and the best
ones are offered to the agent: by `tools/list`, for what the flow's user asked for, and by the
meta-tool `nasiko_search_tools`.

A row is offered under the name it has in the catalog, which for a generic connector is not the name
that the router knows. `found_tools_routed_iff` says which rows a call by that name leads to.
-/

namespace Nasiko.McpGateway

open Concurrency Program Option List MCPServerConfig

/-! ## The index -/

section

variable {S : Type} [LinearOrder S]

/-- Words of a text, and the arithmetic of scores. The numbers of `scoreQuery` are those of the
tools and of all their words. -/
structure Scoring (S : Type) where
  tokenize : Str → List Str
  scoreQuery : (query words : List Str) → (df : Str → Nat) → (tools allWords : Nat) → S

def toolSearchText (name : Str) (description : Option Str) : Str :=
  name.map (fun c => if c = '_' then ' ' else c) ++ " " ++ description.getD []

def offerable (accessible : List Uuid) (perms : PermissionContext) (tool : ToolMatch) : Bool :=
  accessible.contains tool.connectorId &&
    decide (perms.decide tool.connectorId tool.toolName ≠ .denied)

/-- The best ones first, and no more than `limit`. -/
def best (limit : Nat) (scored : List (ToolMatch × S)) : List ToolMatch :=
  ((scored.insertionSort fun a b => b.2 ≤ a.2).take limit).map Prod.fst

/-- Keyword search. -/
structure Bm25Index where
  tools : List ToolMatch
  tokens : List (List Str)
  df : Str → Nat
  allWords : Nat

def Bm25Index.rebuild (scoring : Scoring S) (rows : List ToolMatch) : Bm25Index :=
  let tokens := rows.map fun t => scoring.tokenize (toolSearchText t.toolName t.description)
  ⟨rows, tokens, fun word => tokens.countP fun words => words.contains word,
    (tokens.map List.length).sum⟩

def Bm25Index.searchTools [Zero S] (scoring : Scoring S) (index : Bm25Index) (query : Str)
    (accessible : List Uuid) (perms : PermissionContext) (limit : Nat) : List ToolMatch :=
  let qtokens := scoring.tokenize query
  if qtokens = [] then []
  else
    let candidates := (index.tools.zip index.tokens).filter fun x => offerable accessible perms x.1
    let scored := candidates.map fun x =>
      (x.1, scoring.scoreQuery qtokens x.2 index.df index.tools.length index.allWords)
    best limit (scored.filter fun x => decide (0 < x.2))

structure SemanticIndex (V : Type) where
  tools : List ToolMatch
  embeddings : List V

/-- `embed` is the embedding of the query; without it nothing is found. -/
def SemanticIndex.searchTools {V : Type} (similarity : V → V → S) (embed : Str → Option V)
    (index : SemanticIndex V) (query : Str) (accessible : List Uuid) (perms : PermissionContext)
    (limit : Nat) : List ToolMatch :=
  match embed query with
  | none => []
  | some v =>
    let candidates := (index.tools.zip index.embeddings).filter fun x =>
      offerable accessible perms x.1
    best limit (candidates.map fun x => (x.1, similarity v x.2))

/-- The search that the mode selects. -/
inductive SearchIndex (S : Type) where
  | semantic (V : Type) (similarity : V → V → S) (embed : Str → Option V)
      (index : SemanticIndex V)
  | bm25 (scoring : Scoring S) (index : Bm25Index)
  | noop

def SearchIndex.searchTools [Zero S] (index : SearchIndex S) (query : Str) (accessible : List Uuid)
    (perms : PermissionContext) (limit : Nat) : List ToolMatch :=
  match index with
  | semantic _ similarity embed i => i.searchTools similarity embed query accessible perms limit
  | bm25 scoring i => i.searchTools scoring query accessible perms limit
  | noop => []

end

/-! ## What is offered -/

/-- The ways to discover tools. -/
inductive Discovery where
  | list
  | search (arguments : Value)

/-- Who asks. -/
structure Asker where
  userId : Uuid
  reqId : Value
  resolved : ResolvedSession
  perms : PermissionContext
  traceparent : Option Str
  verifiedFlowId : Option Str

def Discovery.handle (env : Env) (config : Config) (a : Asker) : Discovery → Prog Value
  | list => handleToolsList env config a.userId a.reqId a.resolved.servers
      a.resolved.connectedToolkits a.perms a.traceparent a.verifiedFlowId
  | search arguments => McpGateway.searchTools env config a.userId a.reqId arguments a.perms

section

variable {S : Type} [LinearOrder S] [Zero S] {env : Env} {config : Config}
  {respond : Respond} {a : Asker} {index : SearchIndex S}

/-- The rows that are offered. -/
def Discovery.found (config : Config) (respond : Respond)
    (index : SearchIndex S) (a : Asker) : Discovery → List ToolMatch
  | list =>
    match a.verifiedFlowId with
    | none => []
    | some flowId =>
      match respond (.flowTitle flowId) with
      | .ok (some query) =>
        let accessible := match respond (.listAccessibleConnectors a.userId) with
          | .ok ids => ids
          | .error _ => []
        index.searchTools query accessible a.perms config.toolSearchToolLimit
      | _ => []
  | search arguments =>
    match respond (.listAccessibleConnectors a.userId) with
    | .ok accessible => index.searchTools ((strField arguments "query").getD []) accessible
        a.perms (((field arguments "limit").bind asU64).getD config.toolSearchMetaLimit)
    | .error _ => []

def Searches (respond : Respond) (index : SearchIndex S) : Prop :=
  ∀ query accessible perms limit, respond (.searchTools query accessible perms limit) =
    .ok (index.searchTools query accessible perms limit)

def shownTools (answer : Value) : List Value :=
  ((((field answer "result").bind fun r => field r "tools")).bind Json.asArray).getD []

def metaToolDefinitions : Discovery → List Value
  | .list => [nasikoSearchToolsDefinition, nasikoCallToolDefinition, recoverCompressedDefinition]
  | .search _ => []

/-- `tools/list` shows what is found, and the meta-tools. -/
theorem eval_handle_list (hmode : config.toolSearchMode ≠ .none) (hsea : Searches respond index) :
    (Discovery.list.handle env config a).eval respond =
      .ok (okResponse a.reqId (.object [("tools", .array
        ((Discovery.list.found config respond index a).map toolMatchToJson ++
          metaToolDefinitions .list))])) := by
  rw [Discovery.handle, handleToolsList, if_neg hmode, metaToolDefinitions]
  cases hflow : a.verifiedFlowId with
  | none => simp [resolveFlowTitle, Discovery.found, hflow]
  | some flowId =>
    cases htit : respond (.flowTitle flowId) with
    | error e => simp [resolveFlowTitle, okOrNone, Discovery.found, hflow, htit]
    | ok title =>
      cases title with
      | none => simp [resolveFlowTitle, okOrNone, Discovery.found, hflow, htit]
      | some query =>
        cases hacc : respond (.listAccessibleConnectors a.userId) <;>
          simp [resolveFlowTitle, okOrNone, okOrEmpty, matchesForQuery, Discovery.found, hflow,
            htit, hacc, hsea _ _ _ _]

theorem shownTools_handle {d : Discovery} (hmode : config.toolSearchMode ≠ .none)
    (hsea : Searches respond index) :
    ∃ answer, (d.handle env config a).eval respond = .ok answer ∧ shownTools answer =
        (d.found config respond index a).map toolMatchToJson ++ metaToolDefinitions d := by
  cases d with
  | list => exact ⟨_, eval_handle_list hmode hsea, rfl⟩
  | search arguments =>
    cases hacc : respond (.listAccessibleConnectors a.userId) with
    | error e =>
      simp only [Discovery.handle, McpGateway.searchTools, Discovery.found, hacc, eval_bind,
        eval_attempt, eval_perform]
      exact ⟨_, rfl, rfl⟩
    | ok accessible =>
      simp only [Discovery.handle, McpGateway.searchTools, Discovery.found, okOrEmpty, hacc,
        eval_bind, eval_attempt, eval_perform, Result.ok_bind, hsea _ _ _ _]
      exact ⟨_, rfl, by simp [metaToolDefinitions]; rfl⟩

end

/-! ## Calling what was found -/

def ResolvedSession.routedConnector (resolved : ResolvedSession) (name : Str) : Option Uuid :=
  (resolved.calledTool name).map Prod.fst

/-- The name is one that the router knows a tool of the connector by: it has the prefix of the
connector, or it is a bare name in the catalog of the connector's system backend, or the toolkit in
the name is that of the connector. -/
def RoutedHome (resolved : ResolvedSession) (connectorId : Uuid) (name : Str) : Prop :=
  isMetaTool name = false ∧
    match splitOnce name with
    | some (pre, _) => ∃ s, IsFirst (fun s' => s'.hasPrefix pre) resolved.servers s ∧
        s.connectorId = connectorId
    | none =>
      (∃ s, IsFirst (fun s' => s'.ownsName name) resolved.servers s ∧ s.connectorId = connectorId) ∨
      (∀ s ∈ resolved.servers, s.ownsName name = false) ∧
        (∃ s ∈ resolved.servers, s.isComposio = true) ∧ resolved.connectorOf name = some connectorId

theorem routedConnector_eq_iff {resolved : ResolvedSession} {connectorId : Uuid} {name : Str} :
    resolved.routedConnector name = some connectorId ↔ RoutedHome resolved connectorId name := by
  rw [ResolvedSession.routedConnector, ResolvedSession.calledTool, RoutedHome]
  cases hmeta : isMetaTool name with
  | true => simp
  | false =>
    simp only [Bool.false_eq_true, if_false, true_and, routeTool]
    cases hsplit : splitOnce name with
    | some x =>
      obtain ⟨pre, original⟩ := x
      simp only [← find?_eq_some_iff_isFirst]
      cases hfind : resolved.servers.find? fun s => s.hasPrefix pre with
      | none => simp
      | some s =>
        have hkind : s.kind = .mcp := by
          have := find?_some hfind
          simp only [hasPrefix, Bool.and_eq_true, decide_eq_true_eq] at this
          exact this.1.1
        simp [hkind]
    | none =>
      simp only [← find?_eq_some_iff_isFirst]
      cases hown : resolved.servers.find? fun s => s.ownsName name with
      | some s =>
        have howns := find?_some hown
        have hkind : s.kind = .mcp := by
          simp only [ownsName, Bool.and_eq_true] at howns
          cases hk : s.kind with
          | mcp => rfl
          | composio => exact absurd howns.1.1 (by simp [(s.composioPlain hk).2])
        have hmem := mem_of_find?_eq_some hown
        simp only [hkind, map_some, some.injEq]
        refine ⟨fun h => Or.inl ⟨s, rfl, h⟩, ?_⟩
        rintro (⟨s', rfl, h⟩ | ⟨hno, -⟩)
        · exact h
        · rw [hno s hmem] at howns
          cases howns
      | none =>
        have hno : ∀ s ∈ resolved.servers, s.ownsName name = false := by
          simpa using find?_eq_none.1 hown
        cases hcom : resolved.servers.find? fun s => s.isComposio with
        | none =>
          have hnone : ∀ s ∈ resolved.servers, s.isComposio = false := by
            simpa using find?_eq_none.1 hcom
          simp only [map_none, reduceCtorEq, false_and, exists_false, false_or, false_iff]
          rintro ⟨-, ⟨s, hs, hs'⟩, -⟩
          rw [hnone s hs] at hs'
          cases hs'
        | some s =>
          have hs := find?_some hcom
          have hmem := mem_of_find?_eq_some hcom
          have hkind : s.kind = .composio := by
            simp only [isComposio, Bool.and_eq_true, decide_eq_true_eq] at hs
            exact hs.1
          have hany : ∃ s ∈ resolved.servers, s.isComposio = true := ⟨s, hmem, hs⟩
          simp only [hkind, hany]
          cases resolved.connectorOf name with
          | none => simp
          | some id => simpa using fun _ => hno

theorem nameOf_toolMatchToJson (m : ToolMatch) : nameOf (toolMatchToJson m) = some m.toolName := by
  obtain ⟨connectorId, toolName, description, inputSchema⟩ := m
  cases description <;> cases inputSchema <;> rfl

/-- **A tool that was found is routed to the connector it was found in**, exactly if its name in the
catalog is one that the router knows a tool of this connector by. The answer shows the rows that
were found under these names. -/
theorem found_tools_routed_iff {S : Type} [LinearOrder S] [Zero S] (env : Env) (config : Config)
    (a : Asker) (d : Discovery) {respond : Respond}
    {index : SearchIndex S} (hmode : config.toolSearchMode ≠ .none)
    (hsearch : Searches respond index) :
    ∃ answer, (d.handle env config a).eval respond = .ok answer ∧ shownTools answer =
        (d.found config respond index a).map toolMatchToJson ++ metaToolDefinitions d ∧
      ((∀ m ∈ d.found config respond index a, ∀ name, nameOf (toolMatchToJson m) = some name →
        a.resolved.routedConnector name = some m.connectorId) ↔
      ∀ m ∈ d.found config respond index a, RoutedHome a.resolved m.connectorId m.toolName) := by
  obtain ⟨answer, heval, hsho⟩ := shownTools_handle hmode hsearch
  refine ⟨answer, heval, hsho, forall_congr' fun m => forall_congr' fun _ => ?_⟩
  rw [nameOf_toolMatchToJson]
  simp [routedConnector_eq_iff]

/-! ### An index of one tool -/

/-- In an index of one tool whose words are all different, a word that the query shares with the
tool adds the logarithm of 4 / 3, here counted in units of 1 / 100000. -/
def oneToolScoring : Scoring Nat where
  tokenize s := ((Str.toAsciiLowercase s).splitOnP fun c => !c.isAlphanum).filter fun w =>
    1 < w.length
  scoreQuery query words _ _ _ := 28768 * query.countP fun w => words.contains w

def oneTool (connectorId : Uuid) (name : Str) : SearchIndex Nat :=
  .bm25 oneToolScoring (Bm25Index.rebuild oneToolScoring [⟨connectorId, name, none, none⟩])

/-- The user can reach the connector, and the index is searched. -/
def searching (connectorId : Uuid) (index : SearchIndex Nat) :
    Respond
  | .listAccessibleConnectors _ => .ok [connectorId]
  | .searchTools query accessible perms limit =>
    .ok (index.searchTools query accessible perms limit)
  | c => silent c

def keywordConfig : Config := ⟨.keyword, 10, 10, [], false⟩

/-- A user with one backend, whose agent may use it. -/
def askerOf (s : MCPServerConfig) : Asker :=
  ⟨1, .number "1", ⟨[s], [], [], []⟩, enabling [s.connectorId] [], none, none⟩

def askingFor (query : Str) : Discovery := .search (.object [("query", .string query)])

/-- The tools that a user with one backend finds in an index of one tool. -/
def foundOne (s : MCPServerConfig) (name query : Str) : List ToolMatch :=
  (askingFor query).found keywordConfig (searching s.connectorId (oneTool s.connectorId name))
    (oneTool s.connectorId name) (askerOf s)

theorem system_tool_found_and_routed : foundOne (workspace ["echo"]) "echo" "echo" ≠ [] ∧
    ∀ m ∈ foundOne (workspace ["echo"]) "echo" "echo",
      ∀ name, nameOf (toolMatchToJson m) = some name →
        (askerOf (workspace ["echo"])).resolved.routedConnector name = some m.connectorId := by
  have hfd : foundOne (workspace ["echo"]) "echo" "echo" =
      [⟨workspaceId, "echo", none, none⟩] := rfl
  have hsea : Searches (searching workspaceId (oneTool workspaceId "echo"))
      (oneTool workspaceId "echo") := fun _ _ _ _ => rfl
  obtain ⟨-, -, -, hiff⟩ := found_tools_routed_iff (sample []) keywordConfig
    (askerOf (workspace ["echo"])) (askingFor "echo") (by decide) hsea
  refine ⟨by rw [hfd]; exact cons_ne_nil _ _, hiff.2 fun m hm => ?_⟩
  obtain rfl : m = ⟨workspaceId, "echo", none, none⟩ := mem_singleton.1 hm
  exact routedConnector_eq_iff.1 rfl

/-- A tool of a generic connector is found under its name in the catalog, and no backend has it. -/
theorem generic_tool_found_not_routed : ⟨notesId, "create_note", none, none⟩ ∈
      foundOne (generic notesId) "create_note" "create note" ∧
    (askerOf (generic notesId)).resolved.routedConnector "create_note" = none := by
  refine ⟨?_, rfl⟩
  exact mem_singleton.2 rfl

end Nasiko.McpGateway
