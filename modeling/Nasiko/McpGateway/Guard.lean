import Nasiko.McpGateway.Search
import Nasiko.McpGateway.Quiet

/-!
# What may run

A backend is asked to run a tool of a connector only if the agent may use the tool, or has to ask
and holds a grant or has used up an approval for exactly this tool. `guarding` is this rule as a
protocol: what a call knows is the tools that it holds a grant or an approval for.

A call of `callRoutedTool` passes gates. Each lemma `follows_…_iff` says in which ways a gate is
passed, so that the rule becomes a statement about the request that is left at the end. The gates
decide about a tool of Composio under the connector of the toolkit in its name, and
`backend_requests_guarded_iff` says when this is enough: the toolkit has to be that of the connector
which has the tool.
-/

namespace Nasiko.McpGateway

open Concurrency Program List Option Except Prod Json

/-! ## The rule -/

/-- The tools that a request asks Composio for. -/
def requestedSlugs (name : Str) (arguments : Value) : List Str :=
  if name = multiExecuteTool then
    (((field arguments "tools").bind asArray).getD []).map slugOf
  else [name]

/-- A tool of Composio itself, which is no connector's. -/
def isComposioMeta (name : Str) : Bool := "COMPOSIO_".toList.isPrefixOf name

variable (catalog : List (Uuid × Str))

/-- The request is for this tool of a connector. Which tools of Composio a connector has is known
from its catalog. -/
def IssuedFor (server : MCPServerConfig) (name : Str)
    (arguments : Value) (tool : Uuid × Str) : Prop :=
  match server.kind with
  | .mcp => tool = (server.connectorId, name)
  | .composio => tool ∈ catalog ∧ tool.2 ≠ [] ∧ isComposioMeta tool.2 = false ∧
      tool.2 ∈ requestedSlugs name arguments

/-- The tool may run, given the tools that the call holds a grant or an approval for. -/
def MayRun (perms : PermissionContext) (held : List (Uuid × Str)) (tool : Uuid × Str) : Prop :=
  perms.decide tool.1 tool.2 = .allowed ∨ perms.decide tool.1 tool.2 = .ask ∧ tool ∈ held

/-- Every request to a backend is for tools that may run. -/
abbrev guarding (userId : Uuid) (perms : PermissionContext) : Protocol Command Reply McpError where
  Ctx := List (Uuid × Str)
  allow held
    | .callTool server _ name arguments _ =>
      ∀ tool, IssuedFor catalog server name arguments tool → MayRun perms held tool
    | _ => True
  after held
    | .hasActiveSessionGrant user agent connectorId toolName _, .ok true =>
      if user = userId ∧ agent = perms.agentId then (connectorId, toolName) :: held else held
    | .claimResolvedToolApproval user agent connectorId toolName _, .ok (some row) =>
      if user = userId ∧ agent = perms.agentId ∧ row.approved then (connectorId, toolName) :: held
      else held
    | _, _ => held

abbrev Call.rule (c : Call) : Protocol Command Reply McpError :=
  guarding catalog c.userId c.perms

section

variable {catalog : List (Uuid × Str)} {env : Env} {config : Config} {c : Call}
  {held : List (Uuid × Str)} {α : Type} {userId connectorId : Uuid} {perms : PermissionContext}
  {contextId toolName name original : Str}
  {Q : List (Uuid × Str) → Except McpError RetryOutcome → Prop} {server : MCPServerConfig}
  {b b' : Batch} {t arguments : Value} {ts : List Value} {tool : Uuid × Str}
  {traceparent : Option Str} {held' : List (Uuid × Str)}

theorem follows_quiet {p : Prog α} (hp : Calls (fun cmd => cmd.quiet = true) p) :
    Follows (guarding catalog userId perms) held p fun y _ => y = held := by
  refine hp.follows (fun cmd hcmd y hy => ?_) rfl
  subst hy
  cases cmd <;> first | exact ⟨trivial, fun r => rfl⟩ | cases hcmd

/-! ## Looking for a human's decision -/

theorem follows_resolveContextId_iff {Q : List (Uuid × Str) → Except McpError (Option Str) → Prop} :
    Follows (c.rule catalog) held (resolveContextId c.verifiedFlowId) Q ↔
      match c.verifiedFlowId with
      | none => Q held (.ok none)
      | some _ => ∀ contextId, Q held (.ok (some contextId)) := by
  cases c.verifiedFlowId with
  | none => exact Iff.rfl
  | some traceId =>
    refine ⟨fun h contextId => h.2 (.ok (some contextId)), fun h => ⟨trivial, fun r => ?_⟩⟩
    rcases r with e | (_ | sessionId)
    · exact h traceId
    · exact h traceId
    · exact h sessionId

theorem follows_sessionContextOf_iff {agentId : Uuid}
    {Q : List (Uuid × Str) → Except McpError Str → Prop} :
    Follows (c.rule catalog) held (sessionContextOf userId agentId contextId) Q ↔
      ∀ sessionId, Q held (.ok sessionId) := by
  refine ⟨fun h sessionId => h.2 (.ok (some sessionId)), fun h => ⟨trivial, fun r => ?_⟩⟩
  rcases r with e | (_ | sessionId)
  · exact h contextId
  · exact h contextId
  · exact h sessionId

theorem follows_claimed_iff {row : ResolvedApproval} :
    Follows (c.rule catalog) ((c.rule catalog).after held (.claimResolvedToolApproval c.userId
        c.perms.agentId connectorId toolName contextId) (.ok (some row)))
      (pure (if row.approved then .proceed else .denied)) Q ↔
      if row.approved then Q ((connectorId, toolName) :: held) (.ok .proceed)
      else Q held (.ok .denied) := by
  cases happ : row.approved <;> simp [happ]

/-- Without a flow a human has to be asked. In a flow they may have agreed, and then the call holds
this tool. -/
theorem follows_resolveToolApprovalRetry_iff : Follows (c.rule catalog) held
      (resolveToolApprovalRetry c.userId c.perms.agentId connectorId toolName c.verifiedFlowId) Q ↔
      Q held (.ok .askAgain) ∧ (c.verifiedFlowId.isSome = true →
        Q ((connectorId, toolName) :: held) (.ok .proceed) ∧ Q held (.ok .denied)) := by
  rw [resolveToolApprovalRetry, follows_bind, follows_resolveContextId_iff]
  cases hfl : c.verifiedFlowId with
  | none => simp [andThen]
  | some traceId =>
    simp only [andThen, follows_bind, follows_sessionContextOf_iff, follows_attempt,
      follows_perform, isSome_some, true_imp_iff]
    constructor
    · intro h
      obtain ⟨-, hgra⟩ := h [] []
      obtain ⟨-, hcla⟩ := follows_attempt_perform_bind.1 (hgra (.ok false))
      refine ⟨hgra (.error .database), by simpa using hgra (.ok true), ?_⟩
      exact follows_claimed_iff.1 (hcla (.ok (some ⟨none⟩)))
    · rintro ⟨haga, hpro, hden⟩ contextId sessionId
      refine ⟨trivial, fun r => ?_⟩
      rcases r with e | (_ | _)
      · exact haga
      · refine follows_attempt_perform_bind.2 ⟨trivial, fun r => ?_⟩
        rcases r with e | (_ | row)
        · exact haga
        · exact haga
        · refine follows_claimed_iff.2 ?_
          split
          · exact hpro
          · exact hden
      · simpa using hpro

/-! ## The gates -/

/-- A tool that the gate is passed with, and what the call holds then. -/
inductive Passes (c : Call) (connectorId : Uuid) (name : Str) (held : List (Uuid × Str)) :
    List (Uuid × Str) → Prop where
  | allowed (h : c.perms.decide connectorId name = .allowed) : Passes c connectorId name held held
  | asked (h : c.perms.decide connectorId name = .ask) (hflow : c.verifiedFlowId.isSome = true) :
    Passes c connectorId name held ((connectorId, name) :: held)

variable {R : List (Uuid × Str) → Prop}
  {Q : List (Uuid × Str) → Except McpError Batch → Prop} {left : Value}

theorem follows_decisionGate_iff {label : Str} :
    Follows (c.rule catalog) held (decisionGate env c connectorId name label)
        (fun y r => r = .ok none → R y) ↔
      ∀ held', Passes c connectorId name held held' → R held' := by
  rw [decisionGate]
  cases hdec : c.perms.decide connectorId name with
  | denied =>
    refine iff_of_true (by simp) ?_
    rintro held' (h | ⟨h, -⟩) <;> rw [hdec] at h <;> cases h
  | allowed =>
    refine ⟨?_, fun h _ => h held (.allowed hdec)⟩
    rintro h held' (h' | ⟨h', -⟩)
    · exact h rfl
    · rw [hdec] at h'
      cases h'
  | ask =>
    rw [follows_bind, follows_resolveToolApprovalRetry_iff]
    constructor
    · rintro ⟨-, h⟩ held' (h' | ⟨-, hfl⟩)
      · rw [hdec] at h'
        cases h'
      · exact (h hfl).1 rfl
    · intro h
      refine ⟨?_, fun hfl => ⟨fun _ => h _ (.asked hdec hfl), fun hr => by cases hr⟩⟩
      refine follows_bind.2 ((follows_quiet (calls_askWithHitlRequest fun _ h => h)).mono
        fun y r _ => ?_)
      cases r with
      | error e | ok answer => exact fun hr => by cases hr

theorem follows_genericGate_iff : Follows (c.rule catalog) held (genericGate env c server original)
        (fun y r => r = .ok none → R y) ↔
      match server.kind with
      | .mcp => ∀ held', Passes c server.connectorId original held held' → R held'
      | .composio => R held := by
  rw [genericGate]
  cases hki : server.kind with
  | composio => simp
  | mcp =>
    refine ⟨fun h => follows_decisionGate_iff.1 (h.2 (.ok true)), fun h => ⟨trivial, fun r => ?_⟩⟩
    rcases r with e | (_ | _)
    · exact fun hr => by cases hr
    · exact fun hr => by cases hr
    · exact follows_decisionGate_iff.2 h

theorem follows_composioGate_iff :
    Follows (c.rule catalog) held (composioGate env c server) (fun y r => r = .ok none → R y) ↔
      match server.kind, c.resolved.connectorOf c.toolName with
      | .composio, some connectorId => ∀ held', Passes c connectorId c.toolName held held' → R held'
      | _, _ => R held := by
  rw [composioGate]
  cases hki : server.kind with
  | mcp => simp
  | composio =>
    cases c.resolved.connectorOf c.toolName with
    | none => simp
    | some connectorId => exact follows_decisionGate_iff

/-! ## Batches -/

/-- The entry is kept. -/
def Batch.keep (b : Batch) (t : Value) : Batch := { b with allowed := b.allowed ++ [t] }

/-- What can become of one entry of a batch, and what the call holds then. -/
def Sorts (c : Call) (t : Value) (held : List (Uuid × Str)) (b : Batch) (held' : List (Uuid × Str))
    (b' : Batch) : Prop :=
  if slugOf t = [] then held' = held ∧ b' = b.keep t
  else
    match c.resolved.connectorOf (slugOf t) with
    | none => held' = held ∧ b' = b.keep t
    | some connectorId =>
      match c.perms.decide connectorId (slugOf t) with
      | .denied => held' = held ∧ b' = { b with blockedSlugs := b.blockedSlugs ++ [slugOf t] }
      | .allowed => held' = held ∧ b' = b.keep t
      | .ask =>
        held' = held ∧ b' = { b with askTools := b.askTools ++ [(connectorId, slugOf t)] } ∨
        c.verifiedFlowId.isSome = true ∧
          (held' = (connectorId, slugOf t) :: held ∧ b' = b.keep t ∨
            held' = held ∧ b' = { b with deniedSlugs := b.deniedSlugs ++ [slugOf t] })

theorem follows_sortEntry_iff : Follows (c.rule catalog) held (sortEntry c b t) Q ↔
      ∀ held' b', Sorts c t held b held' b' → Q held' (.ok b') := by
  simp only [sortEntry, Sorts]
  by_cases hsl : slugOf t = []
  · simp [hsl, Batch.keep]
  · simp only [if_neg hsl]
    cases c.resolved.connectorOf (slugOf t) with
    | none => simp [Batch.keep]
    | some connectorId =>
      simp only
      cases c.perms.decide connectorId (slugOf t) with
      | denied => simp
      | allowed => simp [Batch.keep]
      | ask =>
        rw [follows_bind, follows_resolveToolApprovalRetry_iff]
        constructor
        · rintro ⟨haga, hfl⟩ held' b' (⟨rfl, rfl⟩ | ⟨hso, ⟨rfl, rfl⟩ | ⟨rfl, rfl⟩⟩)
          · exact haga
          · exact (hfl hso).1
          · exact (hfl hso).2
        · intro h
          exact ⟨h _ _ (.inl ⟨rfl, rfl⟩), fun hso => ⟨h _ _ (.inr ⟨hso, .inl ⟨rfl, rfl⟩⟩),
            h _ _ (.inr ⟨hso, .inr ⟨rfl, rfl⟩⟩)⟩⟩

/-- What can become of the entries of a batch. -/
def SortsAll (c : Call) : List Value → List (Uuid × Str) → Batch → List (Uuid × Str) → Batch → Prop
  | [], held, b, held', b' => held' = held ∧ b' = b
  | t :: ts, held, b, held', b' =>
    ∃ held₁ b₁, Sorts c t held b held₁ b₁ ∧ SortsAll c ts held₁ b₁ held' b'

theorem follows_sortBatch_iff : Follows (c.rule catalog) held (sortBatch c b ts) Q ↔
      ∀ held' b', SortsAll c ts held b held' b' → Q held' (.ok b') := by
  induction ts generalizing held b with
  | nil => simp [sortBatch, SortsAll]
  | cons t ts ih =>
    rw [sortBatch, follows_bind, follows_sortEntry_iff]
    constructor
    · rintro h held' b' ⟨held₁, b₁, hfst, hre⟩
      exact ih.1 (h held₁ b₁ hfst) held' b' hre
    · exact fun h held₁ b₁ hfst => ih.2 fun held' b' hre => h held' b' ⟨held₁, b₁, hfst, hre⟩

/-- The arguments that are left of a batch, and what the call holds then. -/
def Filters (c : Call) (arguments : Value) (held held' : List (Uuid × Str)) (left : Value) : Prop :=
  if c.toolName = multiExecuteTool then
    match (field arguments "tools").bind asArray with
    | none => held' = held ∧ left = arguments
    | some ts => ∃ b, SortsAll c ts held ⟨[], [], [], []⟩ held' b ∧
      ¬ (b.allowed = [] ∧ b.cut = true) ∧
        left = if b.cut then setField "tools" (.array b.allowed) arguments else arguments
  else held' = held ∧ left = arguments

theorem follows_filterBatch_iff
    {Q : List (Uuid × Str) → Except McpError (Except Value Value) → Prop}
    (hQ : ∀ y r, (∀ left, r ≠ .ok (.ok left)) → Q y r) :
    Follows (c.rule catalog) held (filterBatch env c arguments) Q ↔
      ∀ held' left, Filters c arguments held held' left → Q held' (.ok (.ok left)) := by
  simp only [filterBatch, Filters]
  by_cases hname : c.toolName = multiExecuteTool
  · simp only [if_pos hname]
    cases (field arguments "tools").bind asArray with
    | none => simp
    | some ts =>
      cases ts with
      | nil => simp [SortsAll, Batch.cut]
      | cons t ts =>
        rw [follows_bind, follows_sortBatch_iff]
        constructor
        · rintro h held' left ⟨b, hsor, hso, rfl⟩
          have hleft := h held' b hsor
          simp only [andThen, if_neg hso] at hleft
          cases hcut : b.cut <;> simpa [hcut] using hleft
        · intro h held' b hsor
          simp only [andThen]
          by_cases hnone : b.allowed = [] ∧ b.cut = true
          · rw [if_pos hnone]
            refine follows_bind.2 ((follows_quiet (calls_refuseBatch fun _ h => h)).mono ?_)
            rintro y (e | refusal) - <;> exact hQ _ _ (by simp)
          · rw [if_neg hnone]
            have hleft := h held' _ ⟨b, hsor, hnone, rfl⟩
            cases hcut : b.cut <;> simpa [hcut] using hleft
  · simp [hname]

/-! ## Forwarding -/

/-- The request that is left at the end. -/
def Forwards (catalog : List (Uuid × Str)) (c : Call) (server : MCPServerConfig) (original : Str)
    (arguments : Value) (tool : Uuid × Str) : Prop :=
  IssuedFor catalog server (forwarded c server original arguments).1
    (forwarded c server original arguments).2 tool

theorem forwards_of_moved {url : Str} (htru : server.trusted = true)
    (h : IssuedFor catalog { server with url := url } original arguments tool) :
    Forwards catalog c server original arguments tool := by
  have hki : server.kind = .mcp := by
    cases hki : server.kind with
    | mcp => rfl
    | composio => exact absurd htru (by simp [(server.composioPlain hki).1])
  simp only [IssuedFor, hki] at h
  simp [Forwards, forwarded, IssuedFor, hki, h]

/-- What comes after the request, when the same request may be made again. -/
theorem follows_retryMoved {e : McpError}
    (h : ∀ tool, Forwards catalog c server original arguments tool → MayRun c.perms held tool) :
    Follows (c.rule catalog) held (retryMoved c server original arguments traceparent e)
      fun _ _ => True := by
  simp only [retryMoved]
  split
  · rename_i hmov
    refine ⟨trivial, fun r => ?_⟩
    rcases r with e' | (_ | newUrl)
    · trivial
    · trivial
    · refine follows_attempt_perform_bind.2 ⟨fun tool htool => h tool ?_, fun r => ?_⟩
      · exact forwards_of_moved hmov.1 htool
      · cases r <;> trivial
  · trivial

theorem follows_forward_iff :
    Follows (c.rule catalog) held (forward env config c server original arguments traceparent)
        (fun _ _ => True) ↔
      ∀ tool, Forwards catalog c server original arguments tool → MayRun c.perms held tool := by
  simp only [forward]
  rw [follows_attempt_perform_bind]
  refine ⟨fun h => h.1, fun h => ⟨h, fun r => ?_⟩⟩
  cases r with
  | error e => exact follows_retryMoved h
  | ok response =>
    simp only
    split
    · split
      · exact (follows_quiet (calls_detectComposioAuthRequired fun _ h => h)).mono
          fun _ _ _ => trivial
      · trivial
      · trivial
    · trivial

/-! ## The whole call -/

/-- The ways in which the gates before the batch are passed. -/
def PassesGates (c : Call) (server : MCPServerConfig) (original : Str)
    (held : List (Uuid × Str)) : Prop :=
  match server.kind with
  | .mcp => Passes c server.connectorId original [] held
  | .composio =>
    match c.resolved.connectorOf c.toolName with
    | some connectorId => Passes c connectorId c.toolName [] held
    | none => held = []

theorem follows_unlessRefused_iff {gate : Prog (Option Value)} {rest : Prog Value} :
    Follows (c.rule catalog) held (unlessRefused gate rest) (fun _ _ => True) ↔
      Follows (c.rule catalog) held gate fun y r =>
        r = .ok none → Follows (c.rule catalog) y rest fun _ _ => True := by
  rw [unlessRefused, follows_bind]
  refine ⟨fun h => h.mono ?_, fun h => h.mono ?_⟩ <;>
    rintro y (e | (_ | refusal)) <;> simp [andThen]

theorem follows_afterGates_iff :
    Follows (c.rule catalog) held (afterGates env config c server original arguments traceparent)
        (fun _ _ => True) ↔
      ∀ arguments', filterToolkits env c arguments = .ok arguments' →
      ∀ held' left, Filters c arguments' held held' left →
      ∀ tool, Forwards catalog c server original left tool → MayRun c.perms held' tool := by
  rw [afterGates]
  cases filterToolkits env c arguments with
  | error refusal => simp
  | ok arguments' =>
    simp only [ok.injEq, forall_eq']
    rw [follows_bind, follows_filterBatch_iff]
    · exact forall_congr' fun held' => forall_congr' fun left => forall_congr' fun _ =>
        follows_forward_iff
    · rintro y (e | (refusal | left)) hr
      · trivial
      · trivial
      · exact absurd rfl (hr left)

theorem follows_callRoutedTool_iff :
    Follows (c.rule catalog) [] (callRoutedTool env config c arguments traceparent)
        (fun _ _ => True) ↔
      ∀ server original, routeTool c.toolName c.resolved.servers = .ok (server, original) →
      ∀ held, PassesGates c server original held →
      ∀ arguments', filterToolkits env c arguments = .ok arguments' →
      ∀ held' left, Filters c arguments' held held' left →
      ∀ tool, Forwards catalog c server original left tool → MayRun c.perms held' tool := by
  cases hrt : routeTool c.toolName c.resolved.servers with
  | error e =>
    refine iff_of_true ?_ nofun
    rw [callRoutedTool, hrt]
    exact (follows_quiet (calls_unroutable fun _ h => h)).mono fun _ _ _ => trivial
  | ok x =>
    obtain ⟨server, original⟩ := x
    have hgat : Follows (c.rule catalog) [] (callRoutedTool env config c arguments traceparent)
        (fun _ _ => True) ↔ ∀ held, PassesGates c server original held →
          Follows (c.rule catalog) held
            (afterGates env config c server original arguments traceparent) fun _ _ => True := by
      rw [callRoutedTool, hrt, follows_unlessRefused_iff, follows_genericGate_iff]
      simp only [PassesGates, follows_unlessRefused_iff, follows_composioGate_iff]
      cases server.kind with
      | mcp => simp
      | composio => cases c.resolved.connectorOf c.toolName <;> simp
    rw [hgat]
    simp only [follows_afterGates_iff]
    constructor
    · intro h server' original' heq
      cases heq
      exact h
    · exact fun h => h server original rfl

/-! ## What a batch keeps -/

/-- The entry may run. -/
def Cleared (c : Call) (held : List (Uuid × Str)) (slug : Str) : Prop :=
  ∀ connectorId, slug ≠ [] → c.resolved.connectorOf slug = some connectorId →
    c.perms.decide connectorId slug = .allowed ∨
      c.perms.decide connectorId slug = .ask ∧ c.verifiedFlowId.isSome = true ∧
        (connectorId, slug) ∈ held

theorem Cleared.mono {slug : Str} (h : Cleared c held slug) (hsub : held ⊆ held') :
    Cleared c held' slug := by
  intro connectorId hne hco
  rcases h connectorId hne hco with h | ⟨hask, hfl, hmem⟩
  · exact .inl h
  · exact .inr ⟨hask, hfl, hsub hmem⟩

theorem sorts_cases (h : Sorts c t held b held' b') : held ⊆ held' ∧
      (b' = b.keep t ∧ Cleared c held' (slugOf t) ∨ b'.allowed = b.allowed ∧ b'.cut = true) := by
  rw [Sorts] at h
  by_cases hsl : slugOf t = []
  · rw [if_pos hsl] at h
    obtain ⟨rfl, rfl⟩ := h
    exact ⟨Subset.refl _, .inl ⟨rfl, fun _ hne => absurd hsl hne⟩⟩
  rw [if_neg hsl] at h
  cases hco : c.resolved.connectorOf (slugOf t) with
  | none =>
    rw [hco] at h
    obtain ⟨rfl, rfl⟩ := h
    refine ⟨Subset.refl _, .inl ⟨rfl, fun connectorId _ h => ?_⟩⟩
    rw [hco] at h
    cases h
  | some connectorId =>
    simp only [hco] at h
    have hown : ∀ {held'}, (c.perms.decide connectorId (slugOf t) = .allowed ∨
        c.perms.decide connectorId (slugOf t) = .ask ∧ c.verifiedFlowId.isSome = true ∧
          (connectorId, slugOf t) ∈ held') → Cleared c held' (slugOf t) := by
      rintro held' h connectorId' - hc
      obtain rfl := some.inj (hco.symm.trans hc)
      exact h
    cases hdec : c.perms.decide connectorId (slugOf t) with
    | denied =>
      rw [hdec] at h
      obtain ⟨rfl, rfl⟩ := h
      exact ⟨Subset.refl _, .inr ⟨rfl, by simp [Batch.cut]⟩⟩
    | allowed =>
      rw [hdec] at h
      obtain ⟨rfl, rfl⟩ := h
      exact ⟨Subset.refl _, .inl ⟨rfl, hown (.inl hdec)⟩⟩
    | ask =>
      rw [hdec] at h
      rcases h with ⟨rfl, rfl⟩ | ⟨hfl, ⟨rfl, rfl⟩ | ⟨rfl, rfl⟩⟩
      · exact ⟨Subset.refl _, .inr ⟨rfl, by simp [Batch.cut]⟩⟩
      · exact ⟨subset_cons_self _ _, .inl ⟨rfl, hown (.inr ⟨hdec, hfl, mem_cons_self⟩)⟩⟩
      · exact ⟨Subset.refl _, .inr ⟨rfl, by simp [Batch.cut]⟩⟩

theorem sortsAll_cut (h : SortsAll c ts held b held' b') (hcut : b.cut = true) : b'.cut = true := by
  induction ts generalizing held b with
  | nil => rw [h.2, hcut]
  | cons t ts ih =>
    obtain ⟨held₁, b₁, hfst, hre⟩ := h
    rcases (sorts_cases hfst).2 with ⟨rfl, -⟩ | ⟨-, hcut₁⟩
    · exact ih hre hcut
    · exact ih hre hcut₁

/-- What is kept of a batch is cleared; without a cut everything is kept. -/
theorem sortsAll_sound (h : SortsAll c ts held b held' b') : held ⊆ held' ∧
      (∀ t ∈ b'.allowed, t ∈ b.allowed ∨ t ∈ ts ∧ Cleared c held' (slugOf t)) ∧
      (b'.cut = false → b'.allowed = b.allowed ++ ts) := by
  induction ts generalizing held b with
  | nil =>
    obtain ⟨rfl, rfl⟩ := h
    exact ⟨Subset.refl _, fun t ht => .inl ht, fun _ => by simp⟩
  | cons t ts ih =>
    obtain ⟨held₁, b₁, hfst, hre⟩ := h
    obtain ⟨hsub, hfst⟩ := sorts_cases hfst
    obtain ⟨hsub', hkept, hall⟩ := ih hre
    refine ⟨Subset.trans hsub hsub', fun x hx => ?_, fun hcut => ?_⟩
    · rcases hkept x hx with hx | ⟨hx, hcle⟩
      · rcases hfst with ⟨rfl, hcle⟩ | ⟨hsame, -⟩
        · rcases mem_append.1 hx with hx | hx
          · exact .inl hx
          · obtain rfl := mem_singleton.1 hx
            exact .inr ⟨mem_cons_self, hcle.mono hsub'⟩
        · exact .inl (hsame ▸ hx)
      · exact .inr ⟨mem_cons_of_mem _ hx, hcle⟩
    · rcases hfst with ⟨rfl, -⟩ | ⟨-, hcut₁⟩
      · rw [hall hcut, Batch.keep]
        simp
      · rw [sortsAll_cut hre hcut₁] at hcut
        cases hcut

/-- A tool that the gate can let through. -/
def Passable (c : Call) (slug : Str) : Prop :=
  ∀ connectorId, c.resolved.connectorOf slug = some connectorId →
    ∃ held, Passes c connectorId slug [] held

/-- A call holds only tools that it was decided about. -/
def Own (c : Call) (held : List (Uuid × Str)) : Prop :=
  ∀ tool ∈ held, c.resolved.connectorOf tool.2 = some tool.1

theorem own_nil : Own c [] := fun _ h => absurd h not_mem_nil

theorem own_of_passes (hco : c.resolved.connectorOf name = some connectorId)
    (hown : Own c held) (h : Passes c connectorId name held held') : Own c held' := by
  cases h with
  | allowed h => exact hown
  | asked h hfl =>
    intro tool htool
    rcases mem_cons.1 htool with rfl | htool
    · exact hco
    · exact hown tool htool

theorem exists_sorts (hown : Own c held) :
    ∃ held' b', Sorts c t held b held' b' ∧ Own c held' ∧ b.allowed ⊆ b'.allowed ∧
      (Passable c (slugOf t) → t ∈ b'.allowed) := by
  have hke : b.allowed ⊆ (b.keep t).allowed ∧ t ∈ (b.keep t).allowed := by
    simp [Batch.keep]
  by_cases hsl : slugOf t = []
  · exact ⟨held, b.keep t, by simp [Sorts, hsl], hown, hke.1, fun _ => hke.2⟩
  cases hco : c.resolved.connectorOf (slugOf t) with
  | none => exact ⟨held, b.keep t, by simp [Sorts, hco], hown, hke.1, fun _ => hke.2⟩
  | some connectorId =>
    cases hdec : c.perms.decide connectorId (slugOf t) with
    | allowed =>
      exact ⟨held, b.keep t, by simp [Sorts, hco, hdec], hown, hke.1, fun _ => hke.2⟩
    | denied =>
      refine ⟨held, { b with blockedSlugs := b.blockedSlugs ++ [slugOf t] },
        by simp [Sorts, hsl, hco, hdec], hown, Subset.refl _, fun hpa => ?_⟩
      obtain ⟨held', h | ⟨h, -⟩⟩ := hpa connectorId hco <;> rw [hdec] at h <;> cases h
    | ask =>
      by_cases hfl : c.verifiedFlowId.isSome = true
      · refine ⟨(connectorId, slugOf t) :: held, b.keep t,
          by simp [Sorts, hsl, hco, hdec, hfl], ?_, hke.1, fun _ => hke.2⟩
        exact own_of_passes hco hown (.asked hdec hfl)
      · refine ⟨held, { b with askTools := b.askTools ++ [(connectorId, slugOf t)] },
          by simp [Sorts, hsl, hco, hdec], hown, Subset.refl _, fun hpa => ?_⟩
        obtain ⟨held', h | ⟨-, h⟩⟩ := hpa connectorId hco
        · rw [hdec] at h
          cases h
        · exact absurd h hfl

theorem exists_sortsAll (ts : List Value) (b : Batch) (hown : Own c held) :
    ∃ held' b', SortsAll c ts held b held' b' ∧ Own c held' ∧ b.allowed ⊆ b'.allowed ∧
      ∀ t ∈ ts, Passable c (slugOf t) → t ∈ b'.allowed := by
  induction ts generalizing held b with
  | nil => exact ⟨held, b, ⟨rfl, rfl⟩, hown, Subset.refl _, fun t ht => absurd ht not_mem_nil⟩
  | cons t ts ih =>
    obtain ⟨held₁, b₁, hfst, hown₁, hsub, ht⟩ := exists_sorts hown
    obtain ⟨held', b', hre, hown', hsub', hts⟩ := ih b₁ hown₁
    refine ⟨held', b', ⟨held₁, b₁, hfst, hre⟩, hown', Subset.trans hsub hsub', ?_⟩
    intro x hx hpa
    rcases mem_cons.1 hx with rfl | hx
    · exact hsub' (ht hpa)
    · exact hts x hx hpa

/-! ## When the toolkit is enough -/

/-- The tools that the call asks Composio for. -/
def issuedSlugs (c : Call) (arguments : Value) : List Str :=
  if (c.resolved.connectorOf c.toolName).isSome then [c.toolName]
  else requestedSlugs c.toolName arguments

/-- Every tool that is asked for is its toolkit's, or it is allowed, or another connector stops
it. -/
def Guarded (catalog : List (Uuid × Str)) (c : Call) (arguments : Value) : Prop :=
  ∀ server original, routeTool c.toolName c.resolved.servers = .ok (server, original) →
    server.kind = .composio → ∀ tool ∈ catalog, tool.2 ≠ [] → isComposioMeta tool.2 = false →
    tool.2 ∈ issuedSlugs c arguments →
      c.resolved.connectorOf tool.2 = some tool.1 ∨ c.perms.decide tool.1 tool.2 = .allowed ∨
      ∃ other, c.resolved.connectorOf tool.2 = some other ∧
        (c.perms.decide other tool.2 = .denied ∨
          c.perms.decide other tool.2 = .ask ∧ c.verifiedFlowId = none)

theorem routeTool_composio {servers : List MCPServerConfig}
    (h : routeTool name servers = .ok (server, original)) (hki : server.kind = .composio) :
    original = name := by
  rw [routeTool] at h
  split at h
  · split at h
    · rename_i s hfind
      obtain ⟨rfl, -⟩ := mk.inj (ok.inj h)
      have hpre := find?_some hfind
      simp [MCPServerConfig.hasPrefix, hki] at hpre
    · cases h
  · split at h
    · exact (mk.inj (ok.inj h)).2.symm
    · split at h
      · exact (mk.inj (ok.inj h)).2.symm
      · cases h

theorem passes_mono (h : Passes c connectorId name [] held) (hsub : held ⊆ held') :
    MayRun c.perms held' (connectorId, name) := by
  cases h with
  | allowed h => exact .inl h
  | asked h hfl => exact .inr ⟨h, hsub mem_cons_self⟩

theorem filters_subset (h : Filters c arguments held held' left) : held ⊆ held' := by
  rw [Filters] at h
  split at h
  · split at h
    · rw [h.1]
      exact Subset.refl _
    · obtain ⟨b, hsor, -, -⟩ := h
      exact (sortsAll_sound hsor).1
  · rw [h.1]
    exact Subset.refl _

/-- A call that is wrapped into a batch of one asks for the one tool. -/
theorem requestedSlugs_wrapped (arguments : Value) (slug : Str) :
    requestedSlugs multiExecuteTool (.object [("tools", .array [.object
      [("arguments", arguments), ("tool_slug", .string slug)]])]) = [slug] := rfl

theorem requestedSlugs_of_ne (h : name ≠ multiExecuteTool) (arguments : Value) :
    requestedSlugs name arguments = [name] := if_neg h

theorem tools_left (harr : (field arguments "tools").bind asArray = some ts) :
    (field (if b.cut then setField "tools" (.array b.allowed) arguments else arguments)
      "tools").bind asArray = some (if b.cut then b.allowed else ts) := by
  obtain ⟨old, hold, -⟩ := bind_eq_some_iff.1 harr
  cases b.cut with
  | true => exact congrArg (·.bind asArray) (field_setField hold)
  | false => exact harr

/-- The tools that Composio is asked for at the end are among those that the call asks for, and the
gates have looked at them. -/
theorem forwards_composio (hrt : routeTool c.toolName c.resolved.servers = .ok (server, original))
    (hki : server.kind = .composio) (hgat : PassesGates c server original held)
    (hfil : Filters c arguments held held' left)
    (hfor : Forwards catalog c server original left tool) :
    tool ∈ catalog ∧ tool.2 ≠ [] ∧ isComposioMeta tool.2 = false ∧
      tool.2 ∈ issuedSlugs c arguments ∧ Cleared c held' tool.2 := by
  obtain rfl := routeTool_composio hrt hki
  simp only [Forwards, IssuedFor, hki] at hfor
  obtain ⟨hcat, hne, hme, hsl⟩ := hfor
  refine ⟨hcat, hne, hme, ?_⟩
  simp only [PassesGates, hki] at hgat
  rw [issuedSlugs]
  cases hco : c.resolved.connectorOf c.toolName with
  | some connectorId =>
    -- The tool was called by its own name.
    simp only [forwarded, hki, hco, isSome_some, and_self, if_true,
      requestedSlugs_wrapped, mem_singleton] at hsl
    rw [hco] at hgat
    rw [hsl]
    refine ⟨by simp, fun connectorId' _ h => ?_⟩
    obtain rfl := some.inj (hco.symm.trans h)
    cases hgat with
    | allowed h => exact .inl h
    | asked h hfl => exact .inr ⟨h, hfl, filters_subset hfil mem_cons_self⟩
  | none =>
    simp only [forwarded, hco, isSome_none, Bool.false_eq_true, and_false, if_false] at hsl ⊢
    by_cases hbat : c.toolName = multiExecuteTool
    · rw [Filters, if_pos hbat] at hfil
      rw [hbat, requestedSlugs] at hsl ⊢
      obtain ⟨t, ht, hslu⟩ := mem_map.1 hsl
      cases harr : (field arguments "tools").bind asArray with
      | none =>
        rw [harr] at hfil
        rw [hfil.2, harr] at ht
        cases ht
      | some ts =>
        rw [harr] at hfil
        obtain ⟨b, hsor, -, hleft⟩ := hfil
        obtain ⟨-, hkept, hall⟩ := sortsAll_sound hsor
        have hmem : t ∈ b.allowed := by
          rw [hleft, tools_left harr] at ht
          cases hcut : b.cut with
          | true => simpa [hcut] using ht
          | false => simpa [hcut, hall hcut] using ht
        rcases hkept t hmem with h | ⟨hts, hcle⟩
        · cases h
        · rw [← hslu]
          exact ⟨mem_map_of_mem hts, hcle⟩
    · rw [requestedSlugs_of_ne hbat, mem_singleton] at hsl
      rw [requestedSlugs_of_ne hbat, hsl]
      refine ⟨mem_singleton.2 rfl, fun connectorId _ h => ?_⟩
      rw [hco] at h
      cases h

theorem ne_of_not_meta {other : Str} (h : isComposioMeta name = false)
    (hoth : isComposioMeta other = true) : name ≠ other := by
  rintro rfl
  rw [h] at hoth
  cases hoth

theorem filterToolkits_of_ne (h : c.toolName ≠ manageConnections) :
    filterToolkits env c arguments = .ok arguments := if_neg h

theorem issuedSlugs_filterToolkits {arguments' : Value}
    (h : filterToolkits env c arguments = .ok arguments') :
    issuedSlugs c arguments' = issuedSlugs c arguments := by
  by_cases hman : c.toolName = manageConnections
  · have hne : c.toolName ≠ multiExecuteTool := by
      rw [hman]
      decide
    simp [issuedSlugs, requestedSlugs_of_ne hne]
  · rw [filterToolkits_of_ne hman] at h
    rw [ok.inj h]

theorem exists_forwards (hrt : routeTool c.toolName c.resolved.servers = .ok (server, original))
    (hki : server.kind = .composio) (hcat : tool ∈ catalog) (hne : tool.2 ≠ [])
    (hme : isComposioMeta tool.2 = false) (hsl : tool.2 ∈ issuedSlugs c arguments)
    (hpa : Passable c tool.2) :
    ∃ held, PassesGates c server original held ∧ filterToolkits env c arguments = .ok arguments ∧
      ∃ held' left, Filters c arguments held held' left ∧ Own c held' ∧
        Forwards catalog c server original left tool := by
  obtain rfl := routeTool_composio hrt hki
  rw [issuedSlugs] at hsl
  simp only [PassesGates, hki, Forwards, IssuedFor]
  -- A tool that is called by its own name.
  have hdir : c.toolName ≠ multiExecuteTool → c.toolName ≠ manageConnections →
      ∀ held, Filters c arguments held held arguments ∧
        filterToolkits env c arguments = .ok arguments := fun hbat hman held =>
    ⟨by rw [Filters, if_neg hbat]; exact ⟨rfl, rfl⟩, filterToolkits_of_ne hman⟩
  cases hco : c.resolved.connectorOf c.toolName with
  | some connectorId =>
    simp only [hco, isSome_some, if_true, mem_singleton] at hsl
    rw [hsl] at hme hpa hne
    obtain ⟨held, hheld⟩ := hpa connectorId hco
    obtain ⟨hfil, htoo⟩ := hdir (ne_of_not_meta hme (by decide))
      (ne_of_not_meta hme (by decide)) held
    refine ⟨held, hheld, htoo, held, arguments, hfil,
      own_of_passes hco own_nil hheld, hcat, ?_, ?_, ?_⟩
    · rwa [hsl]
    · rwa [hsl]
    · simp only [forwarded, hki, hco, isSome_some, and_self, if_true,
        requestedSlugs_wrapped, hsl, mem_singleton]
  | none =>
    simp only [hco, isSome_none, Bool.false_eq_true, if_false] at hsl
    have hfrw : ∀ left, forwarded c server c.toolName left = (c.toolName, left) := by
      simp [forwarded, hco]
    simp only [hfrw]
    by_cases hbat : c.toolName = multiExecuteTool
    · have hslg := hsl
      rw [hbat] at hslg
      obtain ⟨t, ht, hslu⟩ := mem_map.1 hslg
      cases harr : (field arguments "tools").bind asArray with
      | none =>
        rw [harr] at ht
        cases ht
      | some ts =>
        rw [harr] at ht
        obtain ⟨held', b, hsor, hown, -, hkept⟩ := exists_sortsAll ts ⟨[], [], [], []⟩ own_nil
        have hmem : t ∈ b.allowed := hkept t ht (hslu ▸ hpa)
        refine ⟨[], rfl, filterToolkits_of_ne (by rw [hbat]; decide), held',
          if b.cut then setField "tools" (.array b.allowed) arguments else arguments, ?_, hown,
          hcat, hne, hme, ?_⟩
        · rw [Filters, if_pos hbat, harr]
          exact ⟨b, hsor, fun h => ne_nil_of_mem hmem h.1, rfl⟩
        · rw [hbat, ← hslu]
          refine mem_map_of_mem ?_
          rw [tools_left harr]
          cases b.cut with
          | true => exact hmem
          | false => exact ht
    · rw [requestedSlugs_of_ne hbat, mem_singleton] at hsl
      obtain ⟨hfil, htoo⟩ := hdir hbat (ne_of_not_meta (hsl ▸ hme) (by decide)) []
      refine ⟨[], rfl, htoo, [], arguments, hfil, own_nil, hcat, hne, hme, ?_⟩
      rw [requestedSlugs_of_ne hbat, hsl]
      exact mem_singleton.2 rfl

theorem follows_callRoutedTool_iff_guarded :
    Follows (c.rule catalog) [] (callRoutedTool env config c arguments traceparent)
      (fun _ _ => True) ↔ Guarded catalog c arguments := by
  rw [follows_callRoutedTool_iff]
  constructor
  · intro h server original hrt hki tool hcat hne hme hsl
    by_contra hnot
    push Not at hnot
    obtain ⟨hoth, hall, hsto⟩ := hnot
    have hpa : Passable c tool.2 := by
      intro other hco
      obtain ⟨hden, hask⟩ := hsto other hco
      cases hdec : c.perms.decide other tool.2 with
      | denied => exact absurd hdec hden
      | allowed => exact ⟨[], .allowed hdec⟩
      | ask => exact ⟨_, .asked hdec (isSome_iff_ne_none.2 (hask hdec))⟩
    obtain ⟨held, hgat, htoo, held', left, hfil, hown, hfor⟩ :=
      exists_forwards hrt hki hcat hne hme hsl hpa
    rcases h server original hrt held hgat arguments htoo held' left hfil tool hfor
      with hrun | ⟨-, hheld⟩
    · exact hall hrun
    · exact hoth (hown tool hheld)
  · intro h server original hrt held hgat arguments' htoo held' left hfil tool hfor
    cases hki : server.kind with
    | mcp =>
      simp only [Forwards, forwarded, IssuedFor, hki] at hfor
      simp only [PassesGates, hki] at hgat
      rw [hfor]
      exact passes_mono hgat (filters_subset hfil)
    | composio =>
      obtain ⟨hcat, hne, hme, hsl, hcle⟩ :=
        forwards_composio hrt hki hgat hfil hfor
      rw [issuedSlugs_filterToolkits htoo] at hsl
      rcases h server original hrt hki tool hcat hne hme hsl with hown | hrun | ⟨other, hco, hsto⟩
      · rcases hcle tool.1 hne hown with hrun | ⟨hask, -, hheld⟩
        · exact .inl hrun
        · exact .inr ⟨hask, hheld⟩
      · exact .inl hrun
      · -- The connector of the toolkit would have stopped the call.
        exfalso
        rcases hcle other hne hco with hrun | ⟨hask, hfl, -⟩
        · rcases hsto with h | ⟨h, -⟩ <;> rw [hrun] at h <;> cases h
        · rcases hsto with h | ⟨-, h⟩
          · rw [hask] at h
            cases h
          · rw [h] at hfl
            cases hfl

end

/-- **No backend is asked for a tool that may not run**, exactly if every tool that the call asks
Composio for is one of the connector that its toolkit stands for, or is allowed anyway, or is
stopped by the connector that its toolkit stands for. -/
theorem backend_requests_guarded_iff (catalog : List (Uuid × Str)) (env : Env) (config : Config)
    (userId : Uuid) (reqId params : Value) (resolved : ResolvedSession) (perms : PermissionContext)
    (traceparent verifiedFlowId : Option Str) :
    Follows (guarding catalog userId perms) []
        (handleToolsCall env config userId reqId params resolved perms traceparent verifiedFlowId)
        (fun _ _ => True) ↔
      ∀ name arguments, routedCall params = some (name, arguments) →
        Guarded catalog ⟨userId, reqId, name, resolved, perms, verifiedFlowId⟩ arguments := by
  cases hrt : routedCall params with
  | none =>
    refine iff_of_true ?_ nofun
    exact (follows_quiet (calls_handleToolsCall (fun _ h => h) hrt)).mono fun _ _ _ => trivial
  | some x =>
    obtain ⟨name, arguments⟩ := x
    rw [handleToolsCall_eq hrt]
    have hone : Guarded catalog ⟨userId, reqId, name, resolved, perms, verifiedFlowId⟩ arguments ↔
        ∀ name' arguments', some (name, arguments) = some (name', arguments') →
          Guarded catalog ⟨userId, reqId, name', resolved, perms, verifiedFlowId⟩ arguments' := by
      refine ⟨fun h name' arguments' heq => ?_, fun h => h _ _ rfl⟩
      cases heq
      exact h
    exact follows_callRoutedTool_iff_guarded.trans hone

/-! ### A toolkit of two words -/

/-- A user with maps behind Composio. -/
def mapsSession : ResolvedSession :=
  ⟨[composioSession], ["google_maps"], [("google_maps", mapsId)], []⟩

def geocode : Str := "GOOGLE_MAPS_GEOCODE"

def geocodeParams : Value := .object [("arguments", .object []), ("name", .string geocode)]

def geocodeCall : Call :=
  ⟨1, .number "1", geocode, mapsSession, enabling [] [], none⟩

/-- Maps are not enabled for the agent, and a call of a tool of maps is sent all the same: the
toolkit that is read off the name is `google`, which stands for no connector. -/
theorem toolkit_of_two_words_not_guarded : (enabling [] []).decide mapsId geocode = .denied ∧
    ¬ Follows (guarding [(mapsId, geocode)] 1 (enabling [] [])) []
      (handleToolsCall (sample []) keywordConfig 1 (.number "1") geocodeParams mapsSession
        (enabling [] []) none none) (fun _ _ => True) := by
  refine ⟨by decide, fun h => ?_⟩
  have hmay := (follows_callRoutedTool_iff (c := geocodeCall)).1 h composioSession geocode rfl
    [] rfl
    (.object []) rfl [] (.object []) ⟨rfl, rfl⟩ (mapsId, geocode)
    ⟨mem_singleton.2 rfl, by decide, by decide, mem_singleton.2 rfl⟩
  rcases hmay with hrun | ⟨hrun, -⟩ <;> exact absurd hrun (by decide)

end Nasiko.McpGateway
