import Nasiko.Concurrency.History
import Nasiko.Concurrency.Inductive
import Nasiko.McpGateway.AgentAccess

/-!
# Contexts older than a write

A request that misses the cache reads the rows, computes the context and puts it into the cache. A
writer changes the rows and then drops the context from the cache. Between the reading and the
putting of a request a writer may come and go, and the context that is put then is older than the
write. All later requests find it.

`later_requests_not_stale` says that this is the only way, apart from a drop that fails: in a run
where every writer, when it drops the context, succeeds and finds no request about to put an older
one, no request that starts after a write has returned is decided by a context older than the write.
-/

namespace Nasiko.McpGateway

open Concurrency Program Option Function List Except AccessState

/-! ## The system -/

inductive AccessRequest where
  | load (agentId : Uuid)
  | setConnectorAccess (userId agentId connectorId : Uuid) (enabled : Bool)
  | bulkUpdateTools (userId agentId : Uuid) (rules : List ToolRuleInput) (grouping : Grouping rules)
  | resetPermissions (agentId : Uuid)
  /-- The time to live of a context is over. -/
  | expire (agentId : Uuid)
  | replaceRows (rows : List AccessRow)
  | replaceReach (reachable granted : List (Uuid × Uuid))

def AccessRequest.writes : AccessRequest → Option Uuid
  | .setConnectorAccess _ agentId _ _ | .bulkUpdateTools _ agentId _ _
  | .resetPermissions agentId => some agentId
  | .load _ | .expire _ | .replaceRows _ | .replaceReach _ _ => none

inductive AccessAnswer where
  | context (context : PermissionContext)
  | value (v : Value)
  | count (n : Nat)
  | unit

variable (env : Env)

def AccessRequest.handle : AccessRequest → AccessProg AccessAnswer
  | .load agentId => do return .context (← loadPermissionContext env agentId)
  | .setConnectorAccess userId agentId connectorId enabled => do
    return .value (← setConnectorAccessView env userId agentId connectorId enabled)
  | .bulkUpdateTools userId agentId rules grouping => do
    return .value (← McpGateway.bulkUpdateTools env userId agentId rules grouping)
  | .resetPermissions agentId => do return .count (← McpGateway.resetPermissions agentId)
  | .expire agentId => do
    perform (AccessCommand.cacheDelete agentId)
    return .unit
  | .replaceRows rows => do
    perform (AccessCommand.replaceRows rows)
    return .unit
  | .replaceReach reachable granted => do
    perform (AccessCommand.replaceReach reachable granted)
    return .unit

/-- The rows and the cache, shared by all requests. -/
abbrev accessSystem : System AccessRequest AccessCommand AccessReply McpError AccessAnswer where
  State := AccessState
  exec s _ c o := s.exec c o
  release s _ := s
  crash s := s
  handle q := q.handle env

abbrev AccessConfig := Concurrency.Config (accessSystem env)

abbrev AccessStep := Step (accessSystem env)

/-! ## What is to be shown -/

def AccessCommand.changes : AccessCommand → Bool
  | .upsertAccess _ | .deleteAllAccess _ => true
  | _ => false

/-- In step `p` of the run, task `i` changes the rows. -/
def ChangesAt {env : Env} (h : List (AccessStep env)) (p i : Nat) : Prop :=
  ∃ st o cmd, h[p]? = some st ∧ st.action = .run i o ∧ st.before.next i = some cmd ∧
    cmd.changes = true

/-- The context is what the rows of the agent said after step `p` or at a later time. -/
def Recent {env : Env} (h : List (AccessStep env)) (p : Nat) (agentId : Uuid)
    (context : PermissionContext) : Prop :=
  ∃ k st, p ≤ k ∧ h[k]? = some st ∧ context = contextOf env agentId st.after.state.rows

/-- A writer that drops the context from the cache succeeds, and no request is about to put a
context there that the rows do not say any more. -/
def DropsAll {env : Env} (st : AccessStep env) : Prop :=
  ∀ i o q agentId, st.action = .run i o → st.before.request i = some q →
    q.writes = some agentId → st.before.next i = some (.cacheDelete agentId) →
      o ≠ .failed ∧ ∀ j context, st.before.next j = some (.cacheSet agentId context) →
        context = contextOf env agentId st.before.state.rows

/-! ## What a request knows -/

/-- The request; a context that it has read and not yet put into the cache; the context that it has
read or found; and whether it may have changed the rows and not yet dropped the context. -/
structure AccessCtx where
  request : AccessRequest
  held : Option PermissionContext
  seen : Option PermissionContext
  dirty : Bool

abbrev accessProtocol : Protocol AccessCommand AccessReply McpError where
  Ctx := AccessCtx
  allow x
    | .cacheGet agentId | .selectAccess agentId => x.held = none ∧ x.request = .load agentId
    | .cacheSet agentId context => x.held = some context ∧ x.request = .load agentId
    | .cacheDelete agentId =>
      x.held = none ∧ (x.request.writes = some agentId ∨ x.request = .expire agentId)
    | .upsertAccess row => x.held = none ∧ x.request.writes = some row.agentId
    | .deleteAllAccess agentId => x.held = none ∧ x.request.writes = some agentId
    | .selectAccessRow _ _ | .canAccessConnector _ _ | .agentHasConnectorGrant _ _
    | .replaceRows _ | .replaceReach _ _ => x.held = none
  after x
    | .cacheGet _, .ok (some context) => { x with seen := some context }
    | .selectAccess agentId, .ok rows =>
      { x with
        held := some (contextOf env agentId rows)
        seen := some (contextOf env agentId rows) }
    | .cacheSet _ _, _ => { x with held := none }
    | .cacheDelete _, _ => { x with dirty := false }
    | .upsertAccess _, _ | .deleteAllAccess _, _ => { x with dirty := true }
    | _, _ => x

variable (q : AccessRequest)

def AccessRequest.start : AccessCtx := ⟨q, none, none, true⟩

/-- The request has nothing to put into the cache. -/
structure Idle (x : AccessCtx) : Prop where
  request : x.request = q
  held : x.held = none

def accessPost (x : AccessCtx) (r : Except McpError AccessAnswer) : Prop :=
  Idle q x ∧ (∀ context, r = .ok (.context context) → x.seen = some context) ∧
    ∀ agentId answer, q.writes = some agentId → r = .ok answer → x.dirty = false

variable {env : Env} {q : AccessRequest} {x : AccessCtx} {agentId agentId' : Uuid}
  {context : PermissionContext} {s : AccessState} {userId connectorId : Uuid}

/-- A failure says nothing about what the request has read or changed. -/
theorem accessPost_error {e : McpError} (h : Idle q x) : accessPost q x (.error e) := by
  refine ⟨h, fun _ hr => ?_, fun _ _ _ hr => ?_⟩ <;> cases hr

/-- A writer ends with dropping the context. -/
theorem follows_invalidate {α : Type} {f : Unit → AccessProg α}
    {Q : AccessCtx → Except McpError α → Prop} (hhe : x.held = none)
    (hwr : x.request.writes = some agentId)
    (hf : Follows (accessProtocol env) { x with dirty := false } (f ()) Q) :
    Follows (accessProtocol env) x (invalidatePermissionCache agentId >>= f) Q := by
  rw [follows_bind]
  exact follows_attempt_perform_bind.2 ⟨⟨hhe, .inl hwr⟩, fun _ => hf⟩

theorem accessPost_load (hidle : Idle (.load agentId) x) (hse : x.seen = some context) :
    accessPost (.load agentId) x (.ok (.context context)) := by
  refine ⟨hidle, fun context' hr => ?_, nofun⟩
  cases hr
  exact hse

theorem accessPost_clean {answer : AccessAnswer} (hidle : Idle q x) (hdir : x.dirty = false)
    (hans : ∀ context, answer ≠ .context context) : accessPost q x (.ok answer) :=
  ⟨hidle, fun context hr => absurd (ok.inj hr) (hans context), fun _ _ _ _ => hdir⟩

theorem follows_reachable (hhe : x.held = none) :
    Follows (accessProtocol env) x (reachable userId agentId connectorId) fun y _ => y = x := by
  refine follows_perform_bind hhe (fun _ => rfl) fun direct => ?_
  cases direct with
  | true => rfl
  | false => exact follows_perform.2 ⟨hhe, fun _ => rfl⟩

theorem follows_setConnectorAccess {enabled : Bool} :
    Follows (accessProtocol env) (AccessRequest.setConnectorAccess userId agentId connectorId
      enabled).start
        ((AccessRequest.setConnectorAccess userId agentId connectorId enabled).handle env)
      (accessPost (.setConnectorAccess userId agentId connectorId enabled)) := by
  refine follows_bind.2 (follows_bind.2 ((follows_reachable rfl).mono fun y r hy => ?_))
  subst hy
  rcases r with e | _ | _
  · exact accessPost_error ⟨rfl, rfl⟩
  · exact accessPost_error ⟨rfl, rfl⟩
  · refine follows_perform_bind rfl (fun e => accessPost_error ⟨rfl, rfl⟩) fun existing => ?_
    refine follows_perform_bind ⟨rfl, rfl⟩ (fun e => accessPost_error ⟨rfl, rfl⟩) fun row => ?_
    refine follows_invalidate rfl rfl ?_
    exact accessPost_clean ⟨rfl, rfl⟩ rfl fun _ => AccessAnswer.noConfusion

theorem follows_updateAll {entries : List (Uuid × List (Str × Str))}
    (hwr : q.writes = some agentId) (hx : Idle q x) :
    Follows (accessProtocol env) x (updateAll env userId agentId entries) fun y _ => Idle q y := by
  induction entries generalizing x with
  | nil => exact hx
  | cons e es ih =>
    have hone : Follows (accessProtocol env) x (updateConnectorTools env userId agentId e)
        fun y _ => Idle q y := by
      refine follows_perform_bind hx.held (fun _ => hx) fun reached => ?_
      cases reached with
      | false => exact hx
      | true =>
        refine follows_perform_bind hx.held (fun _ => hx) fun existing => ?_
        refine follows_perform_bind ⟨hx.held, hx.request ▸ hwr⟩ (fun _ => ⟨hx.request, hx.held⟩)
          fun row => ⟨hx.request, hx.held⟩
    refine follows_bind.2 (hone.mono fun y r hy => ?_)
    cases r with
    | error _ => exact hy
    | ok applied =>
      refine follows_bind.2 ((ih hy).mono fun z r hz => ?_)
      cases r with
      | error _ | ok rest => exact hz

theorem follows_bulkUpdateTools {rules : List ToolRuleInput} {grouping : Grouping rules} :
    Follows (accessProtocol env) (AccessRequest.bulkUpdateTools userId agentId rules grouping).start
      ((AccessRequest.bulkUpdateTools userId agentId rules grouping).handle env)
      (accessPost (.bulkUpdateTools userId agentId rules grouping)) := by
  refine follows_bind.2 ?_
  unfold bulkUpdateTools
  split
  · exact accessPost_error ⟨rfl, rfl⟩
  · refine follows_bind.2 ((follows_updateAll rfl ⟨rfl, rfl⟩).mono fun x r hx => ?_)
    cases r with
    | error e => exact accessPost_error hx
    | ok applied =>
      refine follows_invalidate hx.held (hx.request ▸ rfl) ?_
      exact accessPost_clean ⟨hx.request, hx.held⟩ rfl fun _ => AccessAnswer.noConfusion

/-- **Every request keeps to the protocol.** -/
theorem AccessRequest.follows_handle (q : AccessRequest) :
    Follows (accessProtocol env) q.start (q.handle env) (accessPost q) := by
  have hunit : ∀ q : AccessRequest, q.writes = none → ∀ x : AccessCtx, Idle q x →
      accessPost q x (.ok .unit) := by
    refine fun q hwr x hx => ⟨hx, fun _ hr => ?_, fun _ _ hsome => ?_⟩
    · cases hr
    · rw [hwr] at hsome
      cases hsome
  cases q with
  | load agentId =>
    refine follows_bind.2 (follows_attempt_perform_bind.2 ⟨⟨rfl, rfl⟩, fun r => ?_⟩)
    rcases r with e | _ | context
    rotate_right
    · exact accessPost_load ⟨rfl, rfl⟩ rfl
    all_goals
      refine follows_perform_bind ⟨rfl, rfl⟩ (fun e => accessPost_error ⟨rfl, rfl⟩) fun rows => ?_
      exact follows_attempt_perform_bind.2 ⟨⟨rfl, rfl⟩, fun _ => accessPost_load ⟨rfl, rfl⟩ rfl⟩
  | setConnectorAccess userId agentId connectorId enabled =>
    exact follows_setConnectorAccess
  | bulkUpdateTools userId agentId rules grouping =>
    exact follows_bulkUpdateTools
  | resetPermissions agentId =>
    refine follows_bind.2 (follows_perform_bind ⟨rfl, rfl⟩ (fun e => accessPost_error ⟨rfl, rfl⟩)
      fun n => ?_)
    refine follows_invalidate rfl rfl ?_
    exact accessPost_clean ⟨rfl, rfl⟩ rfl fun _ => AccessAnswer.noConfusion
  | expire agentId =>
    exact follows_perform_bind ⟨rfl, .inr rfl⟩ (fun e => accessPost_error ⟨rfl, rfl⟩)
      fun _ => hunit _ rfl _ ⟨rfl, rfl⟩
  | replaceRows rows | replaceReach reachable granted =>
    exact follows_perform_bind rfl (fun e => accessPost_error ⟨rfl, rfl⟩) fun _ =>
      hunit _ rfl _ ⟨rfl, rfl⟩

/-! ## The cache -/

theorem cached_uncache : (s.uncache agentId).cached agentId' =
      if agentId' = agentId then none else s.cached agentId' := by
  simp only [cached, uncache, find?_filter]
  by_cases heq : agentId' = agentId
  · rw [if_pos heq, map_eq_none_iff, find?_eq_none]
    intro e _
    simp only [heq, decide_eq_true_eq, not_and]
    exact fun h he => h he
  · rw [if_neg heq]
    congr 2
    funext e
    by_cases he : e.1 = agentId'
    · simp [he, heq]
    · simp [he]

theorem cached_recache : (s.recache agentId context).cached agentId' =
      if agentId' = agentId then some context else s.cached agentId' := by
  by_cases heq : agentId' = agentId
  · simp [cached, recache, heq]
  · have hold : (s.uncache agentId).cached agentId' = s.cached agentId' := by
      rw [cached_uncache, if_neg heq]
    rw [if_neg heq, ← hold, cached, recache,
      find?_cons_of_neg (by simpa using Ne.symm heq), ← cached]

theorem contextOf_filter {rows : List AccessRow} :
    contextOf env agentId (rows.filter fun r => r.agentId = agentId) =
      contextOf env agentId rows := by
  simp [contextOf]

/-! ## What one command does -/

section

variable {s s' : AccessState} {x : AccessCtx} {cmd : AccessCommand} {o : Outcome}
  {r : Except McpError (AccessReply cmd)} {agentId : Uuid} {context : PermissionContext}

theorem after_request : ((accessProtocol env).after x cmd r).request = x.request := by
  cases cmd <;> rcases r with _ | r <;> first | rfl | (cases r <;> rfl)

/-- A context is in the cache because it was there or because it was put there. -/
theorem cached_exec (hec : s.exec cmd o = some (r, s')) (hcac : s'.cached agentId = some context) :
    s.cached agentId = some context ∨ cmd = .cacheSet agentId context := by
  have hs : s' = s ∨ s' = (s.run cmd).2 := by
    cases o <;> cases hec
    · exact .inr rfl
    · exact .inl rfl
    · exact .inr rfl
  rcases hs with rfl | rfl
  · exact .inl hcac
  · cases cmd with
    | cacheSet agentId' context' =>
      rw [show (s.run (.cacheSet agentId' context')).2 = s.recache agentId' context' from rfl,
        cached_recache] at hcac
      split at hcac
      · rename_i heq
        cases hcac
        exact .inr (heq ▸ rfl)
      · exact .inl hcac
    | cacheDelete agentId' =>
      rw [show (s.run (.cacheDelete agentId')).2 = s.uncache agentId' from rfl,
        cached_uncache] at hcac
      split at hcac
      · cases hcac
      · exact .inl hcac
    | _ => exact .inl hcac

section

variable (hal : (accessProtocol env).allow x cmd)

include hal

/-- A request that has read a context puts it into the cache next. -/
theorem allow_of_held (hhe : x.held = some context) :
    ∃ agentId, cmd = .cacheSet agentId context ∧ x.request = .load agentId := by
  cases cmd with
  | cacheSet agentId context' =>
    obtain rfl := some.inj (hal.1.symm.trans hhe)
    exact ⟨agentId, rfl, hal.2⟩
  | cacheGet _ | selectAccess _ | cacheDelete _ | upsertAccess _ | deleteAllAccess _ =>
    exact absurd (hal.1.symm.trans hhe) (by simp)
  | selectAccessRow _ _ | canAccessConnector _ _ | agentHasConnectorGrant _ _ | replaceRows _
  | replaceReach _ _ => exact absurd (Eq.symm hal |>.trans hhe) (by simp)

/-- What is put into the cache next is what the rows say now. -/
theorem held_exec (hec : s.exec cmd o = some (r, s'))
    (hhe : ((accessProtocol env).after x cmd r).held = some context) :
    ∃ agentId, x.request = .load agentId ∧ context = contextOf env agentId s'.rows := by
  cases cmd with
  | selectAccess agentId =>
    cases o with
    | done =>
      cases hec
      cases hhe
      exact ⟨agentId, hal.2, contextOf_filter⟩
    | failed | lost =>
      cases hec
      exact absurd (hal.1.symm.trans hhe) (by simp)
  | cacheSet _ _ => cases hhe
  | cacheGet _ =>
    rcases r with _ | _ | _ <;> exact absurd (hal.1.symm.trans hhe) (by simp)
  | _ =>
    obtain ⟨_, hcmd, -⟩ := allow_of_held hal hhe
    cases hcmd

/-- A request sees what is in the cache or what the rows say now. -/
theorem seen_exec (hec : s.exec cmd o = some (r, s'))
    (hse : ((accessProtocol env).after x cmd r).seen = some context) :
    x.seen = some context ∨ ∃ agentId, x.request = .load agentId ∧
      (s.cached agentId = some context ∨ context = contextOf env agentId s'.rows) := by
  cases cmd with
  | selectAccess agentId =>
    cases o with
    | done =>
      cases hec
      cases hse
      exact .inr ⟨agentId, hal.2, .inr contextOf_filter⟩
    | failed | lost =>
      cases hec
      exact .inl hse
  | cacheGet agentId =>
    rcases r with _ | _ | context'
    · exact .inl hse
    · exact .inl hse
    · cases hse
      refine .inr ⟨agentId, hal.2, .inl ?_⟩
      cases o with
      | done =>
        have hrun := (Prod.mk.inj (some.inj hec)).1
        exact ok.inj hrun
      | failed | lost => cases hec
  | _ => exact .inl hse

end

theorem dirty_after (hdir : ((accessProtocol env).after x cmd r).dirty = false) :
    (∃ agentId, cmd = .cacheDelete agentId) ∨ x.dirty = false ∧ cmd.changes = false := by
  cases cmd with
  | cacheDelete agentId => exact .inl ⟨agentId, rfl⟩
  | upsertAccess _ | deleteAllAccess _ => cases hdir
  | cacheGet _ => rcases r with _ | _ | _ <;> exact .inr ⟨hdir, rfl⟩
  | selectAccess _ => rcases r with _ | _ <;> exact .inr ⟨hdir, rfl⟩
  | _ => exact .inr ⟨hdir, rfl⟩

end

/-! ## The invariant -/

section

variable {h : List (AccessStep env)} {c c' : AccessConfig env} {st : AccessStep env}
  {g g' : Nat → Option AccessCtx} {agentId : Uuid} {context : PermissionContext} {p i j : Nat}

/-- Task `j` loads the context of the agent and starts when the writer `i` has returned success. -/
def StartsAfter (h : List (AccessStep env)) (j : Nat) (agentId : Uuid) (i : Nat) : Prop :=
  ∃ (m : Nat) (st : AccessStep env) (q : AccessRequest) (answer : AccessAnswer), h[m]? = some st ∧
    st.action = .spawn (.load agentId) ∧ st.before.tasks.length = j ∧
    st.before.request i = some q ∧ q.writes = some agentId ∧ st.before.answer i = some (.ok answer)

/-- No context from before step `p` is in the cache or on the way there. -/
structure Clean (h : List (AccessStep env)) (p : Nat) (agentId : Uuid) (c : AccessConfig env)
    (g : Nat → Option AccessCtx) : Prop where
  cached : ∀ context, c.state.cached agentId = some context → Recent h p agentId context
  held : ∀ j x context, g j = some x → x.request = .load agentId → x.held = some context →
    Recent h p agentId context

/-- What a writer that has dropped the context leaves behind, and what a request that starts later
sees. -/
structure Fresh (h : List (AccessStep env)) (c : AccessConfig env) (g : Nat → Option AccessCtx) :
    Prop where
  asked : ∀ i x, g i = some x → c.request i = some x.request
  clean : ∀ i x agentId p, g i = some x → x.request.writes = some agentId → x.dirty = false →
    ChangesAt h p i → Clean h p agentId c g
  later : ∀ i j x agentId context p, StartsAfter h j agentId i → ChangesAt h p i → g j = some x →
    x.seen = some context → Recent h p agentId context

theorem Recent.snoc (hrec : Recent h p agentId context) (st : AccessStep env) :
    Recent (h ++ [st]) p agentId context := by
  obtain ⟨k, st', hle, hst', hctx⟩ := hrec
  exact ⟨k, st', hle, getElem?_snoc hst' st, hctx⟩

theorem recent_last (hp : p ≤ h.length)
    (hctx : context = contextOf env agentId st.after.state.rows) :
    Recent (h ++ [st]) p agentId context :=
  ⟨h.length, st, hp, getElem?_concat_length, hctx⟩

theorem ChangesAt.lt (hch : ChangesAt h p i) : p < h.length := by
  obtain ⟨st, o, cmd, hst, -⟩ := hch
  exact (List.getElem?_eq_some_iff.1 hst).1

theorem changesAt_snoc (hch : ChangesAt (h ++ [st]) p i) : ChangesAt h p i ∨
    ∃ o cmd, st.action = .run i o ∧ st.before.next i = some cmd ∧ cmd.changes = true := by
  obtain ⟨st', o, cmd, hst, hact, hnx, hcmd⟩ := hch
  rcases getElem?_snoc_cases hst with hst | ⟨-, rfl⟩
  · exact .inl ⟨st', o, cmd, hst, hact, hnx, hcmd⟩
  · exact .inr ⟨o, cmd, hact, hnx, hcmd⟩

theorem startsAfter_snoc (haft : StartsAfter (h ++ [st]) j agentId i) :
    StartsAfter h j agentId i ∨ st.action = .spawn (.load agentId) ∧
      st.before.tasks.length = j := by
  obtain ⟨m, st', q, answer, hst, hact, hlen, hrest⟩ := haft
  rcases getElem?_snoc_cases hst with hst | ⟨-, rfl⟩
  · exact .inl ⟨m, st', q, answer, hst, hact, hlen, hrest⟩
  · exact .inr ⟨hact, hlen⟩

variable {c₀ : AccessConfig env}

theorem StartsAfter.request (haft : StartsAfter h j agentId i) (hru : Runs c₀ h c) :
    c.request j = some (.load agentId) := by
  obtain ⟨m, st, q, answer, hst, hact, rfl, -⟩ := haft
  exact hru.request_of_spawn hst hact

theorem StartsAfter.answered (haft : StartsAfter h j agentId i) (hru : Runs c₀ h c) :
    ∃ q answer, c.request i = some q ∧ q.writes = some agentId ∧
      c.answer i = some (.ok answer) := by
  obtain ⟨m, st, q, answer, hst, -, -, hreq, hwr, hans⟩ := haft
  exact ⟨q, answer, hru.request_of_before hst hreq, hwr, hru.answer_of_before hst hans⟩

theorem Fresh.frame (hfresh : Fresh h c g) (hbef : st.before = c) (hstt : c'.state = c.state)
    (hact : ∀ i o, st.action ≠ .run i o) (hnone : g c.tasks.length = none)
    (hask : ∀ i x, g' i = some x → c'.request i = some x.request)
    (hg : ∀ i x, g' i = some x → g i = some x ∨ x = x.request.start) : Fresh (h ++ [st]) c' g' := by
  have hch : ∀ {p i}, ChangesAt (h ++ [st]) p i → ChangesAt h p i := by
    intro p i hch
    rcases changesAt_snoc hch with hold | ⟨o, -, hrun, -⟩
    · exact hold
    · exact absurd hrun (hact i o)
  refine ⟨hask, ?_, ?_⟩
  · intro i x agentId p hx hwr hdir hp
    rcases hg i x hx with hold | hst
    · have hcle := hfresh.clean i x agentId p hold hwr hdir (hch hp)
      refine ⟨fun context hcac => ?_, fun j y context hy hlo hhe => ?_⟩
      · rw [hstt] at hcac
        exact (hcle.cached context hcac).snoc st
      · rcases hg j y hy with hold | hst
        · exact (hcle.held j y context hold hlo hhe).snoc st
        · rw [hst] at hhe
          cases hhe
    · rw [hst] at hdir
      cases hdir
  · intro i j x agentId context p haft hp hx hse
    rcases hg j x hx with hold | hst
    · rcases startsAfter_snoc haft with haft | ⟨-, hlen⟩
      · exact (hfresh.later i j x agentId context p haft (hch hp) hold hse).snoc st
      · rw [← hlen, hbef, hnone] at hold
        cases hold
    · rw [hst] at hse
      cases hse

end

/-! ## A command keeps the invariant -/

section

variable {h : List (AccessStep env)} {c c' : AccessConfig env} {g : Nat → Option AccessCtx}
  {agentId : Uuid} {p i : Nat} {x : AccessCtx} {q : AccessRequest} {cmd : AccessCommand}
  {k : Except McpError (AccessReply cmd) → AccessProg AccessAnswer} {o : Outcome}
  {r : Except McpError (AccessReply cmd)} {s : AccessState} {y : AccessCtx}
  {context : PermissionContext} {c₀ : AccessConfig env} {i' j : Nat}
  (hec : c.state.exec cmd o = some (r, s)) (hal : (accessProtocol env).allow x cmd)

include hec hal

/-- A context on its way to the cache was on its way before, or is what the rows say now. -/
theorem held_run (hy : update g i (some ((accessProtocol env).after x cmd r)) j = some y)
    (hlo : y.request = .load agentId) (hhe : y.held = some context) :
    j ≠ i ∧ g j = some y ∨ context = contextOf env agentId s.rows := by
  rcases update_some hy with ⟨-, rfl⟩ | hold
  · obtain ⟨agentId', hreq, hctx⟩ := held_exec hal hec hhe
    rw [after_request, hreq] at hlo
    cases hlo
    exact .inr hctx
  · exact .inl hold

variable (hstt : c'.state = s) (hx : g i = some x)

include hstt hx

theorem Clean.run (hcle : Clean h p agentId c g) (hp : p ≤ h.length) :
    Clean (h ++ [⟨c, .run i o, c'⟩]) p agentId c'
      (update g i (some ((accessProtocol env).after x cmd r))) := by
  subst hstt
  refine ⟨fun context hcac => ?_, fun j y context hy hlo hhe => ?_⟩
  · rcases cached_exec hec hcac with hold | rfl
    · exact (hcle.cached context hold).snoc _
    · exact (hcle.held i x context hx hal.2 hal.1).snoc _
  · rcases held_run hec hal hy hlo hhe with ⟨-, hold⟩ | hctx
    · exact (hcle.held j y context hold hlo hhe).snoc _
    · exact recent_last hp hctx

variable (hknows : Knows (accessSystem env) (accessProtocol env) accessPost g c)
  (hfresh : Fresh h c g)

include hknows hfresh

theorem Fresh.later_run (hru : Runs c₀ h c) (hsta : StartsAfter h j agentId i')
    (hch : ChangesAt (h ++ [⟨c, .run i o, c'⟩]) p i')
    (hy : update g i (some ((accessProtocol env).after x cmd r)) j = some y)
    (hse : y.seen = some context) : Recent (h ++ [⟨c, .run i o, c'⟩]) p agentId context := by
  obtain ⟨q', answer, hq', hwr, hans⟩ := hsta.answered hru
  -- The writer has answered, so this step is not one of its changes.
  have hold : ChangesAt h p i' := by
    rcases changesAt_snoc hch with hold | ⟨_, cmd', -, hnx, -⟩
    · exact hold
    · exact absurd (hnx.symm.trans (Concurrency.Config.next_of_answer hans)) (by simp)
  rcases update_some hy with ⟨rfl, rfl⟩ | ⟨-, hy⟩
  · rcases seen_exec hal hec hse with hbef | ⟨agentId', hag, hctx⟩
    · exact (hfresh.later i' j x agentId context p hsta hold hx hbef).snoc _
    · have hlo := hsta.request hru
      rw [hfresh.asked j x hx, hag] at hlo
      cases hlo
      rcases hctx with hcac | hrows
      · obtain ⟨z, hz, hpost⟩ := hknows.exists_of_answer hq' hans
        have hdir := hpost.2.2 agentId answer hwr rfl
        rw [← hpost.1.request] at hwr
        exact ((hfresh.clean i' z agentId p hz hwr hdir hold).cached context hcac).snoc _
      · exact recent_last hold.lt.le (hstt ▸ hrows)
  · exact (hfresh.later i' j y agentId context p hsta hold hy hse).snoc _

variable (hta : c.tasks[i]? = some ⟨q, .running (.call cmd k)⟩)
  (hmeets : DropsAll ⟨c, .run i o, c'⟩)

include hta hmeets

/-- Nothing old is left when a writer has dropped the context. -/
theorem Fresh.clean_of_drop (hp : p ≤ h.length) (hcmd : cmd = .cacheDelete agentId)
    (hwr : x.request.writes = some agentId) :
    Clean (h ++ [⟨c, .run i o, c'⟩]) p agentId c'
      (update g i (some ((accessProtocol env).after x cmd r))) := by
  subst hcmd hstt
  obtain ⟨hdone, hpend⟩ := hmeets i o x.request agentId rfl (hfresh.asked i x hx) hwr
    (Concurrency.Config.next_of_getElem? hta)
  have hs : c'.state = c.state.uncache agentId := by
    cases o with
    | failed => exact absurd rfl hdone
    | done | lost => exact (Prod.mk.inj (some.inj hec)).2.symm
  refine ⟨fun context hcac => ?_, fun j y context hy hlo hhe => ?_⟩
  · rw [hs, cached_uncache, if_pos rfl] at hcac
    cases hcac
  · rcases update_some hy with ⟨-, rfl⟩ | ⟨-, hy⟩
    · rw [after_request] at hlo
      rw [hlo] at hwr
      cases hwr
    · obtain ⟨q', p', hta'⟩ := hknows.known j y hy
      obtain ⟨y', hy', hfol⟩ := hknows.running j q' p' hta'
      obtain rfl := some.inj (hy.symm.trans hy')
      refine recent_last hp ?_
      cases p' with
      | ret _ | fail _ => exact absurd (hfol.1.held.symm.trans hhe) (by simp)
      | call cmd' k' =>
        obtain ⟨agentId', rfl, hreq⟩ := allow_of_held hfol.1 hhe
        rw [hlo] at hreq
        cases hreq
        have hctx := hpend j context (Concurrency.Config.next_of_getElem? hta')
        rw [hs]
        exact hctx

theorem Fresh.clean_run (hy : update g i (some ((accessProtocol env).after x cmd r)) i' = some y)
    (hwr : y.request.writes = some agentId) (hdir : y.dirty = false)
    (hch : ChangesAt (h ++ [⟨c, .run i o, c'⟩]) p i') :
    Clean (h ++ [⟨c, .run i o, c'⟩]) p agentId c'
      (update g i (some ((accessProtocol env).after x cmd r))) := by
  rcases update_some hy with ⟨rfl, rfl⟩ | ⟨hi, hy⟩
  · rw [after_request] at hwr
    have hp : p ≤ h.length := by
      have hlt := hch.lt
      rw [length_append, length_singleton] at hlt
      omega
    rcases dirty_after hdir with ⟨agentId', hcmd⟩ | ⟨hcle, hunc⟩
    · have hag : agentId' = agentId := by
        subst hcmd
        rcases hal.2 with hsome | hexp
        · exact some.inj (hsome.symm.trans hwr)
        · rw [hexp] at hwr
          cases hwr
      subst hag
      exact hfresh.clean_of_drop hec hal hstt hx hknows hta hmeets hp hcmd hwr
    · rcases changesAt_snoc hch with hold | ⟨_, cmd', -, hnx, hcha⟩
      · exact (hfresh.clean i' x agentId p hx hwr hcle hold).run hec hal hstt hx hp
      · cases (Concurrency.Config.next_of_getElem? hta).symm.trans hnx
        rw [hunc] at hcha
        cases hcha
  · rcases changesAt_snoc hch with hold | ⟨_, _, hact, -⟩
    · have hcle := hfresh.clean i' y agentId p hy hwr hdir hold
      exact hcle.run hec hal hstt hx hold.lt.le
    · cases hact
      exact absurd rfl hi

theorem Fresh.run (hru : Runs c₀ h c) (hc' : c' = ⟨s, c.tasks.set i ⟨q, .running (k r)⟩⟩) :
    Fresh (h ++ [⟨c, .run i o, c'⟩]) c'
      (update g i (some ((accessProtocol env).after x cmd r))) := by
  refine ⟨fun j y hy => ?_, fun i' y agentId p hy hwr hdir hch => ?_,
    fun i' j y agentId context p haft hch hy hse => ?_⟩
  · rw [hc', Concurrency.Config.request_set s hta]
    rcases update_some hy with ⟨rfl, rfl⟩ | ⟨-, hy⟩
    · rw [after_request]
      exact hfresh.asked j x hx
    · exact hfresh.asked j y hy
  · exact hfresh.clean_run hec hal hstt hx hknows hta hmeets hy hwr hdir hch
  · rcases startsAfter_snoc haft with hsta | ⟨hact, -⟩
    · exact hfresh.later_run hec hal hstt hx hknows hru hsta hch hy hse
    · cases hact

end

/-! ## Runs -/

theorem inductive_fresh {c₀ : AccessConfig env} :
    Inductive (accessSystem env) (accessProtocol env) c₀ AccessRequest.start accessPost DropsAll
      Fresh := by
  constructor
  case spawn =>
    intro h c g q c' hru hc' hmeets hknows hfresh
    have hnone : g c.tasks.length = none := hknows.none_of_length_le le_rfl
    refine hfresh.frame rfl (by rw [hc']) (fun _ _ hrun => by cases hrun) hnone ?_ ?_
    · intro i x hx
      rcases update_some hx with ⟨rfl, rfl⟩ | ⟨-, hx⟩
      · simp [hc', Concurrency.Config.request, AccessRequest.start]
      · rw [hc']
        exact Concurrency.Config.request_append _ _ (hfresh.asked i x hx)
    · intro i x hx
      rcases update_some hx with ⟨-, rfl⟩ | ⟨-, hx⟩
      · exact .inr rfl
      · exact .inl hx
  case run =>
    intro h c g i o q cmd k x r s c' hru hta hec hc' hx hal hmeets hknows hfresh
    exact hfresh.run hec hal (by rw [hc']) hx hknows hta hmeets hru hc'
  case drop =>
    intro h c g i q cmd k c' hru hta hc' hmeets hknows hfresh
    refine hfresh.frame rfl (by rw [hc']) (fun _ _ hrun => by cases hrun)
      (hknows.none_of_length_le le_rfl) (fun j x hx => ?_) fun j x hx => .inl (update_none hx).2
    rw [hc', Concurrency.Config.request_set _ hta]
    exact hfresh.asked j x (update_none hx).2
  case crash =>
    intro h c g c' hru hc' hmeets hknows hfresh
    refine hfresh.frame rfl (by rw [hc']) (fun _ _ hrun => by cases hrun)
      (hknows.none_of_length_le le_rfl) (fun j x hx => ?_) fun j x hx => .inl (of_crash hx).2
    rw [hc', Concurrency.Config.request_interrupt]
    exact hfresh.asked j x (of_crash hx).2

/-- **No request is decided by a context older than a write that has returned before it started**,
in a run where every writer drops the context and nobody is about to put back an older one. -/
theorem later_requests_not_stale {s₀ : AccessState} {h : List (AccessStep env)}
    {c : AccessConfig env} (hruns : Runs ⟨s₀, []⟩ h c) (hmeets : ∀ st ∈ h, DropsAll st)
    {agentId : Uuid} {i j p : Nat} {context : PermissionContext} (hwrites : ChangesAt h p i)
    (hstarts : StartsAfter h j agentId i) (hanswer : c.answer j = some (.ok (.context context))) :
    Recent h p agentId context := by
  have hstr : @Fresh env [] ⟨s₀, []⟩ fun _ => none := by
    refine ⟨fun i x hx => ?_, fun i x agentId p hx => ?_, fun i j x agentId context p _ _ hx => ?_⟩
    all_goals cases hx
  obtain ⟨g, hknows, hfresh⟩ := inductive_fresh.holds
    (fun q => q.follows_handle) rfl hstr hruns hmeets
  obtain ⟨x, hx, hpost⟩ := hknows.exists_of_answer (hstarts.request hruns) hanswer
  exact hfresh.later i j x agentId context p hstarts hwrites hx (hpost.2.1 context rfl)

/-! ### Runs to evaluate -/

/-- `ChangesAt`, evaluated. -/
def changesAt (h : List (AccessStep env)) (p i : Nat) : Bool :=
  h[p]?.any fun st => match st.action with
    | .run j _ => j = i && (st.before.next i).any AccessCommand.changes
    | _ => false

/-- `StartsAfter`, evaluated. -/
def startsAfter (h : List (AccessStep env)) (j : Nat) (agentId : Uuid) (i : Nat) : Bool :=
  h.any fun st => match st.action, st.before.request i, st.before.answer i with
    | .spawn (.load agentId'), some q, some (.ok _) =>
      agentId' = agentId && st.before.tasks.length = j && q.writes = some agentId
    | _, _, _ => false

/-- The writer drops the context, and nobody is about to put one into the cache. -/
def undisturbed (st : AccessStep env) : Bool :=
  match st.action with
  | .run i o => match st.before.next i with
    | some (.cacheDelete _) => o ≠ .failed && st.before.tasks.all fun t => match t.next with
      | some (.cacheSet _ _) => false
      | _ => true
    | _ => true
  | _ => true

section

variable {h : List (AccessStep env)} {st : AccessStep env} {agentId : Uuid} {p i j : Nat}

theorem changesAt_of_eval (hev : changesAt h p i = true) : ChangesAt h p i := by
  obtain ⟨st, hst, hcha⟩ := (any_eq_true _ _).1 hev
  cases hact : st.action with
  | run j o =>
    rw [hact] at hcha
    obtain ⟨hj, hnx⟩ := Bool.and_eq_true_iff.1 hcha
    obtain rfl := of_decide_eq_true hj
    obtain ⟨cmd, hcmd, hch⟩ := (any_eq_true _ _).1 hnx
    exact ⟨st, o, cmd, hst, hact, hcmd, hch⟩
  | spawn _ | drop _ | crash =>
    rw [hact] at hcha
    cases hcha

theorem startsAfter_of_eval (hev : startsAfter h j agentId i = true) :
    StartsAfter h j agentId i := by
  obtain ⟨st, hmem, hsta⟩ := any_eq_true.1 hev
  obtain ⟨m, hm, hst⟩ := getElem_of_mem hmem
  split at hsta
  · rename_i agentId' q answer hact hreq hans
    simp only [Bool.and_eq_true, decide_eq_true_eq] at hsta
    obtain ⟨⟨rfl, hlen⟩, hwr⟩ := hsta
    exact ⟨m, st, q, answer, List.getElem?_eq_some_iff.2 ⟨hm, hst⟩, hact, hlen, hreq, hwr, hans⟩
  · cases hsta

theorem dropsAll_of_undisturbed (hev : undisturbed st = true) : DropsAll st := by
  intro i o q agentId hact _ _ hnx
  simp only [undisturbed, hact, hnx, Bool.and_eq_true, decide_eq_true_eq] at hev
  refine ⟨hev.1, fun j context hj => ?_⟩
  obtain ⟨t, ht, hput⟩ := bind_eq_some_iff.1 hj
  have hall := all_eq_true.1 hev.2 t (mem_of_getElem? ht)
  rw [hput] at hall
  cases hall

def answersContext (c : AccessConfig env) (i : Nat) (p : PermissionContext → Bool) : Bool :=
  match c.answer i with
  | some (.ok (.context context)) => p context
  | _ => false

theorem answersContext_iff {c : AccessConfig env} {p : PermissionContext → Bool} :
    answersContext c i p = true ↔
      ∃ context, c.answer i = some (.ok (.context context)) ∧ p context = true := by
  constructor
  · intro hev
    rw [answersContext] at hev
    split at hev
    · exact ⟨_, by assumption, hev⟩
    · cases hev
  · rintro ⟨context, hans, hp⟩
    rw [answersContext, hans]
    exact hp

theorem not_recent_of_eval
    (hev : (h.drop p).all (fun st => context ≠ contextOf env agentId st.after.state.rows) = true) :
    ¬ Recent h p agentId context := by
  rintro ⟨k, st, hle, hst, hctx⟩
  have hmem : st ∈ h.drop p := by
    refine mem_of_getElem? (i := k - p) ?_
    rw [getElem?_drop, Nat.add_sub_cancel' hle, hst]
  exact of_decide_eq_true (all_eq_true.1 hev st hmem) hctx

end

/-- The agent may use the notes, and the user can reach them. -/
def notesOn : AccessState := ⟨[⟨7, notesId, true, .array []⟩], [], [(1, notesId)], []⟩

/-- The hashes of no rules, with nothing enabled and with the notes enabled. -/
def notesEnv : Env := sample [("[]", "4f53cda18c2baa0c"),
  ("[[\"__enabled__\",\"b0b0b0b0-b0b0-b0b0-b0b0-b0b0b0b0b0b0\",\"allow\"]]",
    "e0e127f6801d3d88")]

/-- The user switches the notes off. -/
def switchOff : AccessRequest := .setConnectorAccess 1 7 notesId false

/-- The notes are switched off, and then the agent loads its context. -/
def loadAfterSwitch : List (Action AccessRequest) :=
  [.spawn switchOff, .run 0 .done, .run 0 .done, .run 0 .done, .run 0 .done,
    .spawn (.load 7), .run 1 .done, .run 1 .done, .run 1 .done]

theorem load_after_switch_recent :
    ∃ (h : List (AccessStep notesEnv)) (c : _), Runs ⟨notesOn, []⟩ h c ∧ (∀ st ∈ h, DropsAll st) ∧
      ∃ context, ChangesAt h 3 0 ∧ StartsAfter h 1 7 0 ∧
        c.answer 1 = some (.ok (.context context)) ∧ Recent h 3 7 context := by
  obtain ⟨h, c, hru, hmeets, hch, hsta, hans⟩ :=
    exists_runs (⟨notesOn, []⟩ : AccessConfig notesEnv) loadAfterSwitch
      (fun h c => h.all undisturbed = true ∧ changesAt h 3 0 = true ∧ startsAfter h 1 7 0 = true ∧
        answersContext c 1 (fun _ => true) = true)
      (by decide +kernel)
  have hdro : ∀ st ∈ h, DropsAll st := fun st hst =>
    dropsAll_of_undisturbed (all_eq_true.1 hmeets st hst)
  obtain ⟨context, hctx, -⟩ := answersContext_iff.1 hans
  have hcha := changesAt_of_eval hch
  have hstr := startsAfter_of_eval hsta
  exact ⟨h, c, hru, hdro, context, hcha, hstr, hctx,
    later_requests_not_stale hru hdro hcha hstr hctx⟩

/-- A request reads the rows; the notes are switched off; the request puts what it has read into the
cache; and a request that starts now finds it there. -/
def switchBetween : List (Action AccessRequest) :=
  [.spawn (.load 7), .run 0 .done, .run 0 .done,
    .spawn switchOff, .run 1 .done, .run 1 .done, .run 1 .done, .run 1 .done,
    .run 0 .done, .spawn (.load 7), .run 2 .done]

/-- The notes have been switched off, and a request that starts later may still use them. -/
theorem stale_context_put_back :
    ∃ (h : List (AccessStep notesEnv)) (c : _), Runs ⟨notesOn, []⟩ h c ∧ ∃ context,
      ChangesAt h 6 1 ∧ StartsAfter h 2 7 1 ∧ c.answer 2 = some (.ok (.context context)) ∧
        context.isConnectorEnabled notesId = true ∧ ¬ Recent h 6 7 context := by
  obtain ⟨h, c, hru, hch, hsta, hans⟩ :=
    exists_runs (⟨notesOn, []⟩ : AccessConfig notesEnv) switchBetween
      (fun h c => changesAt h 6 1 = true ∧ startsAfter h 2 7 1 = true ∧
        answersContext c 2 (fun context => context.isConnectorEnabled notesId &&
          (h.drop 6).all fun st => context ≠ contextOf notesEnv 7 st.after.state.rows) = true)
      (by decide +kernel)
  obtain ⟨context, hctx, hp⟩ := answersContext_iff.1 hans
  obtain ⟨hen, hall⟩ := Bool.and_eq_true_iff.1 hp
  exact ⟨h, c, hru, context, changesAt_of_eval hch, startsAfter_of_eval hsta, hctx,
    hen, not_recent_of_eval hall⟩

end Nasiko.McpGateway
