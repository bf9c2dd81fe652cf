import Nasiko.Hitl.Types
import Nasiko.Sql.Table

/-!
# The statements on `hitl_requests`

Every statement that reads or writes the requests and the session grants, as Postgres carries it
out. A statement is one step. What it does to the rows is said once, by `Statement.effect`: it
inserts a row, or it changes the rows that its `WHERE` selects, or it leaves them.

`now()`, `gen_random_uuid()`, the rows that another transaction holds locked at the moment and the
table of the chat sessions come from the `World`, which changes on its own.
-/

namespace Nasiko.Hitl

open Sql

/-! ## The table -/

/-- `chk_hitl_tool_approval_identity` and `chk_hitl_mcp_auth_required_identity`. -/
def HitlRequest.checked (r : HitlRequest) : Bool :=
  (r.kind != .toolApproval || (r.connectorId.isSome && r.toolName.isSome && r.contextId.isSome)) &&
    (r.kind != .authRequired || r.origin != .mcpTool ||
      (r.connectorId.isSome && r.contextId.isSome))

/-- Two values of a column, or a column and a bound value; `NULL` is equal to nothing. -/
def sameColumn {β : Type} [BEq β] (a b : Option β) : Bool := a.isSome && a == b

variable (a b : HitlRequest)

/-- `uq_hitl_pending_per_task`. -/
def clashPerTask : Bool :=
  a.ownerUserId == b.ownerUserId && a.agentId == b.agentId && sameColumn a.taskId b.taskId

/-- `uq_hitl_pending_per_tool_call`. -/
def clashPerToolCall : Bool :=
  a.kind == .toolApproval && b.kind == .toolApproval && a.ownerUserId == b.ownerUserId &&
    a.agentId == b.agentId && sameColumn a.connectorId b.connectorId &&
    sameColumn a.toolName b.toolName && sameColumn a.contextId b.contextId

/-- `uq_hitl_pending_per_connector_auth`. -/
def clashPerConnectorAuth : Bool :=
  a.kind == .authRequired && b.kind == .authRequired && a.origin == .mcpTool &&
    b.origin == .mcpTool && a.ownerUserId == b.ownerUserId && a.agentId == b.agentId &&
    sameColumn a.connectorId b.connectorId && sameColumn a.contextId b.contextId

/-- The unique indexes, which are on the pending rows only. -/
def HitlRequest.clash : Bool :=
  a.status == .pending && b.status == .pending &&
    (clashPerTask a b || clashPerToolCall a b || clashPerConnectorAuth a b)

/-- `hitl_requests`. -/
def hitlSchema : Schema HitlRequest Uuid where
  key := HitlRequest.id
  check := HitlRequest.checked
  clash := HitlRequest.clash

abbrev Requests := Table hitlSchema

/-! ## What is outside -/

/-- A row of `chat_sessions`. -/
structure ChatSession where
  sessionId : Str
  userId : Uuid
  agentId : Option Uuid
  deleted : Bool

/-- Why a nudge was not delivered. -/
inductive NotifyError where
  | missingContextId (id : Uuid)
  | endpointResolution (agentId : Uuid) (reason : Str) (isPermanent : Bool)
  | flowNotLive (contextId : Str)
  | contextNotOwned (contextId : Str)
  | transport (error : Str)
  | peerError (error : Str)

namespace NotifyError

def isPermanent : NotifyError → Bool
  | missingContextId _ | flowNotLive _ | contextNotOwned _ => true
  | endpointResolution _ _ permanent => permanent
  | transport _ | peerError _ => false

def toStr : NotifyError → Str
  | missingContextId id =>
    "hitl request " ++ Uuid.toStr id ++ " has no context_id to resume against"
  | endpointResolution agentId reason _ =>
    "could not resolve a live endpoint for agent " ++ Uuid.toStr agentId ++ ": " ++
      reason
  | flowNotLive contextId =>
    "context " ++ contextId ++ " names a flow that is no longer live, so the agent's "
      ++ "retried tool call could not be authorized"
  | contextNotOwned contextId =>
    "context " ++ contextId ++ " does not name a chat session owned by this request's "
      ++ "own user, so no session_traces mapping could be registered"
  | transport error => "transport error delivering resume notification: " ++ error
  | peerError error => "peer rejected the resume notification: " ++ error

end NotifyError

/-- What an agent makes of a decision that was sent to it. -/
inductive AgentReply where
  /-- The request did not get through, as far as the sender can tell. -/
  | requestFailed (error : Str)
  | httpStatus (status : Str)
  /-- The response broke off or was not understood. -/
  | unclassified
  | ended
  /-- The agent waits for the next answer. -/
  | paused (kind : HitlKind) (question : Value)

/-- What is outside of the requests and the grants. -/
structure World where
  /-- The clock of Postgres. -/
  now : Time
  /-- The clock of the server. -/
  utc : Time
  /-- What `gen_random_uuid()` draws next. -/
  newId : Uuid
  /-- The rows that are held locked by a transaction under way, for `SKIP LOCKED`. -/
  locked : List Uuid
  chatSessions : List ChatSession
  /-- What a connection that fails says. -/
  ioError : Str
  notifyError : NotifyError
  agentName : Option Str
  endpoint : Except Str Str
  flowGuard : Except Str Unit
  agentReply : AgentReply
  mafSnapshot : Option Str

/-! ## Statements -/

inductive DbError where
  | uniqueViolation
  | checkViolation
  | foreignKeyViolation
  | other (text : Str)

inductive HitlError where
  | db (e : DbError)
  | notFound (id : Uuid)

def DbError.ofViolation : Violation → DbError
  | .unique => .uniqueViolation
  | .check => .checkViolation

/-- What `find_existing_pending` looks for. -/
inductive PendingKey where
  | toolCall (ownerUserId agentId : Uuid) (connectorId : Option Uuid)
      (toolName contextId : Option Str)
  | connectorAuth (ownerUserId agentId : Uuid) (connectorId : Option Uuid) (contextId : Option Str)
  | task (ownerUserId agentId : Uuid) (taskId : Option Str)

def PendingKey.selects : PendingKey → HitlRequest → Bool
  | toolCall owner agent connector tool context, r =>
    r.status == .pending && r.kind == .toolApproval && r.ownerUserId == owner &&
      r.agentId == agent &&
      sameColumn r.connectorId connector && sameColumn r.toolName tool &&
        sameColumn r.contextId context
  | connectorAuth owner agent connector context, r =>
    r.status == .pending && r.kind == .authRequired && r.origin == .mcpTool &&
      r.ownerUserId == owner && r.agentId == agent && sameColumn r.connectorId connector &&
      sameColumn r.contextId context
  | task owner agent taskId, r =>
    r.status == .pending && r.ownerUserId == owner && r.agentId == agent &&
      sameColumn r.taskId taskId

inductive Statement where
  | insert (req : NewHitlRequest) (expiresAt : Time)
  /-- `INSERT … ON CONFLICT … DO UPDATE SET expires_at`; the key is the conflict target. -/
  | insertOrRefresh (req : NewHitlRequest) (conflict : PendingKey) (expiresAt : Time)
  | selectById (id : Uuid)
  | selectPending (key : PendingKey)
  | updateResolve (id : Uuid) (status : HitlStatus) (response : Value) (resolvedBy : Uuid)
  | updateResolveConnector (ownerUserId connectorId : Uuid) (response : Value)
  | updateCancel (id canceledBy : Uuid)
  | updateExpire
  | updateAuthStart (id : Uuid)
  /-- The transaction of `HitlStore::claim_for_resume`. -/
  | claimForDelivery (staleBefore : Time)
  | updateCompleted (id : Uuid)
  | updateFailed (id : Uuid) (error : Str) (threshold : Int)
  | updateUnknown (id : Uuid)
  /-- `repo::claim_for_resume`. -/
  | claimForResume
  | finishResume (id : Uuid) (status : ResumeStatus) (attempts : Int) (lastError : Option Str)
  | skipResume (id : Uuid)
  | recoverStuck (leaseMinutes : Int)
  | requeueResume (id : Uuid)
  | selectLinked (mcpRowId ownerUserId agentId : Uuid)
  | selectMirror (ownerUserId agentId linkedId : Uuid)
  | retarget (id : Uuid) (taskId contextId : Str)
  | claimToolApproval (ownerUserId agentId connectorId : Uuid) (toolName contextId : Str)
  | isSession (sessionId : Str) (userId agentId : Uuid)
  | sessionsOf (userId agentId : Uuid)
  | sessionExists (sessionId : Str)
  | insertGrant (grant : SessionGrant)
  | selectGrant (grantedBy agentId connectorId : Uuid) (toolName contextId : Str)
  | sweepGrants

abbrev Statement.Reply : Statement → Type
  | insert _ _ => HitlRequest
  | insertOrRefresh _ _ _ => HitlRequest
  | selectById _ => Option HitlRequest
  | selectPending _ => Option HitlRequest
  | updateResolve _ _ _ _ => Option HitlRequest
  | updateResolveConnector _ _ _ => List HitlRequest
  | updateCancel _ _ => Option HitlRequest
  | updateExpire => Nat
  | updateAuthStart _ => Option HitlRequest
  | claimForDelivery _ => Option HitlRequest
  | updateCompleted _ => Unit
  | updateFailed _ _ _ => Unit
  | updateUnknown _ => Unit
  | claimForResume => Option HitlRequest
  | finishResume _ _ _ _ => Option HitlRequest
  | skipResume _ => Unit
  | recoverStuck _ => Nat
  | requeueResume _ => Option HitlRequest
  | selectLinked _ _ _ => Option HitlRequest
  | selectMirror _ _ _ => Option Uuid
  | retarget _ _ _ => Unit
  | claimToolApproval _ _ _ _ _ => Option HitlRequest
  | isSession _ _ _ => Bool
  | sessionsOf _ _ => List Str
  | sessionExists _ => Bool
  | insertGrant _ => Unit
  | selectGrant _ _ _ _ _ => Bool
  | sweepGrants => Nat

/-! ## What a statement does -/

/-- What an `UPDATE` does: which rows it selects, and what it sets in them. -/
structure Update where
  selects : HitlRequest → Bool
  set : HitlRequest → HitlRequest
  id_set : ∀ r, (set r).id = r.id := by intro; rfl

inductive Effect where
  | none
  | insert (r : HitlRequest)
  | update (u : Update)

/-- `human_response` with `auth_outcome` set to `started`, where it is a document that can have
it. -/
def authStarted (response : Option Value) : Except DbError Value :=
  match response.getD (.object []) with
  | .object fields => .ok (.object (Entries.insert "auth_outcome" (.string "started")
      fields))
  | .array _ =>
    .error (.other "path element at position 1 is not an integer: \"auth_outcome\"")
  | _ => .error (.other "cannot set path in scalar")

/-- A human has decided about the row. -/
def HitlRequest.answered (r : HitlRequest) : Bool := r.status == .resolved || r.status == .rejected

/-- The rows that `repo::claim_for_resume` takes one of. -/
def claimable (w : World) (r : HitlRequest) : Bool :=
  r.answered && r.resumeStatus == .notStarted && r.resumeClaimedAt.isNone && r.origin == .mcpTool &&
    !w.locked.contains r.id

/-- The rows that `HitlStore::claim_for_resume` takes one of. -/
def deliverable (w : World) (staleBefore : Time) (r : HitlRequest) : Bool :=
  r.answered && r.resumeStatus == .notStarted && r.resumeClaimedAt.all (· < staleBefore) &&
    r.origin.conversational && !w.locked.contains r.id

/-- The decisions that are good for one call. -/
def singleUse (w : World) (ownerUserId agentId connectorId : Uuid) (toolName contextId : Str)
    (r : HitlRequest) : Bool :=
  r.kind == .toolApproval && r.answered && r.consumedAt.isNone && r.ownerUserId == ownerUserId &&
    r.agentId == agentId && r.connectorId == some connectorId && r.toolName == some toolName &&
    r.contextId == some contextId &&
    ((r.humanResponse.bind fun v => v.get "scope").bind Json.asStr) != some grantScopeSession &&
    !w.locked.contains r.id

/-- `ORDER BY created_at`. -/
def oldestFirst : Bool := a.createdAt ≤ b.createdAt

/-- `ORDER BY created_at DESC`. -/
def newestFirst : Bool := b.createdAt ≤ a.createdAt

/-- `ORDER BY resolved_at`, where `NULL` comes last. -/
def resolvedFirst : Bool :=
  match a.resolvedAt, b.resolvedAt with
  | some s, some t => s ≤ t
  | some _, none => true
  | none, some _ => false
  | none, none => true

/-- `ORDER BY resolved_at DESC NULLS LAST, created_at DESC`. -/
def resolvedLast : Bool :=
  match a.resolvedAt, b.resolvedAt with
  | some s, some t => t < s || (s = t && newestFirst a b)
  | some _, none => true
  | none, some _ => false
  | none, none => newestFirst a b

/-- A pending row of a conversation that names the row of the gateway. -/
def mirrors (mcpRowId ownerUserId agentId : Uuid) (r : HitlRequest) : Bool :=
  r.origin.conversational && r.status == .pending && r.ownerUserId == ownerUserId &&
    r.agentId == agentId && linkText r.question == some (Uuid.toStr mcpRowId)

namespace Statement

/-- The row that a statement with `LIMIT 1` picks. -/
def pick (w : World) (t : Requests) : Statement → Option HitlRequest
  | claimForDelivery staleBefore => t.firstBy (deliverable w staleBefore) resolvedFirst
  | claimForResume => t.firstBy (claimable w) oldestFirst
  | claimToolApproval owner agent connector tool context =>
    t.firstBy (singleUse w owner agent connector tool context) resolvedLast
  | selectLinked mcpRowId owner agent => t.firstBy (mirrors mcpRowId owner agent) newestFirst
  | selectMirror owner agent linkedId => t.firstBy (fun r => r.ownerUserId == owner &&
      r.agentId == agent && r.status == .pending &&
      linkText r.question == some (Uuid.toStr linkedId)) fun _ _ => true
  | selectPending key => t.firstBy key.selects fun _ _ => true
  | _ => none

def effect (w : World) (t : Requests) : Statement → Effect
  | insert req expiresAt => .insert (req.row w.newId w.now expiresAt)
  | insertOrRefresh req conflict expiresAt =>
    if t.rows.any conflict.selects then
      .update
        { selects := conflict.selects, set := fun r => { r with expiresAt := some expiresAt } }
    else .insert (req.row w.newId w.now expiresAt)
  | updateResolve id status response resolvedBy => .update
    { selects := fun r => r.id == id && r.status == .pending
      set := fun r => { r with
        status := status
        humanResponse := some response
        resolvedBy := some resolvedBy
        resolvedAt := some w.now } }
  | updateResolveConnector owner connector response => .update
    { selects := fun r => r.ownerUserId == owner && r.connectorId == some connector &&
        r.status == .pending && r.kind == .authRequired && r.origin == .mcpTool
      set := fun r => { r with
        status := .resolved
        humanResponse := some response
        resolvedBy := some owner
        resolvedAt := some w.now } }
  | updateCancel id canceledBy => .update
    { selects := fun r => r.id == id && r.status == .pending
      set := fun r => { r with
        status := .canceled, resolvedBy := some canceledBy, resolvedAt := some w.now } }
  | updateExpire => .update
    { selects := fun r => r.status == .pending && r.expiresAt.any (· < w.now)
      set := fun r => { r with status := .expired } }
  | updateAuthStart id => .update
    { selects := fun r => r.id == id && r.status == .pending && r.kind == .authRequired
      set := fun r => { r with
        humanResponse := match authStarted r.humanResponse with
          | .ok v => some v
          | .error _ => r.humanResponse } }
  | claimForDelivery staleBefore => .update
    { selects := fun r => (pick w t (claimForDelivery staleBefore)).any fun x => x.id == r.id
      set := fun r => { r with
        resumeClaimedAt := some w.now
        resumeDispatchAttempts := r.resumeDispatchAttempts + 1 } }
  | updateCompleted id => .update
    { selects := fun r => r.id == id
      set := fun r => { r with resumeStatus := .completed, resumeClaimedAt := none } }
  | updateFailed id error threshold => .update
    { selects := fun r => r.id == id
      set := fun r => { r with
        resumeLastError := some error
        resumeClaimedAt := none
        resumeStatus :=
          if r.resumeDispatchAttempts ≥ threshold then .failed else r.resumeStatus } }
  | updateUnknown id => .update
    { selects := fun r => r.id == id
      set := fun r => { r with resumeStatus := .deliveryOutcomeUnknown, resumeClaimedAt := none } }
  | claimForResume => .update
    { selects := fun r => (pick w t claimForResume).any fun x => x.id == r.id
      set := fun r => { r with resumeClaimedAt := some w.now } }
  | finishResume id status attempts lastError => .update
    { selects := fun r => r.id == id && r.resumeStatus == .notStarted && r.resumeClaimedAt.isSome
      set := fun r => { r with
        resumeStatus := status
        resumeDispatchAttempts := attempts
        resumeLastError := lastError } }
  | skipResume id => .update
    { selects := fun r => r.id == id && r.resumeStatus == .notStarted && r.resumeClaimedAt.isNone
      set := fun r => { r with resumeStatus := .skipped, resumeClaimedAt := some w.now } }
  | recoverStuck leaseMinutes => .update
    { selects := fun r => r.answered && r.resumeStatus == .notStarted &&
        r.resumeClaimedAt.any (· < w.now - minutes leaseMinutes) && r.origin == .mcpTool
      set := fun r => { r with resumeStatus := .deliveryOutcomeUnknown } }
  | requeueResume id => .update
    { selects := fun r => r.id == id && r.resumeStatus == .deliveryOutcomeUnknown
      set := fun r => { r with
        resumeStatus := .notStarted
        resumeClaimedAt := none
        resumeDispatchAttempts := 0
        resumeLastError := none } }
  | retarget id taskId contextId => .update
    { selects := fun r => r.id == id
      set := fun r => { r with taskId := some taskId, contextId := some contextId } }
  | claimToolApproval owner agent connector tool context => .update
    { selects := fun r => (pick w t (claimToolApproval owner agent connector tool context)).any
        fun x => x.id == r.id
      set := fun r => { r with consumedAt := some w.now } }
  | _ => .none

/-- Why Postgres refuses a statement before it looks at the constraints of the rows. -/
def refused (w : World) (t : Requests) : Statement → Option DbError
  | insert req _ =>
    if req.chatSessionId.all fun s => w.chatSessions.any fun c => c.sessionId == s then none
    else some .foreignKeyViolation
  | updateAuthStart id => (t.get id).bind fun r =>
    if r.status == .pending && r.kind == .authRequired then
      match authStarted r.humanResponse with
      | .ok _ => none
      | .error e => some e
    else none
  | _ => none

end Statement

/-- The rows that a statement returns, and the table after it. -/
def Effect.apply (t : Requests) : Effect → Except DbError (List HitlRequest × Requests)
  | none => .ok ([], t)
  | insert r =>
    match t.insert r with
    | .ok t' => .ok ([r], t')
    | .error v => .error (.ofViolation v)
  | update u =>
    match t.update u.selects u.set with
    | .ok t' => .ok ((t.rows.filter u.selects).map u.set, t')
    | .error v => .error (.ofViolation v)

structure Database where
  requests : Requests
  grants : List SessionGrant

/-- A session that the user has with the agent, or with the orchestrator. -/
def ChatSession.isOf (c : ChatSession) (userId agentId : Uuid) : Bool :=
  c.userId == userId && (c.agentId == some agentId || c.agentId.isNone) && !c.deleted

def SessionGrant.covers (g : SessionGrant) (grantedBy agentId connectorId : Uuid)
    (toolName contextId : Str) : Bool :=
  g.grantedBy == grantedBy && g.agentId == agentId && g.connectorId == connectorId &&
    g.toolName == toolName && g.contextId == contextId

namespace Statement

/-- What the statement answers, given the rows that it returns. -/
def answer (w : World) (db : Database) (returned : List HitlRequest) : (q : Statement) → q.Reply
  | insert req expiresAt => req.row w.newId w.now expiresAt
  | insertOrRefresh req _ expiresAt => returned.headD (req.row w.newId w.now expiresAt)
  | selectById id => db.requests.get id
  | selectPending key => pick w db.requests (selectPending key)
  | updateResolve _ _ _ _ => returned.head?
  | updateResolveConnector _ _ _ => returned
  | updateCancel _ _ => returned.head?
  | updateExpire => returned.length
  | updateAuthStart _ => returned.head?
  -- The row as it was selected, with the attempt counted.
  | claimForDelivery staleBefore => (pick w db.requests (claimForDelivery staleBefore)).map fun r =>
    { r with resumeDispatchAttempts := r.resumeDispatchAttempts + 1 }
  | updateCompleted _ => ()
  | updateFailed _ _ _ => ()
  | updateUnknown _ => ()
  | claimForResume => returned.head?
  | finishResume _ _ _ _ => returned.head?
  | skipResume _ => ()
  | recoverStuck _ => returned.length
  | requeueResume _ => returned.head?
  | selectLinked mcpRowId owner agent => pick w db.requests (selectLinked mcpRowId owner agent)
  | selectMirror owner agent linkedId =>
    (pick w db.requests (selectMirror owner agent linkedId)).map HitlRequest.id
  | retarget _ _ _ => ()
  | claimToolApproval _ _ _ _ _ => returned.head?
  | isSession sessionId userId agentId =>
    w.chatSessions.any fun c => c.sessionId == sessionId && c.isOf userId agentId
  | sessionsOf userId agentId =>
    ((w.chatSessions.filter fun c => c.isOf userId agentId).map ChatSession.sessionId).take 2
  | sessionExists sessionId => w.chatSessions.any fun c => c.sessionId == sessionId
  | insertGrant _ => ()
  | selectGrant by_ agent connector tool context =>
    db.grants.any fun g => g.covers by_ agent connector tool context && w.now < g.expiresAt
  | sweepGrants => (db.grants.filter fun g => g.expiresAt < w.now).length

def grants (w : World) (gs : List SessionGrant) : Statement → List SessionGrant
  | insertGrant g => gs ++ [g]
  | sweepGrants => gs.filter fun g => !(g.expiresAt < w.now)
  | _ => gs

/-- Carry out a statement. -/
def run (w : World) (db : Database) (q : Statement) : Except DbError (q.Reply × Database) :=
  match q.refused w db.requests with
  | some e => .error e
  | none =>
    match (q.effect w db.requests).apply db.requests with
    | .error e => .error e
    | .ok (returned, t) => .ok (q.answer w db returned, ⟨t, q.grants w db.grants⟩)

end Statement

end Nasiko.Hitl
