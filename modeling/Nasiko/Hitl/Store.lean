import Nasiko.Concurrency.System
import Nasiko.Hitl.Database

/-!
# The store

The functions of `store.rs` and `repo.rs` as programs over commands: statements on the database, the
clock of the server, the registry of the streams that clients wait on, and the messages to the
agents. `State.exec` carries out one command. A command may fail, or be carried out while its answer
is lost; a message to an agent that fails may still have reached the agent.
-/

namespace Nasiko.Hitl

open Concurrency Program

/-- What the server keeps, and the world around it. -/
structure State where
  db : Database
  /-- The ids under which a stream is found besides its own; they are in memory. -/
  aliases : List (Uuid × Uuid)
  world : World

inductive Command where
  | sql (q : Statement)
  /-- `Utc::now()`. -/
  | utcNow
  | alias (mcpRowId linkedId : Uuid)
  /-- The nudge of the dispatcher for the rows of the gateway. -/
  | notify (row : HitlRequest)
  | agentName (agentId : Uuid)
  | resolveEndpoint (agentId : Uuid) (name : Str)
  | flowGuard (agentId : Uuid) (name : Str)
  /-- The rows of `flows`, `flow_participants` and `session_traces` for a resume. -/
  | registerFlow (row : HitlRequest) (sessionId : Str)
  /-- The decision, sent to the task that waits for it. -/
  | sendResume (row : HitlRequest) (taskId contextId answer : Str)
  | mafSnapshot (executionId : Uuid)
  | redisConnect
  | enqueueMaf (row : HitlRequest) (fields : List (Str × Str))
  /-- The world changes. -/
  | change (w : World)

abbrev Reply : Command → Type
  | .sql q => q.Reply
  | .utcNow => Time
  | .alias _ _ => Unit
  | .notify _ => Except NotifyError Unit
  | .agentName _ => Except Str (Option Str)
  | .resolveEndpoint _ _ => Except Str Str
  | .flowGuard _ _ => Except Str Unit
  | .registerFlow _ _ => Unit
  | .sendResume _ _ _ _ => AgentReply
  | .mafSnapshot _ => Except Str (Option Str)
  | .redisConnect => Except Str Unit
  | .enqueueMaf _ _ => Except Str Unit
  | .change _ => Unit

namespace State

variable (s : State)

/-- The error of a connection that fails. -/
def ioFailure {β : Type} : Except HitlError β := .error (.db (.other s.world.ioError))

/-- What somebody outside answers, or the text of the error. -/
def ask {β : Type} (o : Outcome) (b : β) : Except Str β :=
  match o with
  | .done => .ok b
  | _ => .error s.world.ioError

/-- A statement; if Postgres refuses it, nothing has changed. -/
def execSql (q : Statement) (o : Outcome) : Except HitlError q.Reply × State :=
  match o with
  | .failed => (s.ioFailure, s)
  | .done =>
    match q.run s.world s.db with
    | .ok (a, db) => (.ok a, { s with db := db })
    | .error e => (.error (.db e), s)
  | .lost =>
    match q.run s.world s.db with
    | .ok (_, db) => (s.ioFailure, { s with db := db })
    | .error _ => (s.ioFailure, s)

def exec (c : Command) (o : Outcome) : Except HitlError (Reply c) × State :=
  match c with
  | .sql q => s.execSql q o
  | .utcNow => (.ok s.world.utc, s)
  | .alias mcpRowId linkedId => (.ok (), { s with aliases := (mcpRowId, linkedId) :: s.aliases })
  | .notify _ =>
    match o with
    | .done => (.ok (.ok ()), s)
    | _ => (.ok (.error s.world.notifyError), s)
  | .agentName _ => (.ok (s.ask o s.world.agentName), s)
  | .resolveEndpoint _ _ => (.ok s.world.endpoint, s)
  | .flowGuard _ _ => (.ok s.world.flowGuard, s)
  | .registerFlow _ _ => (.ok (), s)
  | .sendResume _ _ _ _ =>
    match o with
    | .done => (.ok s.world.agentReply, s)
    | _ => (.ok (.requestFailed s.world.ioError), s)
  | .mafSnapshot _ => (.ok (s.ask o s.world.mafSnapshot), s)
  | .redisConnect => (.ok (s.ask o ()), s)
  | .enqueueMaf _ _ => (.ok (s.ask o ()), s)
  | .change w => (.ok (), { s with world := w })

end State

abbrev Prog (α : Type) := Program Command Reply HitlError α

def sql (q : Statement) : Prog q.Reply := perform (Command.sql q)

def utcNow : Prog Time := perform Command.utcNow

/-! ## `store.rs` -/

/-- The pending row that an `INSERT` can have collided with. -/
def NewHitlRequest.pendingKey (req : NewHitlRequest) : PendingKey :=
  match req.origin, req.kind with
  | .mcpTool, .toolApproval =>
    .toolCall req.ownerUserId req.agentId req.connectorId req.toolName req.contextId
  | .mcpTool, _ => .connectorAuth req.ownerUserId req.agentId req.connectorId req.contextId
  | _, _ => .task req.ownerUserId req.agentId req.taskId

def findExistingPending (req : NewHitlRequest) : Prog (Option HitlRequest) :=
  sql (.selectPending req.pendingKey)

variable (ttlDays : Int)

/-- A new row, or the pending one that is already there. -/
def create (req : NewHitlRequest) : Prog HitlRequest := do
  let now ← utcNow
  match ← attempt (sql (.insert req (now + days ttlDays))) with
  | .ok row => pure row
  | .error (.db .uniqueViolation) =>
    match ← findExistingPending req with
    | some existing => pure existing
    | none => fail (.db .uniqueViolation)
  | .error e => fail e

variable (id : Uuid)

def get : Prog (Option HitlRequest) := sql (.selectById id)

/-- Both are a success: a decision that comes second changes nothing. -/
inductive ResolveOutcome where
  | applied (row : HitlRequest)
  | alreadyDecided (row : HitlRequest)

/-- The row that a guarded update has changed, or the row as it is. -/
def outcomeOf (row : Option HitlRequest) : Prog ResolveOutcome := do
  match row with
  | some row => pure (.applied row)
  | none =>
    match ← get id with
    | some current => pure (.alreadyDecided current)
    | none => fail (.notFound id)

def resolve (humanResponse : Value) (resolvedBy : Uuid) (status : HitlStatus) :
    Prog ResolveOutcome := do
  let row ← sql (.updateResolve id status humanResponse resolvedBy)
  outcomeOf id row

def cancel (id canceledBy : Uuid) : Prog ResolveOutcome := do
  let row ← sql (.updateCancel id canceledBy)
  outcomeOf id row

/-- `HitlStore::claim_for_resume`. -/
def claimForDelivery (leaseSecs : Int) : Prog (Option HitlRequest) := do
  let now ← utcNow
  sql (.claimForDelivery (now - seconds leaseSecs))

def markResumeCompleted : Prog Unit := sql (.updateCompleted id)

def markResumeFailed (error : Str) (failure : FailureKind) : Prog Unit :=
  sql (.updateFailed id error failure.threshold)

def markResumeUnknown : Prog Unit := sql (.updateUnknown id)

def expireStale : Prog Nat := sql .updateExpire

def recordAuthStart : Prog (Option HitlRequest) := sql (.updateAuthStart id)

/-! ## `repo.rs` -/

variable (agentId ownerUserId connectorId : Uuid)

/-- A row of the gateway: its connector cannot be used until the user authenticates. -/
def newAuthRequired (contextId : Str) (question : Value) : NewHitlRequest where
  kind := .authRequired
  origin := .mcpTool
  agentId := agentId
  ownerUserId := ownerUserId
  taskId := none
  contextId := some contextId
  chatSessionId := none
  mafExecutionId := none
  mafStepIndex := none
  connectorId := some connectorId
  toolName := none
  argumentsHash := none
  question := question

/-- A row of the gateway: a tool may not run until the user agrees. -/
def newToolApproval (toolName contextId : Str) (question : Value) : NewHitlRequest :=
  { newAuthRequired agentId ownerUserId connectorId contextId question with
    kind := .toolApproval
    toolName := some toolName }

/-- `create_pending_auth_required_with_ttl` and `create_pending_tool_approval_with_ttl`: the
request, or the pending one for the same thing, which then lives on. -/
def createPending (req : NewHitlRequest) : Prog HitlRequest := do
  let now ← utcNow
  sql (.insertOrRefresh req req.pendingKey (now + days ttlDays))

def createPendingAuthRequired (contextId : Str) (question : Value) : Prog HitlRequest :=
  createPending ttlDays (newAuthRequired agentId ownerUserId connectorId contextId question)

def createPendingToolApproval (toolName contextId : Str) (question : Value) : Prog HitlRequest :=
  createPending ttlDays
    (newToolApproval agentId ownerUserId connectorId toolName contextId question)

def findLinkedDirectChatRow (mcpRowId ownerUserId agentId : Uuid) : Prog (Option HitlRequest) :=
  sql (.selectLinked mcpRowId ownerUserId agentId)

def skipResumeForMirroredRow : Prog Unit := sql (.skipResume id)

def authConfirmed : Value := .object [("auth_outcome", .string authOutcomeConfirmed)]

/-- The mirror of a row of the gateway gets the same decision, and the row itself is not
delivered. -/
def resolveLinkedDirectChatMirror (mcpRowId resolvedBy agentId : Uuid) : Prog Unit := do
  match ← findLinkedDirectChatRow mcpRowId resolvedBy agentId with
  | none => pure ()
  | some linked =>
    let _ ← sql (.updateResolve linked.id ResolveDecision.approve.targetStatus authConfirmed
      resolvedBy)
    let _ ← attempt (skipResumeForMirroredRow mcpRowId)
    pure ()

/-- The credential of a connector works again: everything that waits for it is resolved. -/
def resolvePendingAuthRequiredForConnector (ownerUserId connectorId : Uuid) :
    Prog (List HitlRequest) := do
  let response : Value := .object [("auth_outcome", .string authOutcomeConfirmed),
    ("decision", .string decisionApprove)]
  let resolved ← sql (.updateResolveConnector ownerUserId connectorId response)
  forEach (fun row : HitlRequest => do
    let _ ← attempt (resolveLinkedDirectChatMirror row.id ownerUserId row.agentId)
    pure ()) resolved
  pure resolved

def claimResolvedToolApproval (ownerUserId agentId connectorId : Uuid) (toolName contextId : Str) :
    Prog (Option HitlRequest) :=
  sql (.claimToolApproval ownerUserId agentId connectorId toolName contextId)

/-- The chat session that a grant is for: the current one if there is such a session, else the only
one of the user with the agent. -/
def resolveStableSessionContext (ownerUserId agentId : Uuid) (currentContextId : Str) :
    Prog (Option Str) := do
  if ← sql (.isSession currentContextId ownerUserId agentId) then pure (some currentContextId)
  else
    match ← sql (.sessionsOf ownerUserId agentId) with
    | [only] => pure (some only)
    | _ => pure none

def defaultSessionGrantTtlHours : Int := 24

def createSessionGrant (agentId connectorId : Uuid) (toolName contextId : Str) (grantedBy : Uuid)
    (hitlRequestId : Option Uuid) : Prog Unit := do
  let now ← utcNow
  sql (.insertGrant ⟨agentId, connectorId, toolName, contextId, grantedBy, hitlRequestId,
    now + hours defaultSessionGrantTtlHours⟩)

def hasActiveSessionGrant (grantedBy agentId connectorId : Uuid) (toolName contextId : Str) :
    Prog Bool :=
  sql (.selectGrant grantedBy agentId connectorId toolName contextId)

def sweepExpiredSessionGrants : Prog Nat := sql .sweepGrants

/-- `repo::claim_for_resume`. -/
def claimForResume : Prog (Option HitlRequest) := sql .claimForResume

def finishResume (resumeStatus : ResumeStatus) (attempts : Int)
    (lastError : Option Str) : Prog (Option HitlRequest) :=
  sql (.finishResume id resumeStatus attempts lastError)

def recoverStuckResumes (leaseMinutes : Int) : Prog Nat := sql (.recoverStuck leaseMinutes)

def requeueResume : Prog (Option HitlRequest) := sql (.requeueResume id)

end Nasiko.Hitl
