import Nasiko.Json.Serde
import Nasiko.Text.Uuid

/-!
# Requests to a human

An agent that needs an answer, a credential or a permission waits for a human. What it waits for is
a row of `hitl_requests`: a question, the human's answer once there is one, and how far the answer
has been delivered. This module has the row, the ways to make one, and who may act on it.

A time is a number of microseconds.
-/

namespace Nasiko.Hitl

/-- A document; the numbers are kept as they were written. -/
abbrev Value := Json Str

abbrev Time := Int

def seconds (n : Int) : Time := n * 1000000

def minutes (n : Int) : Time := seconds (n * 60)

def hours (n : Int) : Time := minutes (n * 60)

def days (n : Int) : Time := hours (n * 24)

/-! ## The columns with a fixed set of values -/

inductive HitlKind where
  | inputRequired
  | authRequired
  | toolApproval
  deriving DecidableEq

/-- Where a request comes from: a chat, or a tool call that the gateway has held back. -/
inductive HitlOrigin where
  | directChat
  | agentProxy
  | orchestrator
  | maf
  | mcpTool
  deriving DecidableEq

inductive HitlStatus where
  | pending
  | resolved
  | rejected
  | expired
  | canceled
  deriving DecidableEq

def HitlStatus.asStr : HitlStatus → Str
  | pending => "pending"
  | resolved => "resolved"
  | rejected => "rejected"
  | expired => "expired"
  | canceled => "canceled"

/-- How far the decision has been delivered. An attempt is under way while the row is claimed and
the delivery has not started to count as ended. -/
inductive ResumeStatus where
  | notStarted
  | completed
  | failed
  | deliveryOutcomeUnknown
  | skipped
  deriving DecidableEq

def decisionApprove : Str := "approve"
def decisionReject : Str := "reject"
def grantScopeOnce : Str := "once"
def grantScopeSession : Str := "session"
def authActionStart : Str := "start"
def authActionConfirm : Str := "confirm"
def authOutcomeConfirmed : Str := "confirmed"
def authOutcomeDenied : Str := "denied"
def authReplyAuthorized : Str := "authorized"

/-! ## Rows -/

/-- A row of `hitl_requests`. -/
structure HitlRequest where
  id : Uuid
  kind : HitlKind
  origin : HitlOrigin
  status : HitlStatus
  resumeStatus : ResumeStatus
  agentId : Uuid
  ownerUserId : Uuid
  resolvedBy : Option Uuid
  taskId : Option Str
  contextId : Option Str
  chatSessionId : Option Str
  mafExecutionId : Option Uuid
  mafStepIndex : Option Int
  connectorId : Option Uuid
  toolName : Option Str
  argumentsHash : Option Str
  consumedAt : Option Time
  question : Value
  humanResponse : Option Value
  resumeClaimedAt : Option Time
  resumeDispatchAttempts : Int
  resumeLastError : Option Str
  createdAt : Time
  expiresAt : Option Time
  resolvedAt : Option Time

/-- A request that is not stored yet. -/
structure NewHitlRequest where
  kind : HitlKind
  origin : HitlOrigin
  agentId : Uuid
  ownerUserId : Uuid
  taskId : Option Str
  contextId : Option Str
  chatSessionId : Option Str
  mafExecutionId : Option Uuid
  mafStepIndex : Option Int
  connectorId : Option Uuid
  toolName : Option Str
  argumentsHash : Option Str
  question : Value

namespace NewHitlRequest

def conversational (origin : HitlOrigin) (kind : HitlKind) (agentId ownerUserId : Uuid)
    (taskId contextId : Str) (chatSessionId : Option Str) (question : Value) : NewHitlRequest where
  kind := kind
  origin := origin
  agentId := agentId
  ownerUserId := ownerUserId
  taskId := some taskId
  contextId := some contextId
  chatSessionId := chatSessionId
  mafExecutionId := none
  mafStepIndex := none
  connectorId := none
  toolName := none
  argumentsHash := none
  question := question

variable (kind : HitlKind) (agentId ownerUserId : Uuid) (taskId contextId : Str)

def directChat (question : Value) : NewHitlRequest :=
  conversational .directChat kind agentId ownerUserId taskId contextId none question

def agentProxy (question : Value) : NewHitlRequest :=
  conversational .agentProxy kind agentId ownerUserId taskId contextId none question

def orchestrator (chatSessionId : Str) (question : Value) : NewHitlRequest :=
  conversational .orchestrator kind agentId ownerUserId taskId contextId
    (some chatSessionId) question

def withChatSessionId (req : NewHitlRequest) (id : Option Str) : NewHitlRequest :=
  { req with chatSessionId := id }

/-- The row that an `INSERT` makes: the other columns have their defaults. -/
def row (req : NewHitlRequest) (id : Uuid) (createdAt expiresAt : Time) : HitlRequest where
  id := id
  kind := req.kind
  origin := req.origin
  status := .pending
  resumeStatus := .notStarted
  agentId := req.agentId
  ownerUserId := req.ownerUserId
  resolvedBy := none
  taskId := req.taskId
  contextId := req.contextId
  chatSessionId := req.chatSessionId
  mafExecutionId := req.mafExecutionId
  mafStepIndex := req.mafStepIndex
  connectorId := req.connectorId
  toolName := req.toolName
  argumentsHash := req.argumentsHash
  consumedAt := none
  question := req.question
  humanResponse := none
  resumeClaimedAt := none
  resumeDispatchAttempts := 0
  resumeLastError := none
  createdAt := createdAt
  expiresAt := some expiresAt
  resolvedAt := none

end NewHitlRequest

/-- A grant of a tool for a conversation: a row of `mcp_session_tool_grants`. -/
structure SessionGrant where
  agentId : Uuid
  connectorId : Uuid
  toolName : Str
  contextId : Str
  grantedBy : Uuid
  hitlRequestId : Option Uuid
  expiresAt : Time

/-! ## Who may act -/

structure HitlIdentity where
  userId : Uuid
  isSuperuser : Bool

/-- The owner of a request may act on it, and a superuser; the rule is the same for every action. -/
def authorizeHitlAction (identity : HitlIdentity) (request : HitlRequest) : Bool :=
  identity.isSuperuser || identity.userId == request.ownerUserId

/-! ## Decisions -/

inductive ResolveDecision where
  | approve
  | reject
  deriving DecidableEq

namespace ResolveDecision

def targetStatus : ResolveDecision → HitlStatus
  | approve => .resolved
  | reject => .rejected

def asStr : ResolveDecision → Str
  | approve => decisionApprove
  | reject => decisionReject

def parse (s : Str) : Option ResolveDecision :=
  if s = decisionApprove then some approve
  else if s = decisionReject then some reject
  else none

end ResolveDecision

/-- Whether another attempt to deliver a decision could end better. -/
inductive FailureKind where
  | permanent
  | retryable (maxAttempts : Int)

def FailureKind.threshold : FailureKind → Int
  | permanent => 0
  | retryable maxAttempts => maxAttempts

/-! ## Mirrors

An agent that waits for a tool pauses its own task as well, and names the row of the gateway in the
metadata of its question. The row of the pause is the mirror of the other one. -/

/-- `question->'metadata'->>'hitl_request_id'`, where it is a string: the text of another value is
never the text of an id. -/
def linkText (question : Value) : Option Str :=
  ((question.get "metadata").bind fun m => m.get "hitl_request_id").bind Json.asStr

/-- The origins that have a task to go on with. -/
def HitlOrigin.conversational : HitlOrigin → Bool
  | directChat | agentProxy | maf | orchestrator => true
  | mcpTool => false

/-- Whether a row that an agent has pointed to is the one it may point to. -/
def isValidMcpMirrorLink (linked : HitlRequest) (ownerUserId agentId : Uuid) : Bool :=
  linked.ownerUserId == ownerUserId && linked.origin == .mcpTool && linked.status == .pending &&
    linked.agentId == agentId

end Nasiko.Hitl
