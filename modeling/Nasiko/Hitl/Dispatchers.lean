import Nasiko.Hitl.Router

/-!
# Delivery

There are two dispatchers. The one of the gateway claims a decided row of origin `mcp_tool` and
nudges the agent with a message of its own; a row is claimed once, and one whose outcome is not
known waits for a human. The other one claims the rows that have a task and sends the decision to
it; its claim is a lease, which another worker may take over when it has run out.
-/

namespace Nasiko.Hitl

open Concurrency Program Json Command

structure Config where
  ttlDays : Int
  resumeLeaseMinutes : Int
  maxAttempts : Nat
  retryDelaySecs : Int

def resumeRequestTimeoutSecs : Int := 300

/-- The lease of the first dispatcher, which is not shorter than a whole delivery. -/
def Config.effectiveLeaseMinutes (config : Config) : Int :=
  let attempts : Int := max config.maxAttempts 1
  max config.resumeLeaseMinutes
    ((attempts * resumeRequestTimeoutSecs + (attempts - 1) * config.retryDelaySecs + 59) / 60)

/-- The lease of the second dispatcher. -/
def Config.leaseSecs (config : Config) : Int :=
  max (config.resumeLeaseMinutes * 60) (resumeRequestTimeoutSecs + 60)

variable (config : Config)

/-! ## The dispatcher of the gateway -/

/-- Nudge the agent, and again if that failed and may succeed: the number of attempts, and the error
of the last one if it failed. -/
def notifyAgent (row : HitlRequest) (attempts : Nat) : Nat → Prog (Nat × Option Str)
  | 0 => do
    match ← perform (notify row) with
    | .ok () => pure (attempts, none)
    | .error e => pure (attempts, some e.toStr)
  | left + 1 => do
    match ← perform (notify row) with
    | .ok () => pure (attempts, none)
    | .error e =>
      if e.isPermanent then pure (attempts, some e.toStr)
      else notifyAgent row (attempts + 1) left

variable (row : HitlRequest)

/-- Deliver a row that was claimed. -/
def dispatchOne : Prog Unit := do
  let (attempts, error) ← notifyAgent row 1 (config.maxAttempts - 1)
  let status : ResumeStatus := if error.isNone then .completed else .failed
  let _ ← attempt (finishResume row.id status attempts error)
  pure ()

/-- One turn of the loop: claim a row, and deliver it. -/
def dispatch : Prog Unit := do
  match ← attempt claimForResume with
  | .ok (some row) => dispatchOne config row
  | .ok none => pure ()
  | .error _ => pure ()

def recover : Prog Unit := do
  let _ ← attempt (recoverStuckResumes config.effectiveLeaseMinutes)
  let _ ← attempt sweepExpiredSessionGrants
  pure ()

/-! ## The dispatcher of the tasks -/

def maxResumeAttempts : Int := 5

def retryable : FailureKind := .retryable maxResumeAttempts

/-- The chat session of a row: of its own, or the conversation with the agent. -/
def stableSessionId : Option Str := row.chatSessionId.or row.contextId

/-- The text that is sent to the agent. -/
def answerText : Str :=
  let member := fun key => row.humanResponse.bind fun r => r.get key
  match (member "answer").bind asArray with
  | some items =>
    List.intercalate "\n" (items.filterMap asStr ++
      ((member "custom_answer").bind asStr).toList)
  | none =>
    match (member "answer").bind asStr with
    | some answer => answer
    | none =>
      if (member "auth_outcome").bind asStr = some authOutcomeConfirmed then
        authReplyAuthorized
      else authOutcomeDenied

/-- Record that a delivery has failed; that this itself fails is ignored. -/
def giveUp (error : Str) (failure : FailureKind) : Prog Unit := do
  let _ ← attempt (markResumeFailed row.id error failure)
  pure ()

def outcomeUnknown : Prog Unit := do
  let _ ← attempt (markResumeUnknown row.id)
  pure ()

/-- The decision has arrived. -/
def delivered : Prog Unit := do
  match ← attempt (markResumeCompleted row.id) with
  | .ok () => pure ()
  | .error _ => outcomeUnknown row

/-- The row of a task that has paused again. -/
def followUp (kind : HitlKind) (question : Value) (taskId contextId : Str) :
    Option NewHitlRequest :=
  match row.origin with
  | .agentProxy =>
    some (.agentProxy kind row.agentId row.ownerUserId taskId contextId question)
  | .orchestrator => row.chatSessionId.map fun session =>
    .orchestrator kind row.agentId row.ownerUserId taskId contextId session question
  | _ => some ((NewHitlRequest.directChat kind row.agentId row.ownerUserId taskId contextId
      question).withChatSessionId row.chatSessionId)

def createFollowUp (kind : HitlKind) (question : Value) (taskId contextId : Str) : Prog Unit :=
  match followUp row kind question taskId contextId with
  | none => pure ()
  | some req => do
    let _ ← attempt (create config.ttlDays req)
    pure ()

/-- Send the decision to the task that waits for it. -/
def deliverTask (taskId contextId : Str) : Prog Unit := do
  match ← perform (agentName row.agentId) with
  | .error e => giveUp row ("database error resolving agent name: " ++ e) retryable
  | .ok none => giveUp row "agent no longer exists" retryable
  | .ok (some name) =>
    match ← perform (resolveEndpoint row.agentId name) with
    | .error e => giveUp row e retryable
    | .ok _ =>
      match ← perform (flowGuard row.agentId name) with
      | .error rejection =>
        giveUp row ("flow guard rejected resume: " ++ rejection) retryable
      | .ok () =>
        perform (registerFlow row ((stableSessionId row).getD contextId))
        match ← perform (sendResume row taskId contextId (answerText row)) with
        | .requestFailed e => giveUp row ("agent request failed: " ++ e) retryable
        | .httpStatus status => giveUp row ("agent HTTP " ++ status) retryable
        | .unclassified => outcomeUnknown row
        | .ended => delivered row
        | .paused kind question => do
          delivered row
          createFollowUp config row kind question taskId contextId

/-- Hand the decision to the worker of the workflow. -/
def enqueueMafResume (taskId : Str) (executionId : Uuid) (stepIndex : Int) : Prog Unit := do
  match ← perform (mafSnapshot executionId) with
  | .error e =>
    giveUp row ("database error resolving maf execution snapshot: ".toList ++ e) retryable
  | .ok none => giveUp row "maf execution or its snapshot no longer exists".toList retryable
  | .ok (some mafJson) =>
    match ← perform redisConnect with
    | .error e => giveUp row ("redis connection failed: ".toList ++ e) retryable
    | .ok () =>
      let fields := [("execution_id".toList, Uuid.toStr executionId), ("maf_json".toList, mafJson),
        ("user_id".toList, Uuid.toStr row.ownerUserId),
        ("resume_step_index".toList, (toString stepIndex).toList),
        ("resume_task_id".toList, taskId), ("resume_answer".toList, answerText row)]
      match ← perform (enqueueMaf row fields) with
      | .error e => giveUp row ("failed to enqueue MAF resume job: ".toList ++ e) retryable
      | .ok () => delivered row

def deliverMaf : Prog Unit :=
  match row.taskId, row.mafExecutionId, row.mafStepIndex with
  | some taskId, some executionId, some stepIndex =>
    enqueueMafResume row taskId executionId stepIndex
  | some _, some _, none => giveUp row "row is missing maf_step_index" .permanent
  | _, _, _ => giveUp row "row is missing task_id/maf_execution_id" .permanent

/-- A client that knows the row of the gateway finds the stream of its mirror. -/
def aliasMirror : Prog Unit :=
  match (linkText row.question).bind Uuid.parseStr with
  | none => pure ()
  | some mcpRowId => do
    match ← attempt (get mcpRowId) with
    | .ok (some linked) =>
      if isValidMcpMirrorLink linked row.ownerUserId row.agentId then
        perform (Command.alias mcpRowId row.id)
      else pure ()
    | _ => pure ()

def deliver : Prog Unit := do
  aliasMirror row
  if row.resumeDispatchAttempts > maxResumeAttempts then outcomeUnknown row
  else
    match row.origin with
    | .maf => deliverMaf row
    | .mcpTool => giveUp row "origin not yet supported by the resume dispatcher" .permanent
    | _ =>
      match row.taskId, row.contextId with
      | some taskId, some contextId => deliverTask config row taskId contextId
      | _, _ => giveUp row "row is missing task_id/context_id" .permanent

/-- One turn of the loop: claim a row, and deliver it. -/
def deliverNext : Prog Unit := do
  match ← attempt (claimForDelivery config.leaseSecs) with
  | .ok (some row) => deliver config row
  | .ok none => pure ()
  | .error _ => pure ()

end Nasiko.Hitl
