import Nasiko.Hitl.Store

/-!
# The routes of the human

`POST /api/hitl/{id}/resolve`, `/cancel` and `/requeue`. A decision about a tool or a credential is
also given to the mirror of the row, if there is one, and the row itself is then not delivered.
-/

namespace Nasiko.Hitl

open Concurrency Program Str

/-- The `answer` of a resolve request. -/
inductive HitlAnswer where
  | single (s : Str)
  | multiple (items : List Str)

structure HitlResolveRequest where
  answer : Option HitlAnswer
  customAnswer : Option Str
  authAction : Option Str
  decision : Option Str
  scope : Option Str
  note : Option Str

/-- What a route answers. -/
inductive Response where
  /-- A status and a text. -/
  | status (code : Nat) (text : Str)
  /-- Status 500; where it happened is in the log. -/
  | internalError (context : Str)
  /-- The row, and whether the action had been taken before. -/
  | row (row : HitlRequest) (flag : Option (Str × Bool))

/-! ## Questions with options -/

structure StructuredOptions where
  labels : List Str
  multiSelect : Bool
  allowCustomInput : Bool

namespace StructuredOptions

def flag (question : Value) (key : Str) : Bool := ((question.get key).bind Json.asBool).getD false

/-- The options of a question; `none` for a question that is answered with a text. -/
def parse (question : Value) : Option StructuredOptions :=
  ((question.get "options").bind Json.asArray).bind fun options =>
    let labels := options.filterMap fun o => (o.get "label").bind Json.asStr
    if labels = [] then none
    else some
      { labels := labels
        multiSelect := flag question "multi_select"
        allowCustomInput := flag question "allow_custom_input" }

def contains (opts : StructuredOptions) (label : Str) : Bool := opts.labels.contains label

end StructuredOptions

def maxAnswerLen : Nat := 8192

def tooLong (s : Str) : Bool := utf8Len s > maxAnswerLen

/-- Does an `answer`, `custom_answer` or `note` exceed the maximum length? -/
def validateResolvePayloadLengths (payload : HitlResolveRequest) : Except Str Unit :=
  let answerTooLong := match payload.answer with
    | some (.single s) => tooLong s
    | some (.multiple items) => items.any tooLong
    | none => false
  if answerTooLong || payload.customAnswer.any tooLong || payload.note.any tooLong then
    .error "answer/custom_answer/note exceeds the maximum allowed length"
  else .ok ()

/-- The labels that were chosen, each once, or why they are refused. -/
def selectLabels (opts : StructuredOptions) : List Str → List Str → Except Str (List Str)
  | normalized, [] => .ok normalized
  | normalized, label :: rest =>
    let label := trim label
    if label = [] then selectLabels opts normalized rest
    else if !opts.contains label then
      .error "answer contains an option that was not offered by this question"
    else if normalized.contains label then selectLabels opts normalized rest
    else selectLabels opts (normalized ++ [label]) rest

def chosen : Option HitlAnswer → Except Str (List Str)
  | none => .ok []
  | some (.multiple items) => .ok items
  | some (.single s) =>
    if trim s = [] then .ok []
    else .error "answer must be an array of selected options for a multi-select question"

/-- The answer to a question with options, as it is stored, or why it is refused. -/
def resolveStructuredAnswer (opts : StructuredOptions) (answer : Option HitlAnswer)
    (customAnswer : Option Str) : Except Str Value :=
  let customAnswer := (customAnswer.map trim).filter fun c => c ≠ []
  if opts.multiSelect then
    match chosen answer with
    | .error message => .error message
    | .ok selected =>
      match selectLabels opts [] selected with
      | .error message => .error message
      | .ok normalized =>
        if normalized = [] ∧ customAnswer = none then
          .error "at least one selected option or a custom answer is required"
        else .ok (.object (("answer", .array (normalized.map .string)) ::
          customAnswer.toList.map fun c => ("custom_answer", .string c)))
  else
    match answer with
    | some (.single s) =>
      let s := trim s
      if s = [] then .error "answer is required for input_required"
      else if opts.contains s || opts.allowCustomInput then
        .ok (.object [("answer", .string s)])
      else .error ("answer does not match any offered option, and custom input is not allowed for "
        ++ "this question").toList
    | some (.multiple _) =>
      .error "answer must be a single string for a single-select question"
    | none => .error "answer is required for input_required"

/-! ## What follows a decision -/

variable (row : HitlRequest)

/-- The key of a grant: the chat session of the conversation, or the conversation itself. -/
def grantContext (contextId : Str) : Prog Str := do
  match ← attempt (resolveStableSessionContext row.ownerUserId row.agentId contextId) with
  | .ok (some sessionId) => pure sessionId
  | .ok none => pure contextId
  | .error _ => pure contextId

/-- Record the grant that an approval for the session promises. -/
def grantSessionScope : Prog Unit :=
  match row.connectorId, row.toolName, row.contextId with
  | some connectorId, some toolName, some contextId => do
    let sessionContextId ← grantContext row contextId
    let _ ← attempt (createSessionGrant row.agentId connectorId toolName sessionContextId
      row.ownerUserId (some row.id))
    pure ()
  | _, _, _ => pure ()

def mirrorResponse (approved : Bool) : Value := .object [("auth_outcome",
  .string (if approved then authOutcomeConfirmed else authOutcomeDenied))]

def mirrorStatus (approved : Bool) : HitlStatus := if approved then .resolved else .rejected

/-- Resolve the mirror of a row that was just resolved, and skip the delivery of the row. -/
def autoResolveLinkedDirectChatRow (mcpRow : HitlRequest) (resolvedBy : Uuid) (approved : Bool) :
    Prog Unit := do
  match ← attempt (findLinkedDirectChatRow mcpRow.id mcpRow.ownerUserId mcpRow.agentId) with
  | .error _ => pure ()
  | .ok none => pure ()
  | .ok (some linked) =>
    match ← attempt (resolve linked.id (mirrorResponse approved) resolvedBy
      (mirrorStatus approved)) with
    | .error _ => pure ()
    | .ok _ =>
      perform (Command.alias mcpRow.id linked.id)
      let _ ← attempt (skipResumeForMirroredRow mcpRow.id)
      pure ()

/-! ## The routes -/

def notFound : Response := .status 404 "hitl request not found"

variable (identity : HitlIdentity) (id : Uuid)

/-- The row that a route is about, if the caller may act on it; otherwise what the caller is
told. -/
def fetchFor (forbidden context : Str) : Prog (Except Response HitlRequest) := do
  match ← attempt (get id) with
  | .ok (some row) =>
    if authorizeHitlAction identity row then pure (.ok row)
    else pure (.error (.status 403 forbidden))
  | .ok none => pure (.error notFound)
  | .error _ => pure (.error (.internalError context))

/-- The answer for a decision that came second. A row that died undecided is a conflict. -/
def alreadyResolved : Response :=
  if row.status = .expired ∨ row.status = .canceled then
    .status 409 ("this HITL request was " ++ row.status.asStr ++
      " before it was answered")
  else .row row (some ("already_resolved", true))

def firstResolved : Response := .row row (some ("already_resolved", false))

/-- `scope` of an approval; it is `once` unless the caller says otherwise. -/
def parseScope : Option Str → Option Str
  | none => some grantScopeOnce
  | some s =>
    if s = grantScopeOnce then some grantScopeOnce
    else if s = grantScopeSession then some grantScopeSession
    else none

def optionalString : Option Str → Value
  | some s => .string s
  | none => .null

/-- The `human_response` of a decision about a tool. -/
def toolResponse (decision : ResolveDecision) (scope : Str) (note : Option Str) : Value := .object
  [("decision", .string decision.asStr), ("note", optionalString note),
    ("scope", if decision = .approve then .string scope else .null)]

/-- A decision about a tool. -/
def resolveToolApproval (id userId : Uuid) (payload : HitlResolveRequest) : Prog Response :=
  match payload.decision.bind ResolveDecision.parse, parseScope payload.scope with
  | none, _ =>
    pure (.status 400 "decision must be \"approve\" or \"reject\" for tool_approval")
  | some _, none => pure (.status 400 "scope must be \"once\" or \"session\"")
  | some decision, some scope => do
    match ← attempt (resolve id (toolResponse decision scope payload.note) userId
      decision.targetStatus) with
    | .error _ => pure (.internalError "resolve: tool_approval resolve failed")
    | .ok (.alreadyDecided row) => pure (alreadyResolved row)
    | .ok (.applied row) =>
      if decision = .approve ∧ scope = grantScopeSession then grantSessionScope row else pure ()
      autoResolveLinkedDirectChatRow row userId (decision = .approve)
      pure (firstResolved row)

/-- The `human_response` of an answer to a question, or why the answer is refused. -/
def inputResponse (question : Value) (payload : HitlResolveRequest) : Except Str Value :=
  match StructuredOptions.parse question with
  | some opts => resolveStructuredAnswer opts payload.answer payload.customAnswer
  | none =>
    match payload.answer with
    | some (.single a) =>
      if trim a = [] then .error "answer is required for input_required"
      else .ok (.object [("answer", .string a)])
    | some (.multiple _) => .error "answer must be a single string for this question"
    | none => .error "answer is required for input_required"

/-- An answer, or the confirmation that the user has authenticated. -/
def resolveWith (id userId : Uuid) (humanResponse : Value) : Prog Response := do
  match ← attempt (resolve id humanResponse userId .resolved) with
  | .error _ => pure (.internalError "resolve: input_required/auth_required resolve failed")
  | .ok (.alreadyDecided row) => pure (alreadyResolved row)
  | .ok (.applied row) =>
    if row.kind = .authRequired then autoResolveLinkedDirectChatRow row userId true else pure ()
    pure (firstResolved row)

/-- The user has begun to authenticate; the row stays pending. -/
def startAuth : Prog Response := do
  match ← attempt (recordAuthStart id) with
  | .ok (some row) => pure (.row row none)
  | .ok none =>
    match ← attempt (get id) with
    | .ok (some row) => pure (.row row none)
    | .ok none => pure notFound
    | .error _ => pure (.internalError "resolve: auth_action=start, refetch failed")
  | .error _ => pure (.internalError "resolve: record_auth_start failed")

/-- `POST /api/hitl/{id}/resolve`. -/
def resolveRoute (payload : HitlResolveRequest) : Prog Response := do
  match validateResolvePayloadLengths payload with
  | .error message => pure (.status 400 message)
  | .ok () =>
    match ← fetchFor identity id "not authorized to resolve this HITL request"
      "resolve: store error fetching row" with
    | .error response => pure response
    | .ok row =>
      match row.kind with
      | .toolApproval => resolveToolApproval id identity.userId payload
      | .inputRequired =>
        match inputResponse row.question payload with
        | .error message => pure (.status 400 message)
        | .ok humanResponse => resolveWith id identity.userId humanResponse
      | .authRequired =>
        if payload.authAction = some authActionStart then startAuth id
        else if payload.authAction = some authActionConfirm then
          resolveWith id identity.userId authConfirmed
        else pure (.status 400
          "auth_action must be \"start\" or \"confirm\" for auth_required")

/-- `POST /api/hitl/{id}/cancel`. -/
def cancelRoute : Prog Response := do
  match ← fetchFor identity id "not authorized to cancel this HITL request"
    "cancel: store error fetching row" with
  | .error response => pure response
  | .ok _ =>
    match ← attempt (cancel id identity.userId) with
    | .error _ => pure (.internalError "cancel: store error")
    | .ok (.applied row) => pure (.row row (some ("already_canceled", false)))
    | .ok (.alreadyDecided row) =>
      if row.status = .canceled then pure (.row row (some ("already_canceled", true)))
      else pure (.status 409 ("this HITL request is already " ++ row.status.asStr ++
        ", not pending"))

/-- `POST /api/hitl/{id}/requeue`. -/
def requeueRoute (isSuperuser : Bool) (id : Uuid) : Prog Response := do
  if isSuperuser then
    match ← attempt (requeueResume id) with
    | .ok (some row) => pure (.row row none)
    | .ok none => pure (.status 409 "row not found, or not in delivery_outcome_unknown")
    | .error _ => pure (.internalError "requeue_resume: store error")
  else pure (.status 403 "only a superuser may requeue a stuck resume")

end Nasiko.Hitl
