import Nasiko.Concurrency.Inductive
import Nasiko.Hitl.System

/-!
# What the handlers do with a row

What a task may do to a row depends on what it has done before: a decision about the row it was
asked for is given once; a mirror is resolved after it was found, and then the delivery of the row
of the gateway is skipped; a worker delivers and reports on the row that it has claimed. `resuming`
is this as a protocol, and every request follows it (`follows_handle`).
-/

namespace Nasiko.Hitl

open Concurrency Program

/-- The row that a worker of the dispatcher of the tasks has in hand. -/
inductive Lease where
  | idle
  | working (id : Uuid)
  /-- The decision has arrived, and the report of it has failed. -/
  | unsure (id : Uuid)

/-- What a task knows. -/
@[ext] structure Known where
  request : Request
  /-- The decision that it was asked for has been given. -/
  decided : Bool
  /-- A row of the gateway, and the mirror that was found for it. -/
  linked : Option (Uuid × Uuid)
  /-- The row of the gateway whose mirror was resolved and whose delivery is not skipped yet. -/
  owes : Option Uuid
  /-- The row of the gateway that it has claimed. -/
  claimed : Option Uuid
  lease : Lease

namespace Known

def start (q : Request) : Known := ⟨q, false, none, none, none, .idle⟩

variable (x : Known)

/-- After a mirror was resolved, the delivery of the other row is skipped before anything else. -/
def duty : Command → Prop
  | .sql (.skipResume id) => x.owes = none ∨ x.owes = some id
  | .alias _ _ => True
  | _ => x.owes = none

/-- What a task may do to a row. -/
def right : Command → Prop
  | .sql (.updateResolve id _ _ _) =>
    (x.linked = none ∧ x.decided = false ∧ ∃ identity payload,
      x.request = .resolve identity id payload) ∨ ∃ mcpRowId, x.linked = some (mcpRowId, id)
  | .sql (.updateResolveConnector owner connector _) =>
    x.decided = false ∧ x.request = .reconnected owner connector
  | .sql .claimForResume => x.request = .dispatch
  | .sql (.finishResume id _ _ _) => x.claimed = some id
  | .notify row => x.claimed = some row.id
  | .sql (.claimForDelivery _) => x.request = .deliver ∧ x.lease = .idle
  | .sql (.updateCompleted id) => x.lease = .working id
  | .sql (.updateFailed id _ _) => x.lease = .working id
  | .sql (.updateUnknown id) => x.lease = .working id ∨ x.lease = .unsure id
  | .sendResume row _ _ _ => x.lease = .working row.id
  | .enqueueMaf row _ => x.lease = .working row.id
  | .sql (.requeueResume id) => x.request = .requeue true id
  | _ => True

def may (c : Command) : Prop := x.duty c ∧ x.right c

/-- A row was resolved: the one that the task was asked for, or a mirror. -/
def resolved (r : Except HitlError (Option HitlRequest)) : Known :=
  match x.linked, r with
  | none, _ => { x with decided := true }
  | some (mcpRowId, _), .ok (some _) => { x with linked := none, owes := some mcpRowId }
  | some _, _ => { x with linked := none }

variable (x : Known) (r : Except HitlError (Option HitlRequest))

theorem resolved_request : (x.resolved r).request = x.request := by
  unfold resolved
  split <;> rfl

theorem resolved_claimed : (x.resolved r).claimed = x.claimed := by
  unfold resolved
  split <;> rfl

theorem resolved_lease : (x.resolved r).lease = x.lease := by
  unfold resolved
  split <;> rfl

def after (x : Known) : (c : Command) → Except HitlError (Reply c) → Known
  | .sql (.selectLinked mcpRowId _ _), .ok (some row) =>
    { x with linked := some (mcpRowId, row.id) }
  | .sql (.updateResolve _ _ _ _), r => x.resolved r
  | .sql (.updateResolveConnector _ _ _), _ => { x with decided := true }
  | .sql (.skipResume _), _ => { x with owes := none }
  | .sql .claimForResume, .ok (some row) => { x with claimed := some row.id }
  | .sql (.claimForDelivery _), .ok (some row) => { x with lease := .working row.id }
  | .sql (.updateCompleted _), .ok _ => { x with lease := .idle }
  | .sql (.updateCompleted id), .error _ => { x with lease := .unsure id }
  | .sql (.updateFailed _ _ _), _ => { x with lease := .idle }
  | .sql (.updateUnknown _), _ => { x with lease := .idle }
  -- An alias is made in memory, which never fails.
  | .alias _ _, .error _ => { x with owes := none }
  | _, _ => x

end Known

abbrev resuming : Protocol Command Reply HitlError where
  Ctx := Known
  allow := Known.may
  after := Known.after

/-! ## Commands that the protocol does not speak of -/

/-- The command may be called whenever nothing is owed, and teaches nothing. -/
def Command.plain : Command → Bool
  | .sql (.updateResolve _ _ _ _) | .sql (.updateResolveConnector _ _ _) | .sql (.skipResume _)
  | .sql .claimForResume | .sql (.finishResume _ _ _ _) | .sql (.claimForDelivery _)
  | .sql (.updateCompleted _) | .sql (.updateFailed _ _ _) | .sql (.updateUnknown _)
  | .sql (.requeueResume _) | .sql (.selectLinked _ _ _) => false
  | .notify _ | .sendResume _ _ _ _ | .enqueueMaf _ _ => false
  | _ => true

variable {x : Known} {α β : Type} {config : Config} {identity : HitlIdentity} {id : Uuid}
  {row : HitlRequest} {kind : HitlKind} {question : Value} {taskId contextId : Str} {c : Command}
  {p : Prog α}

theorem plain_may (hc : c.plain = true) (hx : x.owes = none) : x.may c ∧ ∀ r, x.after c r = x := by
  cases c with
  | sql q => cases q <;> first | exact ⟨⟨hx, trivial⟩, fun r => rfl⟩ | cases hc
  | notify row | sendResume row a b d | enqueueMaf row fields => cases hc
  | «alias» mcpRowId linkedId =>
    refine ⟨⟨trivial, trivial⟩, fun r => ?_⟩
    cases r with
    | ok a => rfl
    | error e => exact Known.ext rfl rfl rfl hx.symm rfl rfl
  | _ => exact ⟨⟨hx, trivial⟩, fun r => rfl⟩

/-- All commands of the program are plain. -/
abbrev Plain {α : Type} (p : Prog α) : Prop := Calls (fun c => c.plain = true) p

theorem follows_plain (hp : Plain p) (hx : x.owes = none) :
    Follows resuming x p fun y _ => y = x := by
  refine hp.follows (fun c hc y hy => ?_) rfl
  subst hy
  exact plain_may hc hx

theorem follows_plain_bind {f : α → Prog β} {Q : Known → Except HitlError β → Prop} (hp : Plain p)
    (hx : x.owes = none) (herr : ∀ e, Q x (.error e)) (hok : ∀ a, Follows resuming x (f a) Q) :
    Follows resuming x (p >>= f) Q := by
  refine follows_bind.2 ((follows_plain hp hx).mono fun y r hy => ?_)
  subst hy
  cases r with
  | error e => exact herr e
  | ok a => exact hok a

theorem plain_get : Plain (get id) := calls_perform rfl

theorem plain_create {ttlDays : Int} {req : NewHitlRequest} : Plain (create ttlDays req) := by
  refine calls_bind (calls_perform rfl) fun now => ?_
  refine calls_attempt_bind rfl fun r => ?_
  split
  · exact calls_pure
  · refine calls_bind (calls_perform rfl) fun existing => ?_
    split
    · exact calls_pure
    · exact calls_fail
  · exact calls_fail

theorem plain_outcomeOf {row : Option HitlRequest} : Plain (outcomeOf id row) := by
  cases row with
  | some row => exact calls_pure
  | none =>
    refine calls_bind plain_get fun r => ?_
    cases r with
    | some current => exact calls_pure
    | none => exact calls_fail

theorem plain_grantContext : Plain (grantContext row contextId) := by
  refine calls_bind (calls_attempt ?_) fun r => ?_
  · refine calls_bind (calls_perform rfl) fun b => ?_
    split
    · exact calls_pure
    · refine calls_bind (calls_perform rfl) fun sessions => ?_
      split <;> exact calls_pure
  · split <;> exact calls_pure

theorem plain_grantSessionScope : Plain (grantSessionScope row) := by
  unfold grantSessionScope
  split
  · refine calls_bind plain_grantContext fun sessionContextId => ?_
    refine calls_bind (calls_attempt ?_) fun _ => calls_pure
    exact calls_bind (calls_perform rfl) fun _ => calls_perform rfl
  · exact calls_pure

theorem plain_fetchFor {forbidden context : Str} :
    Plain (fetchFor identity id forbidden context) := by
  refine calls_bind (calls_attempt plain_get) fun r => ?_
  split
  · exact calls_ite calls_pure calls_pure
  all_goals exact calls_pure

theorem plain_startAuth : Plain (startAuth id) := by
  refine calls_attempt_bind rfl fun r => ?_
  split
  · exact calls_pure
  · refine calls_bind (calls_attempt plain_get) fun r => ?_
    split <;> exact calls_pure
  · exact calls_pure

theorem plain_cancelRoute : Plain (cancelRoute identity id) := by
  refine calls_bind plain_fetchFor fun r => ?_
  split
  · exact calls_pure
  · refine calls_bind (calls_attempt (calls_bind (calls_perform rfl) fun row =>
      plain_outcomeOf)) fun r => ?_
    split
    · exact calls_pure
    · exact calls_pure
    · exact calls_ite calls_pure calls_pure

theorem plain_aliasMirror : Plain (aliasMirror row) := by
  unfold aliasMirror
  split
  · exact calls_pure
  · refine calls_bind (calls_attempt plain_get) fun r => ?_
    split
    · exact calls_ite (calls_perform rfl) calls_pure
    · exact calls_pure

theorem plain_createFollowUp :
    Plain (createFollowUp config row kind question taskId contextId) := by
  unfold createFollowUp
  split
  · exact calls_pure
  · exact calls_bind (calls_attempt plain_create) fun _ => calls_pure

theorem plain_persistDirectChatPause {origin : HitlOrigin} {agentId userId : Uuid}
    {chatSessionId : Option Str} :
    Plain (persistDirectChatPause config origin agentId userId contextId taskId chatSessionId kind
      question) := by
  refine calls_bind ?_ fun mirror => ?_
  · unfold reuseMirror
    split
    · exact calls_pure
    · refine calls_attempt_bind rfl fun r => ?_
      split
      · refine calls_attempt_bind rfl fun r => ?_
        split
        · refine calls_bind (calls_attempt plain_get) fun r => ?_
          split <;> exact calls_pure
        · exact calls_pure
      · exact calls_pure
  · split
    · exact calls_pure
    · refine calls_bind ?_ fun session => plain_create
      unfold knownSession
      split
      · exact calls_pure
      · refine calls_attempt_bind rfl fun r => ?_
        split <;> exact calls_pure

/-! ## The requests that resolve rows -/

/-- The task is the same one, and owes nothing. -/
def Known.Clear (x y : Known) : Prop := y.request = x.request ∧ y.owes = none

theorem Known.Clear.refl (hx : x.owes = none) : x.Clear x := ⟨rfl, hx⟩

/-- The program owes nothing when it has ended. -/
abbrev Clears {α : Type} (x : Known) (p : Prog α) : Prop :=
  Follows resuming x p fun y _ => x.Clear y

theorem clears_perform {f : Reply c → Prog α} (hc : c.plain = true) (how : x.owes = none)
    (hf : ∀ a, Clears x (f a)) : Clears x (perform c >>= f) :=
  follows_plain_bind (calls_perform hc) how (fun _ => .refl how) hf

theorem clears_then {p : Prog β} {a : α} (hp : Clears x p) : Clears x (p >>= fun _ => pure a) := by
  refine follows_bind.2 (hp.mono fun y r hy => ?_)
  cases r with
  | error e | ok _ => exact hy

section

variable {mcpRowId resolvedBy userId : Uuid} {status : HitlStatus} {response : Value}
  (how : x.owes = none)

include how

/-- The task owes nothing, or it has resolved the mirror of the row. -/
def Known.OwesFor (x : Known) (mcpRowId : Uuid) (y : Known) (answered : Prop) : Prop :=
  y.request = x.request ∧ (y.owes = none ∨ y.owes = some mcpRowId ∧ answered)

section

variable (hlk : x.linked = some (mcpRowId, id))

include hlk

theorem owesFor_after (r : Except HitlError (Option HitlRequest)) :
    x.OwesFor mcpRowId (x.resolved r) (∃ row, r = .ok (some row)) := by
  match r with
  | .ok (some row) =>
    simp only [Known.resolved, hlk]
    exact ⟨rfl, .inr ⟨rfl, row, rfl⟩⟩
  | .ok none | .error _ =>
    simp only [Known.resolved, hlk]
    exact ⟨rfl, .inl how⟩

theorem may_resolve_linked : x.may (.sql (.updateResolve id status response resolvedBy)) :=
  ⟨how, .inr ⟨mcpRowId, hlk⟩⟩

theorem follows_resolve_linked : Follows resuming x (resolve id response resolvedBy status)
      fun y r => x.OwesFor mcpRowId y (∃ outcome, r = .ok outcome) := by
  refine follows_bind.2 (follows_perform.2 ⟨may_resolve_linked how hlk, fun r => ?_⟩)
  obtain ⟨hreq, howe'⟩ := owesFor_after how hlk r
  match r with
  | .error e =>
    refine ⟨hreq, .inl ?_⟩
    rcases howe' with hno | ⟨-, row, hrow⟩
    · exact hno
    · cases hrow
  | .ok (some row) => exact ⟨hreq, howe'.imp (fun h => h) fun h => ⟨h.1, _, rfl⟩⟩
  | .ok none =>
    have hno : (x.resolved (.ok none)).owes = none := by
      rcases howe' with hno | ⟨-, row, hrow⟩
      · exact hno
      · cases hrow
    refine (follows_plain plain_outcomeOf hno).mono fun y r hy => ?_
    subst hy
    exact ⟨hreq, .inl hno⟩

end

theorem follows_autoResolveLinkedDirectChatRow {mcpRow : HitlRequest} {approved : Bool} :
    Clears x (autoResolveLinkedDirectChatRow mcpRow resolvedBy approved) := by
  refine follows_attempt_perform_bind.2 ⟨⟨how, trivial⟩, fun r => ?_⟩
  match r with
  | .error _ | .ok none => exact .refl how
  | .ok (some linked) =>
    refine follows_bind.2 (follows_attempt.2 ?_)
    refine (follows_resolve_linked (x := { x with linked := some (mcpRow.id, linked.id) }) how
      rfl).mono fun y r hy => ?_
    obtain ⟨hreq, howe'⟩ := hy
    match r with
    | .error e =>
      rcases howe' with hno | ⟨-, outcome, hout⟩
      · exact ⟨hreq, hno⟩
      · cases hout
    | .ok outcome =>
      have hduty : y.owes = none ∨ y.owes = some mcpRow.id := howe'.imp (fun h => h) And.left
      refine follows_perform_bind ⟨trivial, trivial⟩ (fun e => ?_) fun _ => ?_
      · exact ⟨hreq, rfl⟩
      · exact follows_attempt_perform_bind.2 ⟨⟨hduty, trivial⟩, fun r => ⟨hreq, rfl⟩⟩

section

variable {payload : HitlResolveRequest}
  (hreq : x.request = .resolve identity id payload) (hdec : x.decided = false)
  (hlk : x.linked = none)

include hreq hdec hlk

theorem follows_resolve : Follows resuming x (resolve id response resolvedBy status)
      fun y _ => y = { x with decided := true } := by
  have haft : ∀ r, x.after (.sql (.updateResolve id status response resolvedBy)) r =
      { x with decided := true } := by
    intro r
    simp [Known.after, Known.resolved, hlk]
  have hal : x.may (.sql (.updateResolve id status response resolvedBy)) :=
    ⟨how, .inl ⟨hlk, hdec, identity, payload, hreq⟩⟩
  refine follows_perform_bind hal (fun e => haft _) fun row => ?_
  rw [show resuming.after x _ _ = _ from haft (.ok row)]
  exact follows_plain plain_outcomeOf how

theorem follows_resolveToolApproval : Clears x (resolveToolApproval id userId payload) := by
  unfold resolveToolApproval
  split
  · exact .refl how
  · exact .refl how
  · rename_i decision scope _ _
    refine follows_bind.2 (follows_attempt.2 ?_)
    refine (follows_resolve how hreq hdec hlk).mono fun y r hy => ?_
    subst hy
    match r with
    | .error _ | .ok (.alreadyDecided _) => exact ⟨rfl, how⟩
    | .ok (.applied row) =>
      have hmir : Clears { x with decided := true } (do
          autoResolveLinkedDirectChatRow row userId (decision = .approve)
          pure (firstResolved row)) :=
        clears_then (follows_autoResolveLinkedDirectChatRow (x := { x with decided := true }) how)
      split
      · exact follows_plain_bind plain_grantSessionScope how (fun e => ⟨rfl, how⟩) fun _ => hmir
      · exact hmir

theorem follows_resolveWith {humanResponse : Value} :
    Clears x (resolveWith id userId humanResponse) := by
  refine follows_bind.2 (follows_attempt.2 ?_)
  refine (follows_resolve how hreq hdec hlk).mono fun y r hy => ?_
  subst hy
  match r with
  | .error _ | .ok (.alreadyDecided _) => exact ⟨rfl, how⟩
  | .ok (.applied row) =>
    change Follows resuming _ (if _ then _ else _) _
    split
    · exact clears_then (follows_autoResolveLinkedDirectChatRow
        (x := { x with decided := true }) how)
    · exact ⟨rfl, how⟩

theorem follows_resolveRoute : Clears x (resolveRoute identity id payload) := by
  unfold resolveRoute
  split
  · exact .refl how
  · refine follows_plain_bind plain_fetchFor how (fun e => .refl how) fun r => ?_
    split
    · exact .refl how
    · rename_i row
      cases row.kind with
      | toolApproval =>
        exact follows_resolveToolApproval how hreq hdec hlk
      | inputRequired =>
        dsimp only
        split
        · exact .refl how
        · exact follows_resolveWith how hreq hdec hlk
      | authRequired =>
        change Follows resuming x (if _ then _ else _) _
        split
        · refine (follows_plain plain_startAuth how).mono fun y _ hy => ?_
          subst hy
          exact .refl how
        · split
          · exact follows_resolveWith how hreq hdec hlk
          · exact .refl how

end

theorem follows_resolveLinkedDirectChatMirror {agentId : Uuid} :
    Clears x (resolveLinkedDirectChatMirror mcpRowId resolvedBy agentId) := by
  refine follows_perform_bind ⟨how, trivial⟩ (fun e => .refl how) fun r => ?_
  match r with
  | none => exact .refl how
  | some linked =>
    refine follows_bind.2 (follows_perform.2 ⟨may_resolve_linked how rfl, fun r => ?_⟩)
    obtain ⟨hreq, howe'⟩ :=
      owesFor_after (x := { x with linked := some (mcpRowId, linked.id) }) how rfl r
    match r with
    | .error e =>
      rcases howe' with hno | ⟨-, row, hrow⟩
      · exact ⟨hreq, hno⟩
      · cases hrow
    | .ok row =>
      have hduty := howe'.imp (fun h => h) And.left
      exact follows_attempt_perform_bind.2 ⟨⟨hduty, trivial⟩, fun r => ⟨hreq, rfl⟩⟩

theorem follows_resolvePendingAuthRequiredForConnector {owner connector : Uuid}
    (hreq : x.request = .reconnected owner connector) (hdec : x.decided = false) :
    Clears x (resolvePendingAuthRequiredForConnector owner connector) := by
  refine follows_perform_bind ⟨how, hdec, hreq⟩ (fun e => ⟨rfl, how⟩) fun rows => ?_
  refine clears_then ?_
  refine follows_forEach (P := resuming) (fun row y hy => ?_) ⟨rfl, how⟩
  refine follows_bind.2 (follows_attempt.2 ?_)
  refine (follows_resolveLinkedDirectChatMirror hy.2).mono fun z r hz => ?_
  exact ⟨hz.1.trans hy.1, hz.2⟩

theorem follows_requeueRoute {isSuperuser : Bool} (hreq : x.request = .requeue isSuperuser id) :
    Clears x (requeueRoute isSuperuser id) := by
  cases isSuperuser with
  | false => exact .refl how
  | true =>
    refine follows_attempt_perform_bind.2 ⟨⟨how, hreq⟩, fun r => ?_⟩
    match r with
    | .ok (some _) | .ok none | .error _ => exact .refl how

/-! ## The dispatchers -/

theorem follows_notifyAgent (hcl : x.claimed = some row.id) (attempts left : Nat) :
    Follows resuming x (notifyAgent row attempts left) fun y _ => y = x := by
  induction left generalizing attempts with
  | zero =>
    refine follows_perform_bind ⟨how, hcl⟩ (fun e => rfl) fun r => ?_
    cases r <;> rfl
  | succ left ih =>
    refine follows_perform_bind ⟨how, hcl⟩ (fun e => rfl) fun r => ?_
    cases r with
    | ok _ => rfl
    | error e =>
      dsimp only
      split
      · rfl
      · exact ih (attempts + 1)

theorem follows_dispatch (hreq : x.request = .dispatch) : Clears x (dispatch config) := by
  refine follows_attempt_perform_bind.2 ⟨⟨how, hreq⟩, fun r => ?_⟩
  match r with
  | .ok none | .error _ => exact .refl how
  | .ok (some row) =>
    refine follows_bind.2 ((follows_notifyAgent (x := { x with claimed := some row.id }) how rfl 1
      _).mono fun y r hy => ?_)
    subst hy
    match r with
    | .error e => exact ⟨rfl, how⟩
    | .ok (attempts, error) =>
      exact follows_attempt_perform_bind.2 ⟨⟨how, rfl⟩, fun r => ⟨rfl, how⟩⟩

theorem follows_outcomeUnknown (hlea : x.lease = .working row.id ∨ x.lease = .unsure row.id) :
    Clears x (outcomeUnknown row) :=
  follows_attempt_perform_bind.2 ⟨⟨how, hlea⟩, fun _ => ⟨rfl, how⟩⟩

section

variable (hlea : x.lease = .working row.id)

include hlea

theorem follows_giveUp {error : Str} {failure : FailureKind} :
    Clears x (giveUp row error failure) :=
  follows_attempt_perform_bind.2 ⟨⟨how, hlea⟩, fun _ => ⟨rfl, how⟩⟩

theorem follows_delivered : Clears x (delivered row) := by
  refine follows_attempt_perform_bind.2 ⟨⟨how, hlea⟩, fun r => ?_⟩
  cases r with
  | ok _ => exact ⟨rfl, how⟩
  | error e =>
    exact follows_outcomeUnknown how (.inr rfl)

theorem follows_deliverTask : Clears x (deliverTask config row taskId contextId) := by
  have hgiv : ∀ {error failure}, Clears x (giveUp row error failure) := follows_giveUp how hlea
  refine clears_perform rfl how fun r => ?_
  match r with
  | .error _ | .ok none => exact hgiv
  | .ok (some name) =>
    refine clears_perform rfl how fun r => ?_
    match r with
    | .error e => exact hgiv
    | .ok endpoint =>
      refine clears_perform rfl how fun r => ?_
      match r with
      | .error e => exact hgiv
      | .ok () =>
        refine clears_perform rfl how fun _ => ?_
        refine follows_perform_bind ⟨how, hlea⟩ (fun e => .refl how) fun reply => ?_
        match reply with
        | .requestFailed _ | .httpStatus _ => exact hgiv
        | .unclassified => exact follows_outcomeUnknown how (.inl hlea)
        | .ended => exact follows_delivered how hlea
        | .paused kind question =>
          refine follows_bind.2 ((follows_delivered how hlea).mono fun y r hy => ?_)
          cases r with
          | error e => exact hy
          | ok _ =>
            refine (follows_plain plain_createFollowUp hy.2).mono fun z r hz => ?_
            subst hz
            exact hy

theorem follows_deliverMaf : Clears x (deliverMaf row) := by
  have hgiv : ∀ {error failure}, Clears x (giveUp row error failure) := follows_giveUp how hlea
  unfold deliverMaf
  split
  · refine clears_perform rfl how fun r => ?_
    match r with
    | .error _ | .ok none => exact hgiv
    | .ok (some mafJson) =>
      refine clears_perform rfl how fun r => ?_
      match r with
      | .error e => exact hgiv
      | .ok () =>
        refine follows_perform_bind ⟨how, hlea⟩ (fun e => .refl how) fun r => ?_
        match r with
        | .error e => exact hgiv
        | .ok () => exact follows_delivered how hlea
  all_goals exact hgiv

theorem follows_deliver : Clears x (deliver config row) := by
  refine follows_plain_bind plain_aliasMirror how (fun e => .refl how) fun _ => ?_
  split
  · exact follows_outcomeUnknown how (.inl hlea)
  · split
    · exact follows_deliverMaf how hlea
    · exact follows_giveUp how hlea
    · split
      · exact follows_deliverTask how hlea
      · exact follows_giveUp how hlea

end

theorem follows_deliverNext (hreq : x.request = .deliver) (hlea : x.lease = .idle) :
    Clears x (deliverNext config) := by
  refine follows_bind.2 (follows_attempt.2 ?_)
  refine follows_plain_bind (calls_perform rfl) how (fun e => .refl how) fun now => ?_
  refine follows_perform.2 ⟨⟨how, hreq, hlea⟩, fun r => ?_⟩
  match r with
  | .ok none | .error _ => exact .refl how
  | .ok (some row) =>
    exact follows_deliver how rfl

end

/-! ## All requests -/

/-- **Every request keeps to the protocol**, and owes nothing when it has ended. -/
theorem follows_handle (config : Config) (q : Request) :
    Follows resuming (Known.start q) (handle config q) fun y _ => (Known.start q).Clear y := by
  have hpla : ∀ {α : Type} {f : α → Answer} {p : Prog α}, Plain p →
      Follows resuming (Known.start q) (f <$> p) fun y _ => (Known.start q).Clear y := by
    intro α f p hp
    refine follows_map.2 ((follows_plain hp rfl).mono fun y r hy => ?_)
    subst hy
    exact .refl rfl
  cases q with
  | change w =>
    exact follows_plain_bind (calls_perform rfl) rfl (fun e => .refl rfl) fun _ => .refl rfl
  | resolve identity id payload => exact follows_map.2 (follows_resolveRoute rfl rfl rfl rfl)
  | cancel identity id => exact hpla plain_cancelRoute
  | requeue isSuperuser id => exact follows_map.2 (follows_requeueRoute rfl rfl)
  | create req => exact hpla plain_create
  | pause origin agentId userId contextId taskId chatSessionId kind question =>
    exact hpla plain_persistDirectChatPause
  | requireAuth agentId owner connector contextId question
  | requireApproval agentId owner connector toolName contextId question =>
    exact hpla (calls_bind (calls_perform rfl) fun _ => calls_perform rfl)
  | claimApproval owner agentId connector toolName contextId => exact hpla (calls_perform rfl)
  | reconnected owner connector =>
    exact follows_map.2 (follows_resolvePendingAuthRequiredForConnector rfl rfl rfl)
  | expire =>
    exact follows_plain_bind (calls_attempt (calls_perform rfl)) rfl (fun e => .refl rfl)
      fun _ => .refl rfl
  | dispatch => exact clears_then (follows_dispatch rfl rfl)
  | recover =>
    refine clears_then ((follows_plain ?_ rfl).mono fun y r hy => ?_)
    · refine calls_attempt_bind rfl fun _ => ?_
      exact calls_attempt_bind rfl fun _ => calls_pure
    · subst hy
      exact .refl rfl
  | deliver => exact clears_then (follows_deliverNext rfl rfl rfl)

end Nasiko.Hitl
