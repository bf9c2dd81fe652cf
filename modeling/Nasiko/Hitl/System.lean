import Nasiko.Concurrency.History
import Nasiko.Hitl.Dispatchers

/-!
# Everything that happens to the requests

`Request` lists what writes the rows: the routes of the human, the pauses of the agents, the
gateway, the callback of a login, and the turns of the two dispatchers. `hitlSystem` runs any number
of them concurrently, one command at a time; a dispatcher with many workers is many requests, and a
server that stops is a crash.

What a command does to the row with a given id is said once, by `exec_row`. So a relation that every
update keeps between a row and what it sets holds for every row between any two times of a run
(`Invariable.persistent`).
-/

namespace Nasiko.Hitl

open Concurrency Program Sql Option State Statement Table

variable (config : Config)

/-! ## Pauses -/

/-- The mirror that already waits for the row that the pause names, moved to the new task. -/
def reuseMirror (agentId userId : Uuid) (contextId taskId : Str) (question : Value) :
    Prog (Option HitlRequest) :=
  match (linkText question).bind Uuid.parseStr with
  | none => pure none
  | some linkedId => do
    match ← attempt (sql (.selectMirror userId agentId linkedId)) with
    | .ok (some mirrorId) =>
      match ← attempt (sql (.retarget mirrorId taskId contextId)) with
      | .ok () =>
        match ← attempt (get mirrorId) with
        | .ok row => pure row
        | .error _ => pure none
      | .error _ => pure none
    | _ => pure none

def knownSession : Option Str → Prog (Option Str)
  | none => pure none
  | some sid => do
    match ← attempt (sql (.sessionExists sid)) with
    | .ok true => pure (some sid)
    | _ => pure none

/-- An agent has paused: a row for the human, or the mirror that is there. -/
def persistDirectChatPause (origin : HitlOrigin) (agentId userId : Uuid) (contextId taskId : Str)
    (chatSessionId : Option Str) (kind : HitlKind) (question : Value) : Prog HitlRequest := do
  match ← reuseMirror agentId userId contextId taskId question with
  | some row => pure row
  | none =>
    let session ← knownSession chatSessionId
    let req : NewHitlRequest := match origin with
      | .agentProxy => .agentProxy kind agentId userId taskId contextId question
      | _ => .directChat kind agentId userId taskId contextId question
    create config.ttlDays (req.withChatSessionId session)

/-! ## Requests -/

inductive Request where
  /-- Time passes, ids are drawn, agents answer. -/
  | change (w : World)
  | resolve (identity : HitlIdentity) (id : Uuid) (payload : HitlResolveRequest)
  | cancel (identity : HitlIdentity) (id : Uuid)
  | requeue (isSuperuser : Bool) (id : Uuid)
  /-- A sub-agent of the orchestrator or a step of a workflow has paused. -/
  | create (req : NewHitlRequest)
  | pause (origin : HitlOrigin) (agentId userId : Uuid) (contextId taskId : Str)
      (chatSessionId : Option Str) (kind : HitlKind) (question : Value)
  | requireAuth (agentId ownerUserId connectorId : Uuid) (contextId : Str) (question : Value)
  | requireApproval (agentId ownerUserId connectorId : Uuid) (toolName contextId : Str)
      (question : Value)
  /-- A retried call uses a decision up. -/
  | claimApproval (ownerUserId agentId connectorId : Uuid) (toolName contextId : Str)
  /-- The user has authenticated with a connector. -/
  | reconnected (ownerUserId connectorId : Uuid)
  | expire
  | dispatch
  | recover
  | deliver

inductive Answer where
  | response (r : Response)
  | row (r : HitlRequest)
  | claimed (r : Option HitlRequest)
  | rows (rs : List HitlRequest)
  | done

def handle : Request → Prog Answer
  | .change w => do
    perform (Command.change w)
    pure .done
  | .resolve identity id payload => Answer.response <$> resolveRoute identity id payload
  | .cancel identity id => Answer.response <$> cancelRoute identity id
  | .requeue isSuperuser id => Answer.response <$> requeueRoute isSuperuser id
  | .create req => Answer.row <$> create config.ttlDays req
  | .pause origin agentId userId contextId taskId chatSessionId kind question =>
    Answer.row <$> persistDirectChatPause config origin agentId userId contextId taskId
      chatSessionId kind question
  | .requireAuth agentId owner connector contextId question =>
    Answer.row <$> createPendingAuthRequired config.ttlDays agentId owner connector contextId
      question
  | .requireApproval agentId owner connector toolName contextId question =>
    Answer.row <$> createPendingToolApproval config.ttlDays agentId owner connector toolName
      contextId question
  | .claimApproval owner agentId connector toolName contextId =>
    Answer.claimed <$> claimResolvedToolApproval owner agentId connector toolName contextId
  | .reconnected owner connector =>
    Answer.rows <$> resolvePendingAuthRequiredForConnector owner connector
  | .expire => do
    let _ ← attempt expireStale
    pure .done
  | .dispatch => do
    dispatch config
    pure .done
  | .recover => do
    recover config
    pure .done
  | .deliver => do
    deliverNext config
    pure .done

/-- The server and its database. A crash loses what is in memory. -/
def hitlSystem : System Request Command Reply HitlError Answer where
  State := State
  exec s _ c o := some (s.exec c o)
  release s _ := s
  crash s := { s with aliases := [] }
  handle := handle config

/-! ## What happens to a row -/

variable {config} {id : Uuid}

def State.row (s : State) (id : Uuid) : Option HitlRequest := s.db.requests.get id

def Effect.rowAfter (row : Option HitlRequest) (id : Uuid) : Effect → Option HitlRequest
  | none => row
  | insert r => row.or (if r.id = id then some r else Option.none)
  | update u => row.map fun r => if u.selects r then u.set r else r

theorem get_apply {t t' : Requests} {e : Effect} {returned : List HitlRequest}
    (h : e.apply t = .ok (returned, t')) : t'.get id = e.rowAfter (t.get id) id := by
  cases e with
  | none =>
    cases h
    rfl
  | insert r =>
    rw [Effect.apply] at h
    cases hins : t.insert r with
    | error v =>
      rw [hins] at h
      cases h
    | ok t₁ =>
      rw [hins] at h
      cases h
      change _ = Option.or _ _
      cases hget : t.get id with
      | none => rw [get_insert hins id, hget]; rfl
      | some x => rw [get_of_insert hins hget, some_or]
  | update u =>
    rw [Effect.apply] at h
    cases hupd : t.update u.selects u.set with
    | error v =>
      rw [hupd] at h
      cases h
    | ok t₁ =>
      rw [hupd] at h
      cases h
      exact get_update hupd u.id_set id

variable {db : Database} {q : Statement} {rel : HitlRequest → HitlRequest → Prop} {u : Update}
  {w : World} {s : State}

/-- A statement that is carried out does to a row what its effect says. -/
theorem get_run {db' : Database} {a : q.Reply} (h : q.run w db = .ok (a, db')) (id : Uuid) :
    db'.requests.get id = (q.effect w db.requests).rowAfter (db.requests.get id) id := by
  rw [run] at h
  split at h
  · cases h
  · split at h
    · cases h
    · rename_i returned t happ
      cases h
      exact get_apply happ

/-- **What one command does to a row**: nothing, or what the effect of a statement says. -/
theorem exec_row (s : State) (c : Command) (o : Outcome) (id : Uuid) :
    (s.exec c o).2.row id = s.row id ∨ ∃ q, c = .sql q ∧ o ≠ .failed ∧
      (s.exec c o).2.row id = (q.effect s.world s.db.requests).rowAfter (s.row id) id := by
  cases c with
  | sql q =>
    cases o with
    | failed => exact .inl rfl
    | done | lost =>
      cases hrun : q.run s.world s.db with
      | error e =>
        left
        simp [exec, execSql, hrun]
      | ok x =>
        right
        refine ⟨q, rfl, by simp, ?_⟩
        simp only [exec, execSql, hrun]
        exact get_run hrun id
  | notify r | sendResume r taskId contextId answer => cases o <;> exact .inl rfl
  | _ => exact .inl rfl

/-- A row that is there stays there, unchanged or changed by an update that selects it. -/
theorem exec_row_some {c : Command} (o : Outcome) {r : HitlRequest} (hrow : s.row id = some r) :
    (s.exec c o).2.row id = some r ∨ ∃ q u, c = .sql q ∧ o ≠ .failed ∧
      q.effect s.world s.db.requests = .update u ∧ u.selects r = true ∧
      (s.exec c o).2.row id = some (u.set r) := by
  rcases exec_row s c o id with hsame | ⟨q, rfl, ho, haft⟩
  · exact .inl (hsame.trans hrow)
  · rw [hrow] at haft
    cases heff : q.effect s.world s.db.requests with
    | none | insert x =>
      rw [heff] at haft
      exact .inl haft
    | update u =>
      rw [heff] at haft
      by_cases hsel : u.selects r = true
      · refine .inr ⟨q, u, rfl, ho, heff, hsel, ?_⟩
        rw [haft]
        exact congrArg some (if_pos hsel)
      · left
        rw [haft]
        exact congrArg some (if_neg hsel)

/-- The update changes nothing that a constraint of the table looks at. -/
structure Update.Free (u : Update) : Prop where
  check : ∀ r, (u.set r).checked = r.checked
  left : ∀ a b, (u.set a).clash b = a.clash b
  right : ∀ a b, HitlRequest.clash a (u.set b) = a.clash b

theorem run_free (href : q.refused w db.requests = none)
    (heff : q.effect w db.requests = .update u) (hu : u.Free) : ∃ db', q.run w db =
      .ok (q.answer w db ((db.requests.rows.filter u.selects).map u.set), db') := by
  obtain ⟨t, ht⟩ := update_ok (S := hitlSchema) u.id_set hu.check hu.left hu.right
  refine ⟨⟨t, q.grants w db.grants⟩, ?_⟩
  rw [run, href, heff, Effect.apply, ht]

/-- Such an update is carried out unless the connection fails, also if its answer is lost. -/
theorem exec_row_free {o : Outcome} (href : q.refused s.world s.db.requests = none)
    (heff : q.effect s.world s.db.requests = .update u) (hu : u.Free) (ho : o ≠ .failed)
    (id : Uuid) :
    (s.exec (.sql q) o).2.row id = (s.row id).map fun r => if u.selects r then u.set r else r := by
  obtain ⟨db, hrun⟩ := run_free href heff hu
  have hget := get_run hrun id
  rw [heff] at hget
  cases o with
  | failed => exact absurd rfl ho
  | done | lost =>
    simp only [exec, execSql, hrun]
    exact hget

/-- Every row is still there, and is related to what it was. -/
def RowsKept (rel : HitlRequest → HitlRequest → Prop) (s s' : State) : Prop :=
  ∀ id r, s.row id = some r → ∃ r', s'.row id = some r' ∧ rel r r'

/-- A relation between rows that every update keeps. -/
structure Invariable (rel : HitlRequest → HitlRequest → Prop) : Prop where
  refl : ∀ r, rel r r
  trans : ∀ r r' r'', rel r r' → rel r' r'' → rel r r''
  set : ∀ w t q u r, effect w t q = .update u → u.selects r = true → rel r (u.set r)

theorem Invariable.exec (hrel : Invariable rel) (s : State) (c : Command) (o : Outcome) :
    RowsKept rel s (s.exec c o).2 := by
  intro id r hrow
  rcases exec_row_some o hrow with hsame | ⟨q, u, -, -, heff, hsel, hset⟩
  · exact ⟨r, hsame, hrel.refl r⟩
  · exact ⟨_, hset, hrel.set _ _ q u r heff hsel⟩

theorem Invariable.persistent (hrel : Invariable rel) :
    Persistent (hitlSystem config) (RowsKept rel) where
  refl s id r hrow := ⟨r, hrow, hrel.refl r⟩
  trans s t u hst htu id r hrow := by
    obtain ⟨r', hr', hrr'⟩ := hst id r hrow
    obtain ⟨r'', hr'', hrr''⟩ := htu id r' hr'
    exact ⟨r'', hr'', hrel.trans _ _ _ hrr' hrr''⟩
  exec s _ c o r s' hexec := by
    obtain rfl : (s.exec c o).2 = s' := congrArg Prod.snd (some.inj hexec)
    exact hrel.exec s c o
  release s _ id r hrow := ⟨r, hrow, hrel.refl r⟩
  crash s id r hrow := ⟨r, hrow, hrel.refl r⟩

/-! ## A request and its mirror

A tool of the gateway waits for the permission of its user, and the agent that called it has paused
its task in the chat. The results about runs are illustrated with these two rows. -/

def sampleConfig : Config := ⟨7, 16, 3, 2⟩

def sampleWorld : World where
  now := 1000
  utc := 1000
  newId := 99
  locked := []
  chatSessions := []
  ioError := "connection closed"
  notifyError := .transport "timed out"
  agentName := some "mailer".toList
  endpoint := .ok "http://mailer"
  flowGuard := .ok ()
  agentReply := .ended
  mafSnapshot := none

/-- The gateway has held a call back. -/
def heldCall : HitlRequest :=
  (newToolApproval 9 7 3 "send" "flow" (.object [])).row 1 100 900000

/-- The agent has paused its task because of it. -/
def pausedTask : HitlRequest :=
  (NewHitlRequest.directChat .authRequired 9 7 "task" "chat"
    (.object [("metadata",
      .object [("hitl_request_id", .string (Uuid.toStr 1))])])).row 2 200 900000

def waiting : State where
  db :=
    { requests := ⟨[heldCall, pausedTask], by decide +kernel, by decide +kernel, by decide +kernel⟩
      grants := [] }
  aliases := []
  world := sampleWorld

/-- The user with id 7 may decide. -/
def owner : HitlIdentity := ⟨7, false⟩

/-- The user agrees, for one call. -/
def approveOnce : HitlResolveRequest := ⟨none, none, none, some decisionApprove, none, none⟩

end Nasiko.Hitl
