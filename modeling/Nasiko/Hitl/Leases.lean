import Nasiko.Hitl.Protocol

/-!
# How far a row has been delivered

Two columns say it: `resume_status`, and `resume_claimed_at`, which is set while somebody delivers
the row. `set_resume` lists what an update can do to them, each case with what its `WHERE` asks for.
The other columns that tell what a row is never change (`invariable_identity`).

So a worker that has claimed a row knows for good which kind of row it is: `local_origins` says that
the dispatcher of the gateway works on rows of origin `mcp_tool` and the other one on the other
rows.
-/

namespace Nasiko.Hitl

open Concurrency Sql Option List Bool Statement Table

variable {config : Config}

/-! ## What never changes -/

/-- What a row is about. -/
def HitlRequest.identity (r : HitlRequest) :
    Uuid × HitlKind × HitlOrigin × Uuid × Uuid × Option Uuid × Value :=
  (r.id, r.kind, r.origin, r.agentId, r.ownerUserId, r.connectorId, r.question)

theorem invariable_identity : Invariable fun r r' => r'.identity = r.identity where
  refl _ := rfl
  trans r r' r'' h h' := h'.trans h
  set w t q u r heff _ := by
    cases q with
    | insertOrRefresh req conflict expiresAt =>
      simp only [effect] at heff
      split at heff
      · cases heff
        rfl
      · cases heff
    | _ =>
      cases heff
      try rfl

variable {r row : HitlRequest} {q : Statement} {s : State} {o : Outcome} {t : Requests}
  {a : q.Reply} {u : Update} {w : World}

theorem origin_of_identity {r' : HitlRequest} (h : r'.identity = r.identity) :
    r'.origin = r.origin := congrArg (fun x => x.2.2.1) h

/-! ## What an update does to the delivery of a row -/

def Statement.reports (id : Uuid) : Statement → Prop
  | updateCompleted id' => id' = id
  | updateFailed id' _ _ => id' = id
  | updateUnknown id' => id' = id
  | _ => False

/-- The ways in which a statement changes how far a row has been delivered. -/
inductive Resumes : Statement → HitlRequest → HitlRequest → Prop where
  | claim {r r' : HitlRequest} (hanswered : r.answered = true)
      (hstatus : r.resumeStatus = .notStarted)
      (hclaimed : r.resumeClaimedAt = none) (horigin : r.origin = .mcpTool)
      (hstatus' : r'.resumeStatus = .notStarted) (hclaimed' : r'.resumeClaimedAt.isSome) :
      Resumes .claimForResume r r'
  | lease {r r' : HitlRequest} {staleBefore : Time} (hstatus : r.resumeStatus = .notStarted)
      (horigin : r.origin.conversational = true) (hstatus' : r'.resumeStatus = .notStarted)
      (hclaimed' : r'.resumeClaimedAt.isSome) : Resumes (.claimForDelivery staleBefore) r r'
  | report {q : Statement} {r r' : HitlRequest} (hq : q.reports r.id) : Resumes q r r'
  | finish {r r' : HitlRequest} {status : ResumeStatus} {attempts : Int} {lastError : Option Str}
      (hstatus : r.resumeStatus = .notStarted) (hclaimed : r.resumeClaimedAt.isSome)
      (hclaimed' : r'.resumeClaimedAt = r.resumeClaimedAt) :
      Resumes (.finishResume r.id status attempts lastError) r r'
  | skip {r r' : HitlRequest} (hstatus : r.resumeStatus = .notStarted)
      (hclaimed : r.resumeClaimedAt = none) (hstatus' : r'.resumeStatus = .skipped) :
      Resumes (.skipResume r.id) r r'
  | recover {r r' : HitlRequest} {leaseMinutes : Int} (hstatus : r.resumeStatus = .notStarted)
      (hclaimed : r.resumeClaimedAt.isSome) (horigin : r.origin = .mcpTool)
      (hclaimed' : r'.resumeClaimedAt = r.resumeClaimedAt) :
      Resumes (.recoverStuck leaseMinutes) r r'
  | requeue {r r' : HitlRequest} (hstatus : r.resumeStatus = .deliveryOutcomeUnknown)
      (hstatus' : r'.resumeStatus = .notStarted) : Resumes (.requeueResume r.id) r r'

/-- The columns about the delivery are the same. -/
def SameResume (r r' : HitlRequest) : Prop :=
  r'.resumeStatus = r.resumeStatus ∧ r'.resumeClaimedAt = r.resumeClaimedAt

/-- A statement with `LIMIT 1` changes the row that it picks. -/
theorem picked_of_selects {p : HitlRequest → Bool} {le : HitlRequest → HitlRequest → Bool}
    (hr : r ∈ t.rows) (h : ((t.firstBy p le).any fun x => x.id == r.id) = true) :
    t.firstBy p le = some r ∧ p r = true := by
  obtain ⟨x, hx, hid⟩ := (any_eq_true _ _).1 h
  obtain ⟨hmem, hp⟩ := firstBy_spec hx
  have hget : t.get r.id = some x := get_eq_some.2 ⟨hmem, beq_iff_eq.1 hid⟩
  obtain rfl : x = r := some.inj (hget.symm.trans (get_eq_some.2 ⟨hr, rfl⟩))
  exact ⟨hx, hp⟩

/-- **What an update can do to the delivery of a row.** -/
theorem set_resume (hr : r ∈ t.rows) (heff : q.effect w t = .update u)
    (hsel : u.selects r = true) : SameResume r (u.set r) ∨ Resumes q r (u.set r) := by
  cases q with
  | insertOrRefresh req conflict expiresAt =>
    simp only [effect] at heff
    split at heff
    · cases heff
      exact .inl ⟨rfl, rfl⟩
    · cases heff
  | claimForResume =>
    cases heff
    obtain ⟨-, hcla⟩ := picked_of_selects hr hsel
    simp only [claimable, and_eq_true, beq_iff_eq, isNone_iff_eq_none] at hcla
    obtain ⟨⟨⟨⟨hansw, hst⟩, hcl⟩, horg⟩, -⟩ := hcla
    exact .inr (.claim hansw hst hcl horg hst rfl)
  | claimForDelivery staleBefore =>
    cases heff
    obtain ⟨-, hdel⟩ := picked_of_selects hr hsel
    simp only [deliverable, and_eq_true, beq_iff_eq] at hdel
    obtain ⟨⟨⟨⟨-, hst⟩, -⟩, horg⟩, -⟩ := hdel
    exact .inr (.lease hst horg hst rfl)
  | updateCompleted id | updateFailed id error threshold | updateUnknown id =>
    cases heff
    exact .inr (.report (beq_iff_eq.1 hsel).symm)
  | finishResume id status attempts lastError =>
    cases heff
    simp only [and_eq_true, beq_iff_eq] at hsel
    obtain ⟨⟨rfl, hst⟩, hcl⟩ := hsel
    exact .inr (.finish hst hcl rfl)
  | skipResume id =>
    cases heff
    simp only [and_eq_true, beq_iff_eq, isNone_iff_eq_none] at hsel
    obtain ⟨⟨rfl, hst⟩, hcl⟩ := hsel
    exact .inr (.skip hst hcl rfl)
  | recoverStuck leaseMinutes =>
    cases heff
    simp only [and_eq_true, beq_iff_eq] at hsel
    obtain ⟨⟨⟨-, hst⟩, hsta⟩, horg⟩ := hsel
    obtain ⟨time, htime, -⟩ := (any_eq_true _ _).1 hsta
    exact .inr (.recover hst (by rw [htime]; rfl) horg rfl)
  | requeueResume id =>
    cases heff
    simp only [and_eq_true, beq_iff_eq] at hsel
    obtain ⟨rfl, hst⟩ := hsel
    exact .inr (.requeue hst rfl)
  | _ =>
    cases heff
    try exact .inl ⟨rfl, rfl⟩

/-- **What a command does to the delivery of a row**: nothing, or what a statement does. -/
theorem exec_resume (c : Command) (o : Outcome) {id : Uuid} (hrow : s.row id = some r) :
    ∃ r', (s.exec c o).2.row id = some r' ∧ r'.identity = r.identity ∧
      (SameResume r r' ∨ ∃ q, c = .sql q ∧ o ≠ .failed ∧ Resumes q r r') := by
  have hmem := (get_eq_some.1 hrow).1
  rcases exec_row_some o hrow with hsa | ⟨q, u, hc, ho, heff, hsel, hset⟩
  · exact ⟨r, hsa, rfl, .inl ⟨rfl, rfl⟩⟩
  · refine ⟨u.set r, hset, invariable_identity.set _ _ q u r heff hsel, ?_⟩
    exact (set_resume hmem heff hsel).imp (fun h => h) fun h => ⟨q, hc, ho, h⟩

/-! ## What a worker has claimed -/

theorem run_of_execSql (h : (s.execSql q o).1 = .ok a) :
    o = .done ∧ ∃ db, q.run s.world s.db = .ok (a, db) := by
  unfold State.execSql at h
  split at h
  · cases h
  · split at h
    · rename_i a' db hrun
      cases h
      exact ⟨rfl, db, hrun⟩
    · cases h
  · split at h <;> cases h

/-- What an update returns is what it has set in the rows that it selects. -/
theorem answer_of_run {db db' : Database} (heff : q.effect w db.requests = .update u)
    (h : q.run w db = .ok (a, db')) :
    a = q.answer w db ((db.requests.rows.filter u.selects).map u.set) := by
  rw [run] at h
  split at h
  · cases h
  · rw [heff, Effect.apply] at h
    split at h
    · cases h
    · rename_i returned t happ
      split at happ
      · cases happ
        cases h
        rfl
      · cases happ

/-- The row that the dispatcher of the gateway gets is one that it may claim. -/
theorem claimable_of_reply (h : (s.exec (.sql .claimForResume) o).1 = .ok (some row)) :
    ∃ r, s.row row.id = some r ∧ r.origin = .mcpTool := by
  obtain ⟨-, db, hrun⟩ := run_of_execSql h
  have hans := answer_of_run rfl hrun
  have hmem := mem_of_mem_head? hans.symm
  obtain ⟨r, hr, rfl⟩ := mem_map.1 hmem
  obtain ⟨hr, hsel⟩ := mem_filter.1 hr
  obtain ⟨-, hcla⟩ := picked_of_selects hr hsel
  simp only [claimable, and_eq_true, beq_iff_eq] at hcla
  exact ⟨r, get_eq_some.2 ⟨hr, rfl⟩, hcla.1.2⟩

/-- The row that the other dispatcher gets is one that it may deliver. -/
theorem deliverable_of_reply {staleBefore : Time}
    (h : (s.exec (.sql (.claimForDelivery staleBefore)) o).1 = .ok (some row)) :
    ∃ r, s.row row.id = some r ∧ deliverable s.world staleBefore r = true := by
  obtain ⟨-, db, hrun⟩ := run_of_execSql h
  have hans := answer_of_run rfl hrun
  obtain ⟨r, hpick, rfl⟩ := map_eq_some_iff.1 hans.symm
  obtain ⟨hr, hdel⟩ := firstBy_spec hpick
  exact ⟨r, get_eq_some.2 ⟨hr, rfl⟩, hdel⟩

/-- The task delivers the row, or has done so and reports it. -/
def Known.Holds (x : Known) (id : Uuid) : Prop := x.lease = .working id ∨ x.lease = .unsure id

/-- The dispatcher of the gateway works on rows of the gateway, and the other one on other rows. -/
structure Origins (s : State) (x : Known) : Prop where
  claimed : ∀ id, x.claimed = some id → ∃ r, s.row id = some r ∧ r.origin = .mcpTool
  held : ∀ id, x.Holds id → x.request = .deliver ∧
    ∃ r, s.row id = some r ∧ r.origin.conversational = true

theorem Origins.kept {s' : State} {x : Known} (h : Origins s x)
    (hke : RowsKept (fun r r' => r'.identity = r.identity) s s') : Origins s' x := by
  constructor
  · intro id hid
    obtain ⟨r, hrow, horg⟩ := h.claimed id hid
    obtain ⟨r', hrow', hsa⟩ := hke id r hrow
    exact ⟨r', hrow', (origin_of_identity hsa).trans horg⟩
  · intro id hid
    obtain ⟨hreq, r, hrow, horg⟩ := h.held id hid
    obtain ⟨r', hrow', hsa⟩ := hke id r hrow
    exact ⟨hreq, r', hrow', by rw [origin_of_identity hsa, horg]⟩

theorem Origins.congr {x y : Known} (h : Origins s x) (hcl : y.claimed = x.claimed)
    (hlea : y.lease = x.lease ∨ y.lease = .idle ∨ ∃ id, x.Holds id ∧ y.lease = .unsure id)
    (hreq : y.request = x.request) : Origins s y := by
  constructor
  · intro id hid
    exact h.claimed id (hcl ▸ hid)
  · intro id hid
    rw [hreq]
    rcases hlea with hsa | hidle | ⟨id', hh, huns⟩
    · rw [Known.Holds, hsa] at hid
      exact h.held id hid
    · rw [Known.Holds, hidle] at hid
      rcases hid with hid | hid <;> cases hid
    · rw [Known.Holds, huns] at hid
      rcases hid with hid | hid
      · cases hid
      · cases hid
        exact h.held id hh

theorem request_after (x : Known) (c : Command) (r : Except HitlError (Reply c)) :
    (x.after c r).request = x.request := by
  unfold Known.after
  split <;> first | rfl | exact x.resolved_request _

/-- **Each dispatcher works on its own rows.** -/
theorem local_origins : Local (hitlSystem config) resuming Known.start Origins where
  start s q := by
    constructor
    · intro id hid
      cases hid
    · rintro id (hid | hid) <;> cases hid
  own s i cmd o r s' x hexec hal h := by
    have hs : s.exec cmd o = (r, s') := some.inj hexec
    have hke : RowsKept (fun r r' => r'.identity = r.identity) s s' := by
      have := invariable_identity.exec s cmd o
      rwa [hs] at this
    have hx : Origins s' x := h.kept hke
    cases cmd with
    | sql q =>
      cases q with
      | claimForResume =>
        match r with
        | .error _ | .ok none => exact hx
        | .ok (some row) =>
          obtain ⟨r₀, hrow, horg⟩ := claimable_of_reply (congrArg Prod.fst hs)
          obtain ⟨r', hrow', hsa⟩ := hke _ _ hrow
          refine ⟨fun id hid => ?_, hx.held⟩
          cases hid
          exact ⟨r', hrow', (origin_of_identity hsa).trans horg⟩
      | claimForDelivery staleBefore =>
        match r with
        | .error _ | .ok none => exact hx
        | .ok (some row) =>
          obtain ⟨r₀, hrow, hdel⟩ := deliverable_of_reply (congrArg Prod.fst hs)
          obtain ⟨r', hrow', hsa⟩ := hke _ _ hrow
          simp only [deliverable, and_eq_true] at hdel
          refine ⟨hx.claimed, fun id hid => ⟨hal.2.1, ?_⟩⟩
          rcases hid with hid | hid
          · cases hid
            exact ⟨r', hrow', by rw [origin_of_identity hsa, hdel.1.2]⟩
          · cases hid
      | updateCompleted id =>
        cases r with
        | ok _ => exact hx.congr rfl (.inr (.inl rfl)) rfl
        | error e => exact hx.congr rfl (.inr (.inr ⟨id, .inl hal.2, rfl⟩)) rfl
      | updateFailed id error threshold
      | updateUnknown id => exact hx.congr rfl (.inr (.inl rfl)) rfl
      | updateResolve id status response resolvedBy =>
        exact hx.congr (x.resolved_claimed r) (.inl (x.resolved_lease r)) (x.resolved_request r)
      | selectLinked mcpRowId owner agent =>
        match r with
        | .error _ | .ok none => exact hx
        | .ok (some row) => exact hx.congr rfl (.inl rfl) rfl
      | _ => exact hx.congr rfl (.inl rfl) rfl
    | «alias» mcpRowId linkedId =>
      cases r with
      | ok _ => exact hx
      | error e => exact hx.congr rfl (.inl rfl) rfl
    | _ => exact hx
  other s i cmd o r s' y hexec h := by
    have hs : s.exec cmd o = (r, s') := some.inj hexec
    have hke := invariable_identity.exec s cmd o
    rw [hs] at hke
    exact h.kept hke
  release s i y h := h
  crash s y h := ⟨h.claimed, h.held⟩

end Nasiko.Hitl
