import Nasiko.Hitl.ClaimedOnce

/-!
# A late report

A worker of the dispatcher of the tasks has a row for the time of its lease. When the lease has run
out, another worker claims the row, and both of them send the decision and report what came of it.
The reports do not ask who has the row, or what its `resume_status` is: `late_report_overwrites` is
a run in which the slow worker changes a row that was `completed`.

If a row is claimed again only after the worker that had it is gone, a row that is being delivered
is `not_started`, and one worker has it (`Work`). So nobody reports on a row with a terminal
`resume_status` and nobody delivers it: `terminal_kept`.
-/

namespace Nasiko.Hitl

open Concurrency Sql Option List Bool State Config Statement Action Table Known

variable {config : Config} {s : State} {h : List (Step (hitlSystem config))}
  {c : Concurrency.Config (hitlSystem config)} {st : Step (hitlSystem config)} {m : Nat} {id : Uuid}
  {r : HitlRequest} {x : Known} {cmd : Command} {o : Outcome}

/-! ## Leases and deliveries -/

/-- In this step the task claims the row for delivery. -/
def LeasesRow (st : Step (hitlSystem config)) (i : Nat) (id : Uuid) : Prop :=
  ∃ o staleBefore r, st.action = .run i o ∧ o ≠ .failed ∧
    st.before.next i = some (.sql (.claimForDelivery staleBefore)) ∧
    pick (State.world st.before.state) (State.db st.before.state).requests
      (.claimForDelivery staleBefore) = some r ∧ r.id = id

/-- The command sends the decision about the row to the agent, or to the worker of the workflow. -/
def Command.delivers (id : Uuid) : Command → Prop
  | .sendResume row _ _ _ => row.id = id
  | .enqueueMaf row _ => row.id = id
  | _ => False

def DeliversRow (st : Step (hitlSystem config)) (id : Uuid) : Prop :=
  ∃ i o cmd, st.action = .run i o ∧ st.before.next i = some cmd ∧ cmd.delivers id

/-- The workers are in time: a row is claimed again only when the worker that had it is gone, and
the answer to the report that a decision has arrived is not lost. -/
structure InTime (h : List (Step (hitlSystem config))) : Prop where
  leases : ∀ (m n : Nat) (st st' : Step (hitlSystem config)) (i j : Nat) (id : Uuid),
    h[m]? = some st → h[n]? = some st' → m < n → LeasesRow st i id → LeasesRow st' j id →
    st'.before.next i = none
  answered : ∀ (m : Nat) (st : Step (hitlSystem config)) (i : Nat) (id : Uuid), h[m]? = some st →
    st.action = .run i .lost → st.before.next i ≠ some (.sql (.updateCompleted id))

theorem InTime.of_sub {h' : List (Step (hitlSystem config))} (hin : InTime h)
    (hsub : ∀ (m : Nat) (st : Step (hitlSystem config)), h'[m]? = some st → h[m]? = some st) :
    InTime h' :=
  ⟨fun m n st st' i j id hm hn => hin.leases m n st st' i j id (hsub m st hm) (hsub n st' hn),
    fun m st i id hm => hin.answered m st i id (hsub m st hm)⟩

/-! ## Who has a row in hand -/

/-- What the workers know of the rows that they have in hand, as long as they are at work. -/
structure Work (h : List (Step (hitlSystem config))) (c : Concurrency.Config (hitlSystem config))
    (g : Nat → Option Known) : Prop where
  leased : ∀ i x id, g i = some x → x.Holds id →
    ∃ (m : Nat) (st : Step (hitlSystem config)), h[m]? = some st ∧ LeasesRow st i id
  fresh : ∀ i x id, g i = some x → x.Holds id → c.next i ≠ none →
    ∃ r, State.row c.state id = some r ∧ r.resumeStatus = .notStarted ∧ r.resumeClaimedAt.isSome
  alone : ∀ i j x y id, g i = some x → g j = some y → x.Holds id → y.Holds id →
    c.next i ≠ none → c.next j ≠ none → i = j

variable {reply : Except HitlError (Reply cmd)} {g : Nat → Option Known} {i : Nat}
  {c' : Concurrency.Config (hitlSystem config)}

/-- A report that is answered ends the work on a row, and a claim begins it. -/
theorem holds_exec {s' : State} (hs : s.exec cmd o = (reply, s')) (hmay : x.may cmd)
    (hh : (x.after cmd reply).Holds id) :
    (x.Holds id ∧ ∀ q, cmd = .sql q → q.reports id → q = .updateCompleted id ∧ o ≠ .done) ∨
      ∃ staleBefore r, cmd = .sql (.claimForDelivery staleBefore) ∧ o = .done ∧
        pick s.world s.db.requests (.claimForDelivery staleBefore) = some r ∧
        r.id = id := by
  have hidle : ∀ {y : Known}, y.lease = .idle → y.Holds id → False := by
    rintro y hy (hid | hid) <;> rw [hy] at hid <;> cases hid
  cases cmd with
  | sql q =>
    cases q with
    | claimForDelivery staleBefore =>
      rcases reply with e | _ | row
      · exact .inl ⟨hh, by rintro q ⟨⟩ ⟨⟩⟩
      · exact .inl ⟨hh, by rintro q ⟨⟩ ⟨⟩⟩
      · obtain ⟨ho, db, hrun⟩ := run_of_execSql (congrArg Prod.fst hs)
        have hans := answer_of_run rfl hrun
        obtain ⟨r, hpi, rfl⟩ := map_eq_some_iff.1 hans.symm
        refine .inr ⟨staleBefore, r, rfl, ho, hpi, ?_⟩
        rcases hh with hid | hid
        · cases hid
          rfl
        · cases hid
    | updateCompleted id' =>
      cases reply with
      | ok _ => exact (hidle rfl hh).elim
      | error e =>
        obtain rfl : id' = id := by
          rcases hh with hid | hid <;> cases hid
          rfl
        refine .inl ⟨.inl hmay.2, ?_⟩
        rintro q ⟨⟩ -
        refine ⟨rfl, ?_⟩
        -- A report that is carried out and answered is answered with success.
        rintro rfl
        obtain ⟨db, hrun⟩ := run_free
          (rfl : (updateCompleted id').refused s.world s.db.requests = none) rfl
          ⟨fun _ => rfl, fun _ _ => rfl, fun _ _ => rfl⟩
        simp only [exec, execSql, hrun] at hs
        cases hs
    | updateFailed id' error threshold | updateUnknown id' => exact (hidle rfl hh).elim
    | updateResolve id' status response resolvedBy =>
      have hlea : (x.after _ reply).lease = x.lease := x.resolved_lease reply
      rw [Known.Holds, hlea] at hh
      exact .inl ⟨hh, by rintro q ⟨⟩ ⟨⟩⟩
    | selectLinked mcpRowId owner agent | claimForResume =>
      rcases reply with e | _ | row <;> exact .inl ⟨hh, by rintro q ⟨⟩ ⟨⟩⟩
    | _ => exact .inl ⟨hh, by rintro q ⟨⟩ ⟨⟩⟩
  | «alias» mcpRowId linkedId =>
    cases reply <;> exact .inl ⟨hh, by rintro q ⟨⟩⟩
  | _ => exact .inl ⟨hh, by rintro q ⟨⟩⟩

/-- A row that is being delivered stays so, unless somebody reports on it. -/
theorem fresh_exec (hrow : s.row id = some r) (hsta : r.resumeStatus = .notStarted)
    (hcl : r.resumeClaimedAt.isSome) (horg : r.origin.conversational = true)
    (hmay : x.may cmd) (hori : Origins s x)
    (hrpr : ∀ q, cmd = .sql q → q.reports id → o = .failed) :
    ∃ r', (s.exec cmd o).2.row id = some r' ∧ r'.resumeStatus = .notStarted ∧
      r'.resumeClaimedAt.isSome := by
  have hid : r.id = id := key_of_get hrow
  obtain ⟨r', hrow', -, hres⟩ := exec_resume cmd o hrow
  refine ⟨r', hrow', ?_⟩
  rcases hres with hsame | ⟨q, rfl, ho, hrsm⟩
  · exact ⟨hsame.1.trans hsta, by rw [hsame.2]; exact hcl⟩
  · cases hrsm with
    | claim _ _ hno =>
      rw [hno] at hcl
      cases hcl
    | lease _ _ hsta' hcl' => exact ⟨hsta', hcl'⟩
    | report hq => exact absurd (hrpr q rfl (hid ▸ hq)) ho
    | finish =>
      obtain ⟨r₀, hrow₀, hmcp⟩ := hori.claimed r.id hmay.2
      obtain rfl : r₀ = r := some.inj (hrow₀.symm.trans (hid ▸ hrow))
      rw [hmcp] at horg
      cases horg
    | skip _ hno =>
      rw [hno] at hcl
      cases hcl
    | recover _ _ hmcp =>
      rw [hmcp] at horg
      cases horg
    | requeue hunk =>
      rw [hsta] at hunk
      cases hunk

theorem fresh_of_pick {staleBefore : Time} (ho : o ≠ .failed)
    (hpi : pick s.world s.db.requests (.claimForDelivery staleBefore) = some r) :
    ∃ r', (s.exec (.sql (.claimForDelivery staleBefore)) o).2.row r.id = some r' ∧
      r'.resumeStatus = .notStarted ∧ r'.resumeClaimedAt.isSome := by
  obtain ⟨hmem, hdlv⟩ := firstBy_spec hpi
  have hrow : s.row r.id = some r := get_eq_some.2 ⟨hmem, rfl⟩
  have hexe := exec_row_free (s := s) (q := .claimForDelivery staleBefore) rfl rfl
    ⟨fun _ => rfl, fun _ _ => rfl, fun _ _ => rfl⟩ ho r.id
  rw [hrow, map_some, hpi] at hexe
  simp only [any_some, beq_self_eq_true] at hexe
  simp only [deliverable, and_eq_true, beq_iff_eq] at hdlv
  exact ⟨_, hexe, hdlv.1.1.1.2, rfl⟩

theorem inTime_snoc (hin : InTime (h ++ [st])) : InTime h :=
  hin.of_sub fun _ _ hst => getElem?_snoc hst st

theorem Work.run {q : Request} {k : Except HitlError (Reply cmd) → Prog Answer}
    {s' : (hitlSystem config).State} (hwo : Work h c g) (hin : InTime (h ++ [⟨c, .run i o, c'⟩]))
    (hta : c.tasks[i]? = some ⟨q, .running (.call cmd k)⟩)
    (hexec : (hitlSystem config).exec c.state i cmd o = some (reply, s'))
    (hc' : c' = ⟨s', c.tasks.set i ⟨q, .running (k reply)⟩⟩) (hx : g i = some x) (hmay : x.may cmd)
    (hori : ∀ i x, g i = some x → Origins c.state x) :
    Work (h ++ [⟨c, .run i o, c'⟩]) c' (Function.update g i (some (x.after cmd reply))) := by
  have hs : exec c.state cmd o = (reply, s') := some.inj hexec
  have hnx : c.next i = some cmd := next_of_getElem? hta
  have hrun : c.next i ≠ none := by rw [hnx]; simp
  have hnx' : ∀ j, j ≠ i → c'.next j = c.next j := by
    intro j hj
    rw [hc']
    exact next_set_ne hj _ _
  -- The other workers have not claimed the row that is claimed now.
  have hnew : ∀ j y id, j ≠ i → g j = some y → y.Holds id → c.next j ≠ none →
      ¬ LeasesRow (⟨c, .run i o, c'⟩ : Step (hitlSystem config)) i id := by
    intro j y id hj hy hh hjne hlea
    obtain ⟨m, st, hm, hst⟩ := hwo.leased j y id hy hh
    exact hjne (hin.leases m h.length st _ j i id (getElem?_snoc hm _) (by simp)
      (List.getElem?_eq_some_iff.1 hm).1 hst hlea)
  have hcla : ∀ staleBefore r, cmd = .sql (.claimForDelivery staleBefore) → o = .done →
      pick (world c.state) (db c.state).requests
        (.claimForDelivery staleBefore) = some r →
      LeasesRow (⟨c, .run i o, c'⟩ : Step (hitlSystem config)) i r.id := by
    rintro staleBefore r rfl rfl hpi
    exact ⟨.done, staleBefore, r, rfl, by simp, hnx, hpi, rfl⟩
  have hoth : ∀ j y id, j ≠ i → g j = some y → y.Holds id → c.next j ≠ none →
      ¬ (x.after cmd reply).Holds id := by
    intro j y id hj hy hh hjne haft
    rcases holds_exec hs hmay haft with ⟨hbef, -⟩ | ⟨staleBefore, r, hcmd, ho, hpi, rfl⟩
    · exact hj (hwo.alone j i y x id hy hx hh hbef hjne hrun)
    · exact hnew j y r.id hj hy hh hjne (hcla staleBefore r hcmd ho hpi)
  constructor
  · intro j y id hy hh
    rcases update_some hy with ⟨rfl, rfl⟩ | ⟨hj, hy⟩
    · rcases holds_exec hs hmay hh with ⟨hbef, -⟩ | ⟨staleBefore, r, hcmd, ho, hpi, rfl⟩
      · obtain ⟨m, st, hm, hst⟩ := hwo.leased j x id hx hbef
        exact ⟨m, st, getElem?_snoc hm _, hst⟩
      · exact ⟨h.length, _, by simp, hcla staleBefore r hcmd ho hpi⟩
    · obtain ⟨m, st, hm, hst⟩ := hwo.leased j y id hy hh
      exact ⟨m, st, getElem?_snoc hm _, hst⟩
  · intro j y id hy hh hjne
    have hrow' : ∀ r', (exec c.state cmd o).2.row id = some r' → row c'.state id = some r' := by
      intro r' hr'
      rw [hs] at hr'
      rw [hc']
      exact hr'
    -- Without a report the row stays as it is.
    have hsts : ∀ j y, g j = some y → y.Holds id → c.next j ≠ none →
        (∀ q, cmd = .sql q → q.reports id → o = .failed) → ∃ r', row c'.state id = some r' ∧
          r'.resumeStatus = .notStarted ∧ r'.resumeClaimedAt.isSome := by
      intro j y hy hh hjne hrpr
      obtain ⟨r, hrow, hsta, hcl⟩ := hwo.fresh j y id hy hh hjne
      obtain ⟨-, r₀, hrow₀, horg⟩ := (hori j y hy).held id hh
      obtain rfl : r = r₀ := some.inj (hrow.symm.trans hrow₀)
      obtain ⟨r', hr', hfr⟩ := fresh_exec (o := o) hrow hsta hcl horg hmay (hori i x hx) hrpr
      exact ⟨r', hrow' r' hr', hfr⟩
    rcases update_some hy with ⟨rfl, rfl⟩ | ⟨hj, hold⟩
    · rcases holds_exec hs hmay hh with ⟨hbef, hrpr⟩ | ⟨staleBefore, r, rfl, rfl, hpi, rfl⟩
      · refine hsts j x hx hbef hrun fun q hq hrep => ?_
        obtain ⟨rfl, hdone⟩ := hrpr q hq hrep
        cases o with
        | done => exact absurd rfl hdone
        | failed => rfl
        | lost =>
          -- The answer to this report is not lost.
          exact absurd (hq ▸ hnx) (hin.answered h.length ⟨c, .run j .lost, c'⟩ j id (by simp) rfl)
      · obtain ⟨r', hr', hfr⟩ := fresh_of_pick (o := .done) (by simp) hpi
        exact ⟨r', hrow' r' hr', hfr⟩
    · rw [hnx' j hj] at hjne
      refine hsts j y hold hh hjne ?_
      rintro q rfl hrep
      exact absurd (hwo.alone j i y x id hold hx hh (holds_of_reports hrep hmay) hjne hrun) hj
  · intro j l y z id hy hz hyho hzho hjne hlne
    rcases update_some hy with ⟨rfl, rfl⟩ | ⟨hj, hy⟩
    · rcases update_some hz with ⟨rfl, -⟩ | ⟨hl, hz⟩
      · rfl
      · exact absurd hyho (hoth l z id hl hz hzho (hnx' l hl ▸ hlne))
    · rw [hnx' j hj] at hjne
      rcases update_some hz with ⟨-, rfl⟩ | ⟨hl, hz⟩
      · exact absurd hzho (hoth j y id hj hy hyho hjne)
      · exact hwo.alone j l y z id hy hz hyho hzho hjne (hnx' l hl ▸ hlne)

/-- Nothing happens to the rows, and nobody takes a row in hand. -/
theorem Work.frame {g' : Nat → Option Known} (hwo : Work h c g) (st : Step (hitlSystem config))
    (hrows : ∀ id, row c'.state id = row c.state id)
    (hsub : ∀ j y id, g' j = some y → y.Holds id → g j = some y)
    (hnx : ∀ j y, g j = some y → c'.next j ≠ none → c.next j ≠ none) :
    Work (h ++ [st]) c' g' := by
  constructor
  · intro j y id hy hh
    obtain ⟨m, u, hm, hu⟩ := hwo.leased j y id (hsub j y id hy hh) hh
    exact ⟨m, u, getElem?_snoc hm st, hu⟩
  · intro j y id hy hh hj
    have hy := hsub j y id hy hh
    rw [hrows]
    exact hwo.fresh j y id hy hh (hnx j y hy hj)
  · intro j l y z id hy hz hyho hzho hj hl
    have hy := hsub j y id hy hyho
    have hz := hsub l z id hz hzho
    exact hwo.alone j l y z id hy hz hyho hzho (hnx j y hy hj) (hnx l z hz hl)

theorem inductive_origins : Inductive (hitlSystem config) resuming ⟨s, []⟩ start
      (fun q y _ => (start q).Clear y) (fun _ => True)
      fun _ c g => ∀ i x, g i = some x → Origins c.state x :=
  local_origins.isInductive

/-- **In time, a row that somebody has in hand is not delivered yet, and nobody else has it.** -/
theorem inductive_work : Inductive (hitlSystem config) resuming ⟨s, []⟩ start
      (fun q y _ => (start q).Clear y) (fun _ => True)
      fun h c g => (∀ i x, g i = some x → Origins c.state x) ∧ (InTime h → Work h c g) where
  spawn h c g q c' hru hc' hmt hkn hg := by
    refine ⟨inductive_origins.spawn h c g q c' hru hc' hmt hkn hg.1, fun hin => ?_⟩
    subst hc'
    refine (hg.2 (inTime_snoc hin)).frame _ (fun id => rfl) ?_ ?_
    · intro j y id hy hh
      rcases update_some hy with ⟨-, rfl⟩ | ⟨hj, hy⟩
      · rcases hh with hid | hid <;> cases hid
      · exact hy
    · intro j y hy hj
      obtain ⟨q', p, hta⟩ := hkn.known j y hy
      rwa [next_append (List.getElem?_eq_some_iff.1 hta).1] at hj
  run h c g i o q cmd k x r s' c' hru hta hexec hc' hx hal hmt hkn hg :=
    ⟨inductive_origins.run h c g i o q cmd k x r s' c' hru hta hexec hc' hx hal hmt
      hkn hg.1, fun hin => (hg.2 (inTime_snoc hin)).run hin hta hexec hc' hx hal hg.1⟩
  drop h c g i q cmd k c' hru hta hc' hmt hkn hg := by
    refine ⟨inductive_origins.drop h c g i q cmd k c' hru hta hc' hmt hkn hg.1, fun hin => ?_⟩
    subst hc'
    refine (hg.2 (inTime_snoc hin)).frame _ (fun id => rfl)
      (fun j y id hy _ => (update_none hy).2) fun j y hy hj => ?_
    by_cases hij : j = i
    · rw [hij, next_of_getElem? hta]
      simp
    · rwa [next_set_ne hij] at hj
  crash h c g c' hru hc' hmt hkn hg := by
    refine ⟨inductive_origins.crash h c g c' hru hc' hmt hkn hg.1, fun hin => ?_⟩
    subst hc'
    refine (hg.2 (inTime_snoc hin)).frame _ (fun id => rfl) (fun j y id hy _ => (of_crash hy).2)
      fun j y hy hj => ?_
    rw [next_interrupt] at hj
    exact absurd rfl hj

/-! ## The result -/

/-- In time, nobody is about to report on a row with a terminal `resume_status`, or to deliver
it. -/
theorem next_of_terminal (hru : Runs ⟨s, []⟩ h c) (hin : InTime h)
    (hrow : row c.state id = some r) (hterm : r.resumeStatus ≠ .notStarted)
    (hnx : c.next i = some cmd) : (∀ q, cmd = .sql q → ¬ q.reports id) ∧ ¬ cmd.delivers id := by
  obtain ⟨g, hkn, -, hwo⟩ := inductive_work.holds (follows_handle config) rfl
    ⟨fun i x hx => (nomatch hx), fun _ => ⟨fun i x id hx => (nomatch hx),
      fun i x id hx => (nomatch hx), fun i j x y id hx => (nomatch hx)⟩⟩ hru fun _ _ => trivial
  obtain ⟨x, hx, hmay⟩ := hkn.of_next hnx
  have hno : ¬ x.Holds id := by
    intro hh
    obtain ⟨r', hrow', hsta, -⟩ := (hwo hin).fresh i x id hx hh (by rw [hnx]; simp)
    obtain rfl : r = r' := some.inj (hrow.symm.trans hrow')
    exact hterm hsta
  constructor
  · rintro q rfl hrep
    exact hno (holds_of_reports hrep hmay)
  · intro hdel
    cases cmd with
    | sendResume row taskId contextId answer
    | enqueueMaf row fields => exact hno (.inl (hdel ▸ hmay.2))
    | _ => cases hdel

/-- A terminal `resume_status` is not changed in time, unless a human puts the row back. -/
theorem terminal_step (hru : Runs ⟨s, []⟩ h c) (hin : InTime h) (hst : h[m]? = some st)
    (hrow : row st.before.state id = some r) (hterm : r.resumeStatus ≠ .notStarted)
    (hreq : ¬ RequeuesRow st id) :
    ¬ DeliversRow st id ∧
      ∃ r', row st.after.state id = some r' ∧ r'.resumeStatus = r.resumeStatus := by
  have hbef := (hru.take hst).1
  have hinti : InTime (h.take m) := by
    refine hin.of_sub fun k u hu => ?_
    rw [getElem?_take] at hu
    split at hu
    · exact hu
    · cases hu
  constructor
  · rintro ⟨i, o, cmd, -, hnx, hdel⟩
    exact (next_of_terminal hbef hinti hrow hterm hnx).2 hdel
  · obtain ⟨r', hrow', -, hres⟩ := step_row hru hst hrow
    have hid : r.id = id := key_of_get hrow
    refine ⟨r', hrow', ?_⟩
    rcases hres with hres | ⟨i, q, x, hperf, hrsm⟩
    · exact hres.1
    · -- Every other statement asks for `not_started`.
      cases hrsm with
      | claim _ hsta | lease hsta => exact absurd hsta hterm
      | report hq =>
        exact absurd (hid ▸ hq) ((next_of_terminal hbef hinti hrow hterm hperf.next).1 q rfl)
      | finish hsta | skip hsta | recover hsta => exact absurd hsta hterm
      | requeue _ _ =>
        rw [hid] at hperf
        exact absurd (requeuesRow_of_performs hperf) hreq

/-- The row has the `resume_status`. -/
def HasResumeStatus (id : Uuid) (status : ResumeStatus) (s : State) : Prop :=
  ∃ r, s.row id = some r ∧ r.resumeStatus = status

/-- **In time, a terminal `resume_status` stays.** In every run, from any database, in which a row
is claimed for delivery again only when the worker that had it is gone, and in which the answer to
the report that a decision has arrived is not lost: once the `resume_status` of a row is not
`not_started`, no step changes it and no step delivers the row, until a human puts it back. -/
theorem terminal_kept (hruns : Runs ⟨s, []⟩ h c) (hin : InTime h) (id : Uuid)
    (status : ResumeStatus)
    (hterminal : status ≠ .notStarted) (m n : Nat) (st st' : Step (hitlSystem config))
    (hm : h[m]? = some st) (hn : h[n]? = some st') (hmn : m ≤ n)
    (hstatus : HasResumeStatus id status st.before.state)
    (hrequeues : ∀ (k : Nat) (u : Step (hitlSystem config)), h[k]? = some u → m ≤ k → k ≤ n →
      ¬ RequeuesRow u id) :
    ¬ DeliversRow st' id ∧ HasResumeStatus id status st'.after.state := by
  have hkept : ∀ (k : Nat) (u : Step (hitlSystem config)), h[k]? = some u → m ≤ k → k ≤ n →
      HasResumeStatus id status u.before.state →
      ¬ DeliversRow u id ∧ HasResumeStatus id status u.after.state := by
    rintro k u hk hmk hkn ⟨r, hrow, rfl⟩
    exact terminal_step hruns hin hk hrow hterminal (hrequeues k u hk hmk hkn)
  rcases Nat.lt_or_eq_of_le hmn with hlt | rfl
  · refine hkept n st' hn hmn (Nat.le_refl n) ?_
    exact hruns.keeps hm (hkept m st hm (Nat.le_refl m) hmn hstatus).2 hn hlt
      fun k u hk hmk hkn hbef => (hkept k u hk hmk.le hkn.le hbef).2
  · obtain rfl : st = st' := some.inj (hm.symm.trans hn)
    exact hkept m st hm hmn (Nat.le_refl m) hstatus

/-! ## Two workers -/

def answeredTask : HitlRequest :=
  { pausedTask with
    status := .resolved
    humanResponse := some (.object [])
    resolvedAt := some 300 }

/-- The answer is not delivered yet. -/
def undelivered : State where
  db := { requests := ⟨[answeredTask], by decide +kernel, by decide +kernel, by decide +kernel⟩
          grants := [] }
  aliases := []
  world := sampleWorld

/-- An hour later all leases have run out. -/
def leaselessWorld : World := { sampleWorld with now := hours 1, utc := hours 1 }

/-- A worker delivers the answer; an hour later another one looks for work. -/
def quickWorker : List (Action Request) :=
  List.flatten [[.spawn .deliver], turns 0 9,
    [.spawn (.change leaselessWorld), .run 1 .done, .spawn .deliver], turns 2 2]

/-- A worker is held up before it sends the answer. An hour later another one claims the row and
delivers it; then the first one sends the answer again, and cannot make sense of the reply. -/
def slowWorker : List (Action Request) :=
  List.flatten [[.spawn .deliver], turns 0 7,
    [.spawn (.change leaselessWorld), .run 1 .done, .spawn .deliver], turns 2 9,
    [.spawn (.change { leaselessWorld with agentReply := .unclassified }), .run 3 .done],
    turns 0 2]

/-- Does the step claim a row for delivery? -/
def leases (st : Step (hitlSystem config)) : Bool :=
  match st.action with
  | .run i _ => picks st.before.state (st.before.next i)
  | _ => false
where
  picks (s : State) : Option Command → Bool
    | some (.sql (.claimForDelivery staleBefore)) =>
      (pick s.world s.db.requests (.claimForDelivery staleBefore)).isSome
    | _ => false

theorem LeasesRow.eval (hlea : LeasesRow st i id) : leases st = true := by
  obtain ⟨o, staleBefore, r, hact, -, hnx, hpi, -⟩ := hlea
  simp [leases, hact, leases.picks, hnx, hpi]

/-- Are the answers of the run not lost, and is only the step with the number a claim? -/
def claimsOnce (k : Nat) (h : List (Step (hitlSystem config))) : Bool :=
  h.zipIdx.all fun x => (!leases x.1 || x.2 == k) && !lost x.1.action
where
  lost : Action Request → Bool
    | .run _ .lost => true
    | _ => false

theorem inTime_of_claimsOnce {k : Nat} (hev : claimsOnce k h = true) : InTime h := by
  have honce : ∀ (m : Nat) (st : Step (hitlSystem config)), h[m]? = some st →
      (leases st = true → m = k) ∧ claimsOnce.lost st.action = false := by
    intro m st hm
    have hx := all_eq_true.1 hev (st, m) (mem_zipIdx_iff_getElem?.2 hm)
    simp only [and_eq_true, or_eq_true, not_eq_true', beq_iff_eq] at hx
    refine ⟨fun hlea => ?_, hx.2⟩
    rcases hx.1 with hnot | hk
    · rw [hlea] at hnot
      cases hnot
    · exact hk
  constructor
  · intro m n st st' i j id hm hn hlt hst hst'
    have hmk := (honce m st hm).1 hst.eval
    have hnk := (honce n st' hn).1 hst'.eval
    omega
  · intro m st i id hm hact
    have hlost := (honce m st hm).2
    rw [hact] at hlost
    cases hlost

/-- Is the row with the id in the state, and has it the `resume_status`? -/
def hasResumeStatus (id : Uuid) (status : ResumeStatus) (s : State) : Bool :=
  (s.row id).any fun r => r.resumeStatus == status

theorem hasResumeStatus_of_eval {status : ResumeStatus}
    (hev : hasResumeStatus id status s = true) : HasResumeStatus id status s := by
  obtain ⟨r, hrow, hsta⟩ := (any_eq_true _ _).1 hev
  exact ⟨r, hrow, beq_iff_eq.1 hsta⟩

def Request.requeues : Request → Bool
  | .requeue _ _ => true
  | _ => false

theorem not_requeuesRow (hru : Runs ⟨s, []⟩ h c) (hst : h[m]? = some st)
    (hno : (c.tasks.all fun t => !t.request.requeues) = true) : ¬ RequeuesRow st id := by
  rintro ⟨i, o, -, -, -, hrqs⟩
  obtain ⟨t, ht, hask⟩ := map_eq_some_iff.1 (hru.request_of_before hst hrqs)
  have hreq := all_eq_true.1 hno t (mem_of_getElem? ht)
  rw [hask] at hreq
  cases hreq

theorem quick_worker_completed : ∃ (h : List (Step (hitlSystem sampleConfig))) (c : _) (st st' : _),
      Runs ⟨undelivered, []⟩ h c ∧ InTime h ∧ h[10]? = some st ∧ h[14]? = some st' ∧
      HasResumeStatus 2 .completed st.before.state ∧ ¬ DeliversRow st' 2 ∧
      HasResumeStatus 2 .completed st'.after.state := by
  obtain ⟨h, c, hru, honce, ⟨st, hst, hev⟩, hlast, hno⟩ := exists_runs
    (⟨undelivered, []⟩ : Concurrency.Config (hitlSystem sampleConfig)) quickWorker
    (fun h c => claimsOnce 2 h = true ∧
      (∃ st ∈ h[10]?, hasResumeStatus 2 .completed st.before.state = true) ∧ h[14]?.isSome = true ∧
      (c.tasks.all fun t => !t.request.requeues) = true)
    (by decide +kernel)
  obtain ⟨st', hst'⟩ := isSome_iff_exists.1 hlast
  have hin := inTime_of_claimsOnce honce
  have hsta := hasResumeStatus_of_eval hev
  exact ⟨h, c, st, st', hru, hin, hst, hst', hsta,
    terminal_kept hru hin 2 .completed (by decide) 10 14 st st' hst hst' (by omega) hsta
      fun k u hu _ _ => not_requeuesRow hru hu hno⟩

def deliversRow (st : Step (hitlSystem config)) (id : Uuid) : Bool :=
  match st.action with
  | .run i _ => delivers (st.before.next i)
  | _ => false
where
  delivers : Option Command → Bool
    | some (.sendResume row _ _ _) => row.id == id
    | some (.enqueueMaf row _) => row.id == id
    | _ => false

theorem deliversRow_of_eval (hev : deliversRow st id = true) : DeliversRow st id := by
  unfold deliversRow at hev
  split at hev
  · rename_i i o hact
    unfold deliversRow.delivers at hev
    split at hev
    · rename_i hnx
      exact ⟨i, o, _, hact, hnx, beq_iff_eq.1 hev⟩
    · rename_i hnx
      exact ⟨i, o, _, hact, hnx, beq_iff_eq.1 hev⟩
    · cases hev
  · cases hev

/-- **A late report overwrites a terminal `resume_status`.** The row is completed before step 22;
this step delivers it once more, and the next one says that the outcome is not known. Nobody has put
the row back. -/
theorem late_report_overwrites : ∃ (h : List (Step (hitlSystem sampleConfig))) (c : _) (st st' : _),
      Runs ⟨undelivered, []⟩ h c ∧ h[22]? = some st ∧ h[23]? = some st' ∧
      HasResumeStatus 2 .completed st.before.state ∧ DeliversRow st 2 ∧
      HasResumeStatus 2 .deliveryOutcomeUnknown st'.after.state ∧
      c.tasks.all (fun t => !t.request.requeues) = true := by
  obtain ⟨h, c, hru, ⟨st, hst, hbef, hdel⟩, ⟨st', hst', haft⟩, hno⟩ := exists_runs
    (⟨undelivered, []⟩ : Concurrency.Config (hitlSystem sampleConfig)) slowWorker
    (fun h c => (∃ st ∈ h[22]?, hasResumeStatus 2 .completed st.before.state = true ∧
        deliversRow st 2 = true) ∧
      (∃ st ∈ h[23]?, hasResumeStatus 2 .deliveryOutcomeUnknown st.after.state = true) ∧
      (c.tasks.all fun t => !t.request.requeues) = true)
    (by decide +kernel)
  exact ⟨h, c, st, st', hru, hst, hst', hasResumeStatus_of_eval hbef,
    deliversRow_of_eval hdel, hasResumeStatus_of_eval haft, hno⟩

end Nasiko.Hitl
