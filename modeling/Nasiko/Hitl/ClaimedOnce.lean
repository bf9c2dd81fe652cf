import Nasiko.Hitl.Leases

/-!
# A nudge is sent for one claim only

The dispatcher of the gateway claims a row whose `resume_claimed_at` is not set and never clears it.
Of the statements that can change this column of a row of origin `mcp_tool`, only the requeue by a
human clears it. `step_row` says what any step of a run does to a row, together with what the
protocol says about the task that takes the step; the claims of a row and the changes of a terminal
`resume_status` are read off from it.

Main results: `claimed_once_per_requeue`, and `used_once` about the decisions for tool calls.
-/

namespace Nasiko.Hitl

open Concurrency Sql Option Bool State Config Statement Table

variable {config : Config} {s : State} {h : List (Step (hitlSystem config))}
  {c : Concurrency.Config (hitlSystem config)} {st : Step (hitlSystem config)} {m : Nat} {id : Uuid}
  {r : HitlRequest}
  {x : Known} {q : Statement}

/-! ## Any step of a run -/

/-- In a run each task knows what it was asked for, and works on rows of its own kind. -/
theorem exists_known (hru : Runs ⟨s, []⟩ h c) :
    ∃ g, Knows (hitlSystem config) resuming (fun q y _ => (Known.start q).Clear y) g c ∧
      (∀ i x, g i = some x → c.request i = some x.request) ∧
      ∀ i x, g i = some x → Origins c.state x := by
  have hreq : Inductive (hitlSystem config) resuming ⟨s, []⟩ Known.start
      (fun q y _ => (Known.start q).Clear y) (fun _ => True)
      fun _ c g => ∀ i x, g i = some x → c.request i = some x.request :=
    inductive_request (fun q => rfl) request_after
  exact (hreq.and local_origins.isInductive).holds (follows_handle config) rfl
    ⟨fun i x hx => (nomatch hx), fun i x hx => (nomatch hx)⟩ hru fun _ _ => trivial

/-- The task with the number carries out the statement, and may do so. -/
structure Performs (st : Step (hitlSystem config)) (i : Nat) (q : Statement) (x : Known) :
    Prop where
  action : ∃ o, st.action = .run i o ∧ o ≠ .failed
  next : st.before.next i = some (.sql q)
  request : st.before.request i = some x.request
  may : x.may (.sql q)
  origins : Origins st.before.state x

/-- **What a step of a run does to a row.** -/
theorem step_row (hru : Runs ⟨s, []⟩ h c) (hst : h[m]? = some st)
    (hrow : row st.before.state id = some r) :
    ∃ r', row st.after.state id = some r' ∧ r'.identity = r.identity ∧
      (SameResume r r' ∨ ∃ i q x, Performs st i q x ∧ Resumes q r r') := by
  obtain ⟨hbef, hsp⟩ := hru.take hst
  obtain ⟨g, hkn, hreq, hori⟩ := exists_known hbef
  cases hact : st.action with
  | spawn q =>
    rw [hact] at hsp
    rw [← some.inj hsp]
    exact ⟨r, hrow, rfl, .inl ⟨rfl, rfl⟩⟩
  | run i o =>
    rw [hact] at hsp
    obtain ⟨q, cmd, k, reply, s', htask, hexec, haft⟩ := step_run hsp
    obtain ⟨x, hx, hfol⟩ := hkn.running i q _ htask
    have hs : exec st.before.state cmd o = (reply, s') := some.inj hexec
    obtain ⟨r', hrow', hsame, hres⟩ := exec_resume cmd o hrow
    rw [hs] at hrow'
    rw [haft]
    refine ⟨r', hrow', hsame, hres.imp (fun h => h) ?_⟩
    rintro ⟨q', rfl, ho, hrsm⟩
    exact ⟨i, q', x, ⟨⟨o, hact, ho⟩, next_of_getElem? htask, hreq i x hx, hfol.1,
      hori i x hx⟩, hrsm⟩
  | drop i =>
    rw [hact] at hsp
    obtain ⟨q, cmd, k, htask, haft⟩ := step_drop hsp
    rw [haft]
    exact ⟨r, hrow, rfl, .inl ⟨rfl, rfl⟩⟩
  | crash =>
    rw [hact] at hsp
    rw [← some.inj hsp]
    exact ⟨r, hrow, rfl, .inl ⟨rfl, rfl⟩⟩

theorem holds_of_reports (hq : q.reports id) (hmay : x.may (.sql q)) : x.Holds id := by
  cases q with
  | updateCompleted id' | updateFailed id' error threshold => exact hq ▸ .inl hmay.2
  | updateUnknown id' => exact hq ▸ hmay.2
  | _ => cases hq

/-- A report is about a row with a task, and comes from the dispatcher of the tasks. -/
theorem conversational_of_reports {i : Nat} (hpe : Performs st i q x)
    (hq : q.reports id) (hrow : row st.before.state id = some r) :
    st.before.request i = some .deliver ∧ r.origin.conversational = true := by
  obtain ⟨hreq, r', hrow', horg⟩ :=
    hpe.origins.held id (holds_of_reports hq hpe.may)
  obtain rfl : r = r' := some.inj (hrow.symm.trans hrow')
  exact ⟨by rw [hpe.request, hreq], horg⟩

/-! ## Claims and requeues -/

/-- In this step the dispatcher of the gateway claims the row. -/
def ClaimsRow (st : Step (hitlSystem config)) (id : Uuid) : Prop :=
  ∃ i o r, st.action = .run i o ∧ o ≠ .failed ∧ st.before.next i = some (.sql .claimForResume) ∧
    pick (State.world st.before.state) (State.db st.before.state).requests .claimForResume =
      some r ∧ r.id = id

/-- In this step a human puts the row back. -/
def RequeuesRow (st : Step (hitlSystem config)) (id : Uuid) : Prop :=
  ∃ i o, st.action = .run i o ∧ o ≠ .failed ∧ st.before.next i = some (.sql (.requeueResume id)) ∧
    st.before.request i = some (.requeue true id)

/-- The step belongs to the dispatcher of the tasks. -/
def ByDeliver (st : Step (hitlSystem config)) : Prop :=
  ∃ i o, st.action = .run i o ∧ st.before.request i = some .deliver

theorem requeuesRow_of_performs {i : Nat}
    (hpe : Performs st i (.requeueResume id) x) : RequeuesRow st id := by
  obtain ⟨o, hact, ho⟩ := hpe.action
  have hreq : x.request = .requeue true id := hpe.may.2
  exact ⟨i, o, hact, ho, hpe.next, by rw [hpe.request, hreq]⟩

def ClaimedMcpRow (id : Uuid) (s : State) : Prop :=
  ∃ r, s.row id = some r ∧ r.origin = .mcpTool ∧ r.resumeClaimedAt.isSome

theorem claimedMcpRow_after (hru : Runs ⟨s, []⟩ h c) (hst : h[m]? = some st)
    (hclm : ClaimsRow st id) : ClaimedMcpRow id st.after.state := by
  obtain ⟨i, o, r, hact, ho, hnext, hpick, rfl⟩ := hclm
  obtain ⟨-, hsp⟩ := hru.take hst
  rw [hact] at hsp
  obtain ⟨q, cmd, k, reply, s', htask, hexec, haft⟩ := step_run hsp
  obtain rfl : cmd = .sql .claimForResume :=
    some.inj ((next_of_getElem? htask).symm.trans hnext)
  have hs : exec st.before.state (.sql .claimForResume) o = (reply, s') :=
    some.inj hexec
  obtain ⟨hmem, hcla⟩ := firstBy_spec hpick
  have hrow : row st.before.state r.id = some r := get_eq_some.2 ⟨hmem, rfl⟩
  have hexe := exec_row_free (s := st.before.state) (q := .claimForResume) rfl rfl
    ⟨fun _ => rfl, fun _ _ => rfl, fun _ _ => rfl⟩ ho r.id
  simp only [claimable, and_eq_true, beq_iff_eq] at hcla
  rw [hs, hrow, map_some, hpick] at hexe
  simp only [any_some, beq_self_eq_true] at hexe
  rw [haft]
  exact ⟨_, hexe, hcla.1.2, rfl⟩

/-- Only a requeue by a human makes the row claimable again. -/
theorem claimedMcpRow_step (hru : Runs ⟨s, []⟩ h c) (hst : h[m]? = some st)
    (hcl : ClaimedMcpRow id st.before.state) (hrqs : ¬ RequeuesRow st id) :
    ClaimedMcpRow id st.after.state := by
  obtain ⟨r, hrow, horg, hso⟩ := hcl
  obtain ⟨r', hrow', hsame, hres⟩ := step_row hru hst hrow
  have hid : r.id = id := key_of_get hrow
  refine ⟨r', hrow', (origin_of_identity hsame).trans horg, ?_⟩
  rcases hres with hres | ⟨i, q, x, hpe, hrsm⟩
  · rw [hres.2]
    exact hso
  · cases hrsm with
    | claim _ _ hnone =>
      rw [hnone] at hso
      cases hso
    | lease _ horg' =>
      rw [horg] at horg'
      cases horg'
    | report hq =>
      have hconv := (conversational_of_reports hpe (hid ▸ hq) hrow).2
      rw [horg] at hconv
      cases hconv
    | finish _ _ hcl' => rwa [hcl']
    | skip _ hnone =>
      rw [hnone] at hso
      cases hso
    | recover _ _ _ hcl' => rwa [hcl']
    | requeue _ _ =>
      rw [hid] at hpe
      exact absurd (requeuesRow_of_performs hpe) hrqs

theorem not_claimsRow (hcl : ClaimedMcpRow id st.before.state) : ¬ ClaimsRow st id := by
  rintro ⟨i, o, r, -, -, -, hpick, rfl⟩
  obtain ⟨r', hrow, -, hso⟩ := hcl
  obtain ⟨hmem, hcla⟩ := firstBy_spec hpick
  obtain rfl : r = r' := some.inj ((get_eq_some.2 ⟨hmem, rfl⟩).symm.trans hrow)
  simp only [claimable, and_eq_true, isNone_iff_eq_none] at hcla
  rw [hcla.1.1.2] at hso
  cases hso

/-! ## The result -/

/-- **The dispatcher of the gateway claims a row once between two requeues.** In every run, from any
database: between two steps that claim the same row a human has put the row back. And a terminal
`resume_status` only ever changes from `delivery_outcome_unknown` to `not_started`, when a human
puts the row back; this holds for the rows of the gateway in every step, and for all rows in every
step that the dispatcher of the tasks does not take. -/
theorem claimed_once_per_requeue (hruns : Runs ⟨s, []⟩ h c) (id : Uuid) :
    (∀ (m n : Nat) (st st' : Step (hitlSystem config)), h[m]? = some st → h[n]? = some st' → m < n →
      ClaimsRow st id → ClaimsRow st' id →
      ∃ (k : Nat) (u : Step (hitlSystem config)), m < k ∧ k < n ∧ h[k]? = some u ∧
        RequeuesRow u id) ∧
    ∀ (m : Nat) (st : Step (hitlSystem config)) (r r' : HitlRequest), h[m]? = some st →
      row st.before.state id = some r → row st.after.state id = some r' →
      r.resumeStatus ≠ .notStarted → r'.resumeStatus ≠ r.resumeStatus →
      r.origin = .mcpTool ∨ ¬ ByDeliver st →
      r.resumeStatus = .deliveryOutcomeUnknown ∧ r'.resumeStatus = .notStarted ∧
        RequeuesRow st id := by
  constructor
  · intro m n st st' hm hn hlt hclm hclm'
    by_contra hnone
    have hcl : ClaimedMcpRow id st'.before.state := by
      refine hruns.keeps hm (claimedMcpRow_after hruns hm hclm) hn hlt ?_
      intro k u hk hmk hkn hbef
      exact claimedMcpRow_step hruns hk hbef fun hreq =>
        hnone ⟨k, u, hmk, hkn, hk, hreq⟩
    exact not_claimsRow hcl hclm'
  · intro m st r r' hm hrow hrow' hterm hcha hkind
    obtain ⟨x, hx, -, hres⟩ := step_row hruns hm hrow
    obtain rfl : r' = x := some.inj (hrow'.symm.trans hx)
    have hid : r.id = id := key_of_get hrow
    rcases hres with hres | ⟨i, q, x, hpe, hrsm⟩
    · exact absurd hres.1 hcha
    · -- Every other statement asks for `not_started`.
      cases hrsm with
      | claim _ hst | lease hst => exact absurd hst hterm
      | report hq =>
        obtain ⟨hdel, hconv⟩ := conversational_of_reports hpe (hid ▸ hq) hrow
        obtain ⟨o, hact, -⟩ := hpe.action
        rcases hkind with horg | hoth
        · rw [horg] at hconv
          cases hconv
        · exact absurd ⟨i, o, hact, hdel⟩ hoth
      | finish hst | skip hst | recover hst => exact absurd hst hterm
      | requeue hst hst' =>
        rw [hid] at hpe
        exact ⟨hst, hst', requeuesRow_of_performs hpe⟩

def claimsRow (st : Step (hitlSystem config)) (id : Uuid) : Bool :=
  match st.action with
  | .run i o => o != .failed && claims (st.before.next i) &&
    (pick (State.world st.before.state) (State.db st.before.state).requests
      .claimForResume).any fun r => r.id == id
  | _ => false
where
  claims : Option Command → Bool
    | some (.sql .claimForResume) => true
    | _ => false

theorem claimsRow_of_eval (hev : claimsRow st id = true) : ClaimsRow st id := by
  unfold claimsRow at hev
  split at hev
  · rename_i i o hact
    simp only [and_eq_true, bne_iff_ne, any_eq_true, beq_iff_eq] at hev
    obtain ⟨⟨ho, hnext⟩, r, hpick, hid⟩ := hev
    refine ⟨i, o, r, hact, ho, ?_, hpick, hid⟩
    unfold claimsRow.claims at hnext
    split at hnext
    · assumption
    · cases hnext
  · cases hev

def laterWorld : World := { sampleWorld with now := hours 1 }

/-- The user agrees; a worker claims the row and dies; the row is recovered, and a human puts it
back; another worker claims it. -/
def claimTwice : List (Action Request) :=
  [.spawn (.resolve owner 1 approveOnce), .run 0 .done, .run 0 .done, .spawn .dispatch,
    .run 1 .done, .drop 1, .spawn (.change laterWorld), .run 2 .done, .spawn .recover, .run 3 .done,
    .spawn (.requeue true 1), .run 4 .done, .spawn .dispatch, .run 5 .done]

theorem claim_twice_requeued :
    ∃ (h : List (Step (hitlSystem sampleConfig))) (c : _), Runs ⟨waiting, []⟩ h c ∧
      (∃ st, h[4]? = some st ∧ ClaimsRow st 1) ∧ (∃ st, h[13]? = some st ∧ ClaimsRow st 1) ∧
      ∃ k u, 4 < k ∧ k < 13 ∧ h[k]? = some u ∧ RequeuesRow u 1 := by
  obtain ⟨h, c, hru, ⟨st, hst, hev⟩, st', hst', hev'⟩ := exists_runs
    (⟨waiting, []⟩ : Concurrency.Config (hitlSystem sampleConfig)) claimTwice
    (fun h _ => (∃ st ∈ h[4]?, claimsRow st 1 = true) ∧ ∃ st ∈ h[13]?, claimsRow st 1 = true)
    (by decide +kernel)
  have hclm := claimsRow_of_eval hev
  have hclm' := claimsRow_of_eval hev'
  exact ⟨h, c, hru, ⟨st, hst, hclm⟩, ⟨st', hst', hclm'⟩,
    (claimed_once_per_requeue hru 1).1 4 13 st st' hst hst' (by omega) hclm hclm'⟩

/-! ## Decisions

A call that was held back is retried, and takes the decision about it. `consumed_at` is set by the
same statement and never cleared. -/

def Statement.isUse : Statement → Bool
  | claimToolApproval _ _ _ _ _ => true
  | _ => false

/-- In this step a call takes the decision. -/
def usesUp (st : Step (hitlSystem config)) (id : Uuid) : Bool :=
  match st.action with
  | .run i o => o != .failed && match st.before.next i with
    | some (.sql q) => q.isUse && (q.pick (State.world st.before.state)
        (State.db st.before.state).requests).any (·.id == id)
    | _ => false
  | _ => false

theorem invariable_consumed :
    Invariable fun r r' => r.consumedAt.isSome = true → r'.consumedAt.isSome = true where
  refl _ := id
  trans r r' r'' h h' := h' ∘ h
  set w t q u r heff _ hused := by
    cases q with
    | insertOrRefresh req conflict expiresAt =>
      simp only [effect] at heff
      split at heff
      · cases heff
        exact hused
      · cases heff
    | _ =>
      cases heff
      try first | exact hused | rfl

/-- A decision that is taken was free, and is not free afterwards. -/
theorem consumed_of_usesUp (hruns : Runs ⟨s, []⟩ h c) (hst : h[m]? = some st)
    (huse : usesUp st id = true) :
    (∃ r, row st.before.state id = some r ∧ r.consumedAt = none) ∧
      ∃ r, row st.after.state id = some r ∧ r.consumedAt.isSome = true := by
  unfold usesUp at huse
  split at huse
  · next i o hact =>
    obtain ⟨-, hsp⟩ := hruns.take hst
    rw [hact] at hsp
    obtain ⟨_, cmd, k, reply, s', htask, hexec, haft⟩ := step_run hsp
    rw [and_eq_true, next_of_getElem? htask, bne_iff_ne] at huse
    obtain ⟨ho, huse⟩ := huse
    split at huse
    · next q heq =>
      cases heq
      rw [and_eq_true, any_eq_true] at huse
      obtain ⟨hq, r, hpick, hid⟩ := huse
      cases q with
      | claimToolApproval owner agent connector tool context =>
        obtain ⟨hmem, hfree⟩ := firstBy_spec hpick
        simp only [singleUse, and_eq_true, isNone_iff_eq_none] at hfree
        have hs : exec st.before.state _ o = (reply, s') := some.inj hexec
        have hrow : row st.before.state id = some r :=
          get_eq_some.2 ⟨hmem, beq_iff_eq.1 hid⟩
        have hexe := exec_row_free (s := st.before.state)
          (q := .claimToolApproval owner agent connector tool context) rfl rfl
          ⟨fun _ => rfl, fun _ _ => rfl, fun _ _ => rfl⟩ ho id
        rw [hs, hrow, map_some, hpick] at hexe
        simp only [any_some, beq_self_eq_true] at hexe
        rw [haft]
        exact ⟨⟨r, hrow, by tauto⟩, _, hexe, rfl⟩
      | _ => cases hq
    · cases huse
  · cases huse

/-- **A decision for one call is taken by one call only**, whatever happens in between. -/
theorem used_once (hruns : Runs ⟨s, []⟩ h c) {n : Nat} {st' : Step (hitlSystem config)}
    (hm : h[m]? = some st) (hn : h[n]? = some st') (hlt : m < n) (huse : usesUp st id = true) :
    usesUp st' id = false := by
  rw [← not_eq_true]
  intro huse'
  obtain ⟨-, r, hrow, hused⟩ := consumed_of_usesUp hruns hm huse
  obtain ⟨⟨r', hrow', hfree⟩, -⟩ := consumed_of_usesUp hruns hn huse'
  obtain ⟨x, hx, hkept⟩ := invariable_consumed.persistent.between hruns hm hn hlt id r hrow
  cases hx.symm.trans hrow'
  rw [hfree] at hkept
  cases hkept hused

/-- The user agrees, and the call is made twice. -/
theorem used_once_retry : ∃ (h : List (Step (hitlSystem sampleConfig))) (c : _),
    Runs ⟨waiting, []⟩ h c ∧ ∃ st st', h[4]? = some st ∧ h[6]? = some st' ∧ usesUp st 1 = true ∧
      usesUp st' 1 = false := by
  obtain ⟨h, c, hruns, ⟨st, hst, huse⟩, st', hst', -⟩ := exists_runs
    (⟨waiting, []⟩ : Concurrency.Config (hitlSystem sampleConfig))
    [.spawn (.resolve owner 1 approveOnce), .run 0 .done, .run 0 .done,
      .spawn (.claimApproval 7 9 3 "send" "flow"), .run 1 .done,
      .spawn (.claimApproval 7 9 3 "send" "flow"), .run 2 .done]
    (fun h _ => (∃ st ∈ h[4]?, usesUp st 1 = true) ∧ ∃ st ∈ h[6]?, True) (by decide +kernel)
  exact ⟨h, c, hruns, st, st', hst, hst', huse, used_once hruns hst hst' (by omega) huse⟩

end Nasiko.Hitl
