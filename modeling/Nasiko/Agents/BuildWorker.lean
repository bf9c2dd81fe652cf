import Nasiko.Text.Uuid

/-!
# The status of a build job

Each server runs a worker that claims jobs of `build_jobs`, executes them, and writes how they
ended. A sweep takes care of the jobs that have been in progress for too long: it fails them, or
queues them again for another attempt.

**Theorem (`kept_of_idle`).** A job that is done or failed keeps its status in every run in which no
sweep meets a job that is still executed. A worker does not look at the status before it writes how
an execution ended; where a sweep has handed the job to another worker, the slower one writes last.

**Theorem (`executed_at_most_three`).** No job is executed more than three times.

The invariant of the first is `Orderly`: a job is executed by at most one worker, and is in progress
then. Times are in minutes. What a job builds and where its rows are cleaned up is left out.
-/

namespace Nasiko.Agents.BuildWorker

open List Bool Int

inductive JobStatus where
  | pending
  | inProgress
  | done
  | failed
  deriving DecidableEq

/-- A row of `build_jobs`; `target` is the id of an agent or of a connector. -/
structure BuildJob where
  id : Uuid
  target : Uuid ⊕ Uuid
  status : JobStatus
  attempt : Int
  pickedAt : Option Int
  deriving DecidableEq

structure Claim where
  replica : Nat
  job : BuildJob
  deriving DecidableEq

structure State where
  now : Int
  jobs : List BuildJob
  running : List Claim

def maxAttempts : Int := 3

def stuckJobMins : Int := 60

namespace State

variable (s : State)

/-- `UPDATE build_jobs SET … WHERE …`. -/
def update (p : BuildJob → Bool) (f : BuildJob → BuildJob) : State :=
  { s with jobs := s.jobs.map fun j => if p j then f j else j }

def markJob (id : Uuid) (status : JobStatus) : State :=
  s.update (·.id = id) fun j => { j with status := status }

/-- The job waits, and no other job for its target is in progress. -/
def claimable (j : BuildJob) : Bool :=
  j.status = .pending && !s.jobs.any fun b => b.status = .inProgress &&
    b.pickedAt.any (s.now - stuckJobMins < ·) && b.target = j.target

variable (replica : Nat)

/-- The order of the queue and the locks of other claims decide which claimable job is next. -/
def claimNextJob (id : Uuid) : State :=
  match s.jobs.find? fun j => j.id = id && s.claimable j with
  | some job =>
    { s.update (·.id = id) fun j =>
        { j with status := .inProgress, pickedAt := some s.now, attempt := j.attempt + 1 } with
      running := ⟨replica, job⟩ :: s.running }
  | none => s

/-- The jobs that a worker executes; those over the limit of attempts are failed without that. -/
def inFlight : List Uuid :=
  (s.running.filter fun c => c.replica = replica && c.job.attempt < maxAttempts).map (·.job.id)

/-- The job has been in progress for too long, and the worker does not execute it itself. -/
def stuck (j : BuildJob) : Bool :=
  j.status = .inProgress && j.pickedAt.any (· < s.now - stuckJobMins) && j.id ∉ s.inFlight replica

def recoverStuckJobs : State :=
  s.update (s.stuck replica) fun j =>
    if maxAttempts ≤ j.attempt then { j with status := .failed }
    else { j with status := .pending, pickedAt := none }

def resetPanickedJob (c : Claim) : State :=
  if maxAttempts ≤ c.job.attempt then s.markJob c.job.id .failed
  else s.update (·.id = c.job.id) fun j => { j with status := .pending, pickedAt := none }

end State

inductive Event where
  | wait (mins : Nat)
  | enqueue (id : Uuid) (target : Uuid ⊕ Uuid)
  | claim (replica : Nat) (id : Uuid)
  /-- The worker marks the job as done or failed. -/
  | finish (c : Claim) (done : Bool)
  | panic (c : Claim)
  /-- The server stops, or the last statement fails. -/
  | lose (c : Claim)
  | sweep (replica : Nat)
  /-- The target is deleted, and its jobs with it. -/
  | delete (target : Uuid ⊕ Uuid)

variable (s : State)

def State.leave (c : Claim) : State := { s with running := s.running.erase c }

def State.step : Event → State
  | .wait mins => { s with now := s.now + mins }
  | .enqueue id target =>
    if id ∈ s.jobs.map (·.id) ++ s.running.map (·.job.id) then s
    else { s with jobs := ⟨id, target, .pending, 0, none⟩ :: s.jobs }
  | .claim replica id => s.claimNextJob replica id
  | .finish c done =>
    if c ∈ s.running then (s.leave c).markJob c.job.id (if done then .done else .failed) else s
  | .panic c => if c ∈ s.running then (s.leave c).resetPanickedJob c else s
  | .lose c => s.leave c
  | .sweep replica => s.recoverStuckJobs replica
  | .delete target => { s with jobs := s.jobs.filter (·.target ≠ target) }

/-- Every step of a run meets `P`. -/
def Along (P : State → Event → Prop) : State → List Event → Prop
  | _, [] => True
  | s, e :: es => P s e ∧ Along P (s.step e) es

/-- A sweep does not meet a job that is still executed. -/
def Idle : Event → Prop
  | .sweep replica => ∀ j ∈ s.jobs, s.stuck replica j → ∀ c ∈ s.running, c.job.id ≠ j.id
  | _ => True

/-- The jobs that are done or failed keep their status. -/
def Kept (s s' : State) : Prop :=
  ∀ j ∈ s.jobs, j.status = .done ∨ j.status = .failed →
    ∀ j' ∈ s'.jobs, j'.id = j.id → j'.status = j.status

/-- A job is executed once, and is in progress then. -/
structure Orderly : Prop where
  ids : (s.jobs.map (·.id)).Nodup
  once : (s.running.map (·.job.id)).Nodup
  active : ∀ c ∈ s.running, ∀ j ∈ s.jobs, j.id = c.job.id → j.status = .inProgress

variable {s s' : State} {p : BuildJob → Bool} {f : BuildJob → BuildJob} {c : Claim} {e : Event}

namespace Orderly

variable (h : Orderly s)

include h

theorem kept_of_subset (hjobs : s'.jobs ⊆ s.jobs) : Kept s s' := by
  intro j hj _ j' hj' heq
  rw [inj_on_of_nodup_map h.ids (hjobs hj') hj heq]

theorem leave (c : Claim) : Orderly (s.leave c) :=
  ⟨h.ids, h.once.sublist (erase_sublist.map _), fun c' hc' => h.active c' (mem_of_mem_erase hc')⟩

variable (hf : ∀ j, (f j).id = j.id)

include hf

theorem update (hp : ∀ j ∈ s.jobs, p j → ∀ c ∈ s.running, c.job.id ≠ j.id) :
    Orderly (s.update p f) := by
  have hid (j) : (if p j then f j else j).id = j.id := by split <;> simp [hf]
  refine ⟨by simpa [State.update, Function.comp_def, hid] using h.ids, h.once, ?_⟩
  intro c hc j' hj' heq
  obtain ⟨j, hj, rfl⟩ := mem_map.1 hj'
  rw [hid] at heq
  by_cases hpj : p j
  · exact (hp j hj hpj c hc heq.symm).elim
  · rw [if_neg hpj]
    exact h.active c hc j hj heq

theorem kept_update (hp : ∀ j ∈ s.jobs, p j → j.status ≠ .done ∧ j.status ≠ .failed) :
    Kept s (s.update p f) := by
  intro j hj hend j' hj' heq
  obtain ⟨j₀, hj₀, rfl⟩ := mem_map.1 hj'
  obtain rfl : j₀ = j := inj_on_of_nodup_map h.ids hj₀ hj (by grind)
  have := hp j₀ hj
  grind

theorem ends (hc : c ∈ s.running) : Orderly ((s.leave c).update (·.id = c.job.id) f) ∧
      Kept s ((s.leave c).update (·.id = c.job.id) f) := by
  refine ⟨(h.leave c).update hf fun j _ hj c' hc' heq => ?_, h.kept_update hf fun j hj hp => ?_⟩
  · obtain ⟨hne, hc'⟩ := (Nodup.of_map _ h.once).mem_erase_iff.1 hc'
    exact hne (inj_on_of_nodup_map h.once hc' hc (heq.trans (of_decide_eq_true hj)))
  · simp [h.active c hc j hj (of_decide_eq_true hp)]

omit hf

theorem claim (replica : Nat) (id : Uuid) :
    Orderly (s.claimNextJob replica id) ∧ Kept s (s.claimNextJob replica id) := by
  unfold State.claimNextJob
  split
  next job hfind =>
    have hspec := find?_some hfind
    simp only [State.claimable, and_eq_true, decide_eq_true_eq] at hspec
    obtain ⟨hid, hpend, -⟩ := hspec
    have hjob := mem_of_find?_eq_some hfind
    have hfree (c) (hc : c ∈ s.running) : c.job.id ≠ id := by
      intro heq
      simp [h.active c hc job hjob (hid.trans heq.symm)] at hpend
    have hupd := h.update (p := (·.id = id)) (f := fun j => { j with
      status := .inProgress, pickedAt := some s.now, attempt := j.attempt + 1 }) (fun _ => rfl)
      fun j _ hj c hc => by simpa [of_decide_eq_true hj] using hfree c hc
    refine ⟨⟨hupd.ids, by simpa [hid, h.once] using hfree, ?_⟩,
      h.kept_update (fun _ => rfl) fun j hj hp => ?_⟩
    · intro c hc j' hj' heq
      rcases mem_cons.1 hc with rfl | hc
      · obtain ⟨j, hj, rfl⟩ := mem_map.1 hj'
        grind
      · exact hupd.active c hc j' hj' heq
    · obtain rfl : j = job :=
        inj_on_of_nodup_map h.ids hj hjob ((of_decide_eq_true hp).trans hid.symm)
      simp [hpend]
  · exact ⟨h, h.kept_of_subset (Subset.refl _)⟩

/-- A step keeps the order, and with it the jobs that have ended. -/
theorem step (hidle : Idle s e) : Orderly (s.step e) ∧ Kept s (s.step e) := by
  have hsame : Orderly s ∧ Kept s s := ⟨h, h.kept_of_subset (Subset.refl _)⟩
  cases e with
  | wait mins => exact ⟨⟨h.ids, h.once, h.active⟩, hsame.2⟩
  | enqueue id target =>
    simp only [State.step]
    split
    · exact hsame
    next hnew =>
      obtain ⟨hids, honce, hactive⟩ := h
      refine ⟨⟨by grind, honce, by grind⟩, fun j hj hend j' hj' heq => ?_⟩
      rcases mem_cons.1 hj' with rfl | hj'
      · grind
      · exact hsame.2 j hj hend j' hj' heq
  | claim replica id => exact h.claim replica id
  | finish c done =>
    simp only [State.step]
    split
    next hc => exact h.ends (fun _ => rfl) hc
    · exact hsame
  | panic c =>
    simp only [State.step, State.resetPanickedJob]
    split_ifs with hc
    · exact h.ends (fun _ => rfl) hc
    · exact h.ends (fun _ => rfl) hc
    · exact hsame
  | lose c => exact ⟨h.leave c, hsame.2⟩
  | sweep replica =>
    have hf (j : BuildJob) : (if maxAttempts ≤ j.attempt then { j with status := .failed }
        else { j with status := .pending, pickedAt := none } : BuildJob).id = j.id := by
      split <;> rfl
    refine ⟨h.update hf hidle, h.kept_update hf fun j _ hj => ?_⟩
    simp only [State.stuck, and_eq_true, decide_eq_true_eq] at hj
    simp [hj.1.1]
  | delete target =>
    exact ⟨⟨h.ids.sublist (filter_sublist.map _), h.once,
      fun c hc j hj => h.active c hc j (mem_of_mem_filter hj)⟩,
      h.kept_of_subset fun _ hj => mem_of_mem_filter hj⟩

theorem along {es : List Event} (hidle : Along Idle s es) :
    Along (fun s e => Kept s (s.step e)) s es := by
  induction es generalizing s with
  | nil => trivial
  | cons e es ih => exact ⟨(h.step hidle.1).2, ih (h.step hidle.1).1 hidle.2⟩

end Orderly

/-- A job that has ended keeps its status, if no sweep meets a job that is executed. -/
theorem kept_of_idle (now : Int) (es : List Event) (hidle : Along Idle ⟨now, [], []⟩ es) :
    Along (fun s e => Kept s (s.step e)) ⟨now, [], []⟩ es :=
  Orderly.along ⟨by simp, by simp, by simp⟩ hidle

/-- The first attempt panics, and the second one succeeds. -/
theorem kept_of_retry : Along (fun s e => Kept s (s.step e)) ⟨0, [], []⟩
    [.enqueue 1 (.inl 7), .claim 0 1, .panic ⟨0, ⟨1, .inl 7, .pending, 0, none⟩⟩, .claim 0 1,
      .finish ⟨0, ⟨1, .inl 7, .pending, 1, none⟩⟩ true, .sweep 0] :=
  kept_of_idle 0 _ ⟨trivial, trivial, trivial, trivial, trivial,
    ⟨fun _ _ _ _ hc => absurd hc not_mem_nil, trivial⟩⟩

/-- The worker of server 0 takes more than an hour. The sweep of server 1 queues the job again, its
worker is done with it, and then the first worker reports a failure. -/
theorem slow_worker_writes_last : ¬ Along (fun s e => Kept s (s.step e)) ⟨0, [], []⟩
    [.enqueue 1 (.inl 7), .claim 0 1, .wait 61, .sweep 1, .claim 1 1,
      .finish ⟨1, ⟨1, .inl 7, .pending, 1, none⟩⟩ true,
      .finish ⟨0, ⟨1, .inl 7, .pending, 0, none⟩⟩ false] := by
  rintro ⟨-, -, -, -, -, -, h, -⟩
  exact absurd (h ⟨1, .inl 7, .done, 2, some 61⟩ (by decide) (by decide)
    ⟨1, .inl 7, .failed, 2, some 61⟩ (by decide) rfl) (by decide)

/-! ## How often a job is executed -/

def begins (s : State) (id : Uuid) : Event → Bool
  | .claim _ id' => id' = id &&
    (s.jobs.find? fun j => j.id = id' && s.claimable j).any (·.attempt < maxAttempts)
  | _ => false

/-- The number of executions of a job that begin in a run. -/
def executions (id : Uuid) : State → List Event → Nat
  | _, [] => 0
  | s, e :: es => (begins s id e).toNat + executions id (s.step e) es

def Tried (s : State) (id : Uuid) (k : Int) : Prop := ∀ j ∈ s.jobs, j.id = id → k ≤ j.attempt

namespace Tried

variable {id : Uuid} {k : Int} (h : Tried s id k)

include h

theorem update (hf : ∀ j, (f j).id = j.id ∧ j.attempt ≤ (f j).attempt) :
    Tried (s.update p f) id k := by
  intro j' hj' hid
  obtain ⟨j, hj, rfl⟩ := mem_map.1 hj'
  have := h j hj
  have := hf j
  grind

/-- Who executes a job has found it below the limit, and has counted that. -/
theorem begins (hb : begins s id e = true) : k < maxAttempts ∧ Tried (s.step e) id (k + 1) := by
  cases e with
  | claim replica id' =>
    simp only [BuildWorker.begins, and_eq_true, decide_eq_true_eq, Option.any_eq_true] at hb
    obtain ⟨rfl, job, hfind, hlt⟩ := hb
    have hjob := h job (mem_of_find?_eq_some hfind)
    have := find?_some hfind
    refine ⟨by grind, ?_⟩
    simp only [State.step, State.claimNextJob, hfind]
    intro j' hj' hid
    obtain ⟨j, hj, rfl⟩ := mem_map.1 hj'
    have := h j hj
    grind
  | _ => cases hb

/-- Nothing takes back what was counted. -/
theorem step (hnew : ∀ target, e ≠ .enqueue id target) : Tried (s.step e) id k := by
  cases e with
  | wait mins | lose c => exact h
  | enqueue id' target =>
    simp only [State.step]
    split
    · exact h
    · intro j hj hid
      rcases mem_cons.1 hj with rfl | hj
      · exact absurd (congrArg (Event.enqueue · target) hid) (hnew target)
      · exact h j hj hid
  | claim replica id' =>
    simp only [State.step, State.claimNextJob]
    split
    · exact h.update fun j => ⟨rfl, le_add_one (le_refl _)⟩
    · exact h
  | finish c done =>
    simp only [State.step]
    split
    · exact h.update fun j => ⟨rfl, le_refl _⟩
    · exact h
  | panic c =>
    simp only [State.step, State.resetPanickedJob]
    split_ifs
    · exact h.update fun j => ⟨rfl, le_refl _⟩
    · exact h.update fun j => ⟨rfl, le_refl _⟩
    · exact h
  | sweep replica => exact h.update fun j => by split <;> exact ⟨rfl, le_refl _⟩
  | delete target => exact fun j hj => h j (mem_of_mem_filter hj)

theorem executions_le {es : List Event} (hnew : ∀ target, .enqueue id target ∉ es) :
    executions id s es ≤ (maxAttempts - k).toNat := by
  induction es generalizing s k with
  | nil => simp [executions]
  | cons e es ih =>
    have hes (target) : .enqueue id target ∉ es := fun hmem => hnew target (mem_cons_of_mem e hmem)
    rw [executions]
    cases hb : BuildWorker.begins s id e with
    | false =>
      simpa using ih (h.step fun target heq => hnew target (heq ▸ mem_cons_self)) hes
    | true =>
      obtain ⟨hlt, hnext⟩ := h.begins hb
      have := ih hnext hes
      simp only [toNat_true]
      omega

end Tried

/-- **A job is executed at most three times**, whatever sweeps, panics, slow workers and servers
that stop do to its status. -/
theorem executed_at_most_three (s : State) (es : List Event) (id : Uuid)
    (hs : ∀ j ∈ s.jobs, j.id = id → 0 ≤ j.attempt) (hes : ∀ target, .enqueue id target ∉ es) :
    executions id s es ≤ 3 := Tried.executions_le hs hes

/-- The third panic queues the job once more, and the fourth claim only fails it. -/
theorem executed_at_most_three_panics :
    let job : BuildJob := ⟨1, .inl 7, .pending, 0, none⟩
    executions 1 ⟨0, [job], []⟩ [.claim 0 1, .panic ⟨0, job⟩, .claim 0 1,
      .panic ⟨0, { job with attempt := 1 }⟩, .claim 0 1, .panic ⟨0, { job with attempt := 2 }⟩,
      .claim 0 1] ≤ 3 :=
  executed_at_most_three _ _ 1 (by decide) (by simp)

end Nasiko.Agents.BuildWorker
