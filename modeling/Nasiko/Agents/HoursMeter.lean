import Mathlib.Algebra.BigOperators.Group.List.Lemmas
import Mathlib.Algebra.Field.Rat
import Mathlib.Data.List.Dedup
import Nasiko.Text.Uuid

/-!
# Replica-hours in a window

The meter records a session for each run of a container. A report sums the overlap of the sessions
with a window, for each agent or for each hour or day of the window.

**Theorem (`sum_windowedHoursSeries`).** The hours of the buckets add up to the hours of the agents,
for any sessions and any window.

A session that a query leaves out has no overlap, so both sums are over the same sessions. The
overlaps of one session with the first `k` buckets add up to its overlap with all of them at once
(`sum_overlap`), also if the session ends before it starts.

A time is a number of microseconds, and hours are exact. In a session in UTC a day has 24 hours.
-/

namespace Nasiko.Agents

open List

/-- A row of `agent_instance_sessions`. -/
structure Session where
  agentId : Uuid
  agentName : Str
  startedAt : Int
  lastSeenAt : Int
  endedAt : Option Int

/-- A row of `agents`; `deleted` says whether `deleted_at` is set. -/
structure Agent where
  id : Uuid
  name : Str
  displayName : Option Str
  deleted : Bool

/-- `COALESCE(s.ended_at, s.last_seen_at)`. -/
def Session.until (s : Session) : Int := s.endedAt.getD s.lastSeenAt

/-- The length of the part of a session between two times. -/
def Session.overlap (s : Session) (start stop : Int) : Int :=
  max (min s.until stop - max s.startedAt start) 0

/-- The rows that a query joins for a time from `start` to `stop`. -/
def Session.joins (start stop : Int) (agentId : Option Uuid) (s : Session) : Bool :=
  s.startedAt < stop && start < s.until && agentId.all (s.agentId = ·)

def hoursOf (overlaps : List Int) : ℚ := overlaps.sum / 3600000000

structure AgentHoursAgg where
  agentId : Uuid
  agentName : Str
  hours : ℚ
  liveReplicas : Nat
  deleted : Bool

/-- One group of `windowed_agent_hours`. -/
def agentHours (agents : List Agent) (start stop : Int) (id : Uuid) (rows : List Session) :
    AgentHoursAgg :=
  let agent := agents.find? (·.id = id)
  let latest := rows.mergeSort fun s t => t.lastSeenAt ≤ s.lastSeenAt
  { agentId := id
    agentName := (agent.map fun a => a.displayName.getD a.name).getD
      ((latest.head?.map (·.agentName)).getD [])
    hours := hoursOf (rows.map (·.overlap start stop))
    liveReplicas := rows.countP (·.endedAt.isNone)
    deleted := agent.all (·.deleted) }

def windowedAgentHours (agents : List Agent) (sessions : List Session) (start stop : Int)
    (agentId : Option Uuid) : List AgentHoursAgg :=
  let rows := sessions.filter (·.joins start stop agentId)
  let groups := (rows.map (·.agentId)).dedup.map fun id =>
    agentHours agents start stop id (rows.filter (·.agentId = id))
  groups.mergeSort fun a b => b.hours ≤ a.hours

inductive HoursBucket where
  | hour
  | day

def HoursBucket.seconds : HoursBucket → Int
  | hour => 3600
  | day => 86400

def HoursBucket.interval (b : HoursBucket) : Int := b.seconds * 1000000

structure HoursBucketRow where
  bucketStart : Int
  hours : ℚ

/-- `generate_series`: the times from `start` up to `stop` that are a number of steps after it. -/
def generateSeries (start stop step : Int) : List Int :=
  (range ((stop - start) / step + 1).toNat).map fun k : Nat => start + k * step

def windowedHoursSeries (sessions : List Session) (start stop : Int) (bucket : HoursBucket)
    (agentId : Option Uuid) : List HoursBucketRow :=
  (generateSeries start (stop - 1) bucket.interval).map fun bucketStart =>
    let bucketEnd := min (bucketStart + bucket.interval) stop
    let rows := sessions.filter (·.joins bucketStart bucketEnd agentId)
    ⟨bucketStart, hoursOf (rows.map (·.overlap bucketStart bucketEnd))⟩

/-! ## The overlap of one session -/

variable {s : Session} {start stop : Int} {agentId : Option Uuid}

theorem Session.overlap_eq_zero (h : ¬ (s.startedAt < stop ∧ start < s.until)) :
    s.overlap start stop = 0 := by
  unfold overlap
  omega

/-- Only the filter of the agent matters for a sum: the other rows that are left out have no
overlap. -/
theorem sum_overlap_joins (sessions : List Session) :
    ((sessions.filter (·.joins start stop agentId)).map (·.overlap start stop)).sum =
      ((sessions.filter fun s => agentId.all (s.agentId = ·)).map (·.overlap start stop)).sum := by
  induction sessions with
  | nil => rfl
  | cons s sessions ih =>
    simp only [filter_cons]
    by_cases hin : s.startedAt < stop ∧ start < s.until
    · have hjoi : s.joins start stop agentId = agentId.all (s.agentId = ·) := by
        simp [Session.joins, hin]
      rw [hjoi]
      split <;> simp [ih]
    · have hout : s.joins start stop agentId = false := by
        simp only [Session.joins, Bool.and_eq_false_iff, decide_eq_false_iff_not]
        tauto
      rw [hout, if_neg Bool.false_ne_true, ih]
      split <;> simp [Session.overlap_eq_zero hin]

/-- The buckets before the last one are whole, so the overlaps telescope. -/
theorem sum_overlap {step : Int} (hst : 0 < step) {n : Nat}
    (hn : n ≠ 0 → start + (n - 1) * step < stop) :
    ((range n).map fun k : Nat =>
      s.overlap (start + k * step) (min (start + k * step + step) stop)).sum =
      s.overlap start (min (start + n * step) stop) := by
  induction n with
  | zero =>
    unfold Session.overlap
    simp
  | succ n ih =>
    have hlast : start + n * step < stop := by simpa using hn
    have hbef : n ≠ 0 → start + (n - 1) * step < stop := by
      intro _
      linarith
    have hnext : start + (n + 1 : Nat) * step = start + n * step + step := by push_cast; ring
    have hpos : 0 ≤ n * step := by positivity
    rw [range_succ, map_append, sum_append, ih hbef, hnext]
    unfold Session.overlap
    simp
    omega

theorem Session.sum_generateSeries (s : Session) (start stop : Int) {step : Int} (hst : 0 < step) :
    ((generateSeries start (stop - 1) step).map fun b => s.overlap b (min (b + step) stop)).sum =
      s.overlap start stop := by
  have hle := Int.ediv_mul_le (stop - 1 - start) hst.ne'
  have hlt := Int.lt_ediv_add_one_mul_self (stop - 1 - start) hst
  rw [generateSeries, map_map]
  generalize (stop - 1 - start) / step = q at hle hlt ⊢
  have hcov : stop ≤ start + (q + 1).toNat * step := by
    have := mul_le_mul_of_nonneg_right (Int.self_le_toNat (q + 1)) hst.le
    omega
  refine (sum_overlap hst ?_).trans (by rw [min_eq_right hcov])
  intro hsome
  rw [Int.toNat_of_nonneg (by omega), add_sub_cancel_right]
  omega

/-! ## Additivity -/

theorem sum_groups {f : Session → Int} {ids : List Uuid} (hids : ids.Nodup) {rows : List Session}
    (hrows : ∀ r ∈ rows, r.agentId ∈ ids) :
    (ids.map fun id => ((rows.filter (·.agentId = id)).map f).sum).sum = (rows.map f).sum := by
  rw [← sum_toFinset _ hids]
  induction rows with
  | nil => simp
  | cons r rows ih =>
    obtain ⟨hr, hrest⟩ := forall_mem_cons.1 hrows
    have hgrp (id) : (((r :: rows).filter (·.agentId = id)).map f).sum =
        (if r.agentId = id then f r else 0) + ((rows.filter (·.agentId = id)).map f).sum := by
      by_cases h : r.agentId = id <;> simp [h]
    simp [hgrp, Finset.sum_add_distrib, ih hrest, hr]

theorem sum_buckets {buckets : List Int} {f : Int → Session → Int} (rows : List Session) :
    (buckets.map fun b => (rows.map (f b)).sum).sum =
      (rows.map fun s => (buckets.map fun b => f b s).sum).sum := by
  induction rows with
  | nil => simp
  | cons s rows ih => simp [sum_map_add, ih]

theorem sum_hoursOf {α : Type} (f : α → List Int) (xs : List α) :
    (xs.map fun x => hoursOf (f x)).sum = hoursOf (xs.map fun x => (f x).sum) := by
  unfold hoursOf
  induction xs with
  | nil => simp
  | cons x xs ih => simp only [map_cons, sum_cons, ih, Int.cast_add, add_div]

theorem HoursBucket.interval_pos (b : HoursBucket) : 0 < b.interval := by
  cases b <;> decide

/-- The hours of the buckets add up to the hours of the agents. -/
theorem sum_windowedHoursSeries (agents : List Agent) (sessions : List Session) (start stop : Int)
    (bucket : HoursBucket) (agentId : Option Uuid) :
    ((windowedHoursSeries sessions start stop bucket agentId).map (·.hours)).sum =
      ((windowedAgentHours agents sessions start stop agentId).map (·.hours)).sum := by
  have hst := bucket.interval_pos
  have hage : ((windowedAgentHours agents sessions start stop agentId).map (·.hours)).sum =
      hoursOf ((sessions.filter fun s => agentId.all (s.agentId = ·)).map
        (·.overlap start stop)) := by
    unfold windowedAgentHours
    rw [((mergeSort_perm _ _).map _).sum_eq, map_map]
    simp only [Function.comp_def, agentHours]
    rw [sum_hoursOf, hoursOf, sum_groups (nodup_dedup _) (by simp; tauto), sum_overlap_joins,
      hoursOf]
  have hone (s : Session) := s.sum_generateSeries start stop hst
  rw [hage, windowedHoursSeries, map_map]
  simp only [Function.comp_def]
  rw [sum_hoursOf, hoursOf, hoursOf]
  simp only [sum_overlap_joins, sum_buckets, hone]

end Nasiko.Agents
