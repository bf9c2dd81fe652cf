import Mathlib.Tactic.Linarith
import Nasiko.Hitl.Types

/-!
# How long the events of a resumed execution are kept

While a decision is delivered, the events of the agent are kept in a buffer under the id of the row,
for clients that reconnect. A guard makes the buffer terminal at the end of the delivery, and a
sweep removes old buffers.

**Theorem (`keptForTtl_iff`).** The sweeps of a run leave every buffer for `bufferTtl` after it
became terminal if and only if none of them comes later than `bufferTtl` after the buffer was made
and earlier than `bufferTtl` after it became terminal: the age of a buffer is counted from its
creation, so a terminal buffer is kept for as much less as its delivery took.

Several ids may share a buffer. What is in a buffer does not matter here and is left out.
-/

namespace Nasiko.Hitl.Continuation

open Function List Option

structure ExecutionBuffer where
  terminal : Bool
  createdAt : Time
  deriving DecidableEq

def ExecutionBuffer.new (now : Time) : ExecutionBuffer := ⟨false, now⟩

def bufferTtl : Time := minutes 10

def staleNonTerminalTtl : Time := minutes 60

/-- `arcs` are all the buffers that were made, and `buffers` says which of them an id has. -/
structure ContinuationRegistry where
  now : Time
  arcs : List ExecutionBuffer
  buffers : Uuid → Option Nat

namespace ContinuationRegistry

variable (r : ContinuationRegistry)

def new (now : Time) : ContinuationRegistry := ⟨now, [], fun _ => none⟩

def getOrCreate (id : Uuid) : Nat × ContinuationRegistry :=
  match r.buffers id with
  | some k => (k, r)
  | none => (r.arcs.length, { r with
      arcs := r.arcs ++ [.new r.now]
      buffers := update r.buffers id (some r.arcs.length) })

/-- `alias`. -/
def aliasTo (id target : Uuid) : ContinuationRegistry :=
  let (k, r) := r.getOrCreate target
  { r with buffers := update r.buffers id (some k) }

def markTerminal (id : Uuid) : ContinuationRegistry :=
  let (k, r) := r.getOrCreate id
  { r with arcs := r.arcs.modify k fun b => { b with terminal := true } }

/-- Whether a sweep removes the buffer. -/
def expired (ttl : Time) (b : ExecutionBuffer) : Bool :=
  let age := r.now - b.createdAt
  (b.terminal && age > ttl) || (!b.terminal && age > staleNonTerminalTtl)

def sweepExpired (ttl : Time) : ContinuationRegistry :=
  { r with buffers := fun id => (r.buffers id).filter fun k => !r.arcs[k]?.any (r.expired ttl) }

end ContinuationRegistry

inductive Event where
  | wait (time : Nat)
  /-- `append`, `watch`, or the guard of a delivery. -/
  | use (id : Uuid)
  | link (id target : Uuid)
  /-- The guard of a delivery is dropped. -/
  | finish (id : Uuid)
  | sweep

variable (r : ContinuationRegistry)

def ContinuationRegistry.step : Event → ContinuationRegistry
  | .wait time => { r with now := r.now + time }
  | .use id => (r.getOrCreate id).2
  | .link id target => r.aliasTo id target
  | .finish id => r.markTerminal id
  | .sweep => r.sweepExpired bufferTtl

def ContinuationRegistry.run (es : List Event) : ContinuationRegistry :=
  es.foldl step r

/-- After `es₁`, the event `e` makes the buffer `k` terminal; after `es₂` more, `id` has it. -/
structure Ended (es₁ : List Event) (e : Event) (es₂ : List Event)
    (id : Uuid) (k : Nat) (b : ExecutionBuffer) : Prop where
  before : (r.run es₁).arcs[k]?.all (!·.terminal)
  after : (r.run (es₁ ++ [e])).arcs[k]? = some b
  terminal : b.terminal
  registered : (r.run (es₁ ++ e :: es₂)).buffers id = some k

/-- A sweep leaves the buffers that became terminal less than `bufferTtl` ago. -/
def KeptForTtl (es : List Event) : Prop :=
  ∀ es₁ e es₂ es₃ id k b, es = es₁ ++ e :: es₂ ++ .sweep :: es₃ → Ended r es₁ e es₂ id k b →
    (r.run (es₁ ++ e :: es₂ ++ [.sweep])).buffers id = none →
    (r.run es₁).now + bufferTtl ≤ (r.run (es₁ ++ e :: es₂)).now

variable {r : ContinuationRegistry} {k : Nat} {b : ExecutionBuffer} {e : Event}

theorem terminal_step (h : r.arcs[k]? = some b) (hb : b.terminal) :
    (r.step e).arcs[k]? = some b := by
  obtain ⟨hk, -⟩ := List.getElem?_eq_some_iff.1 h
  have hmake (id : Uuid) : (r.getOrCreate id).2.arcs[k]? = some b := by
    unfold ContinuationRegistry.getOrCreate
    split
    · exact h
    · exact (getElem?_append_left hk).trans h
  cases e with
  | wait time | sweep => exact h
  | use id => exact hmake id
  | link id target => exact hmake target
  | finish id =>
    simp only [ContinuationRegistry.step, ContinuationRegistry.markTerminal, getElem?_modify,
      hmake id]
    cases b
    split <;> simp_all

theorem terminal_run (es : List Event) (h : r.arcs[k]? = some b) (hb : b.terminal) :
    (r.run es).arcs[k]? = some b := by
  induction es generalizing r with
  | nil => exact h
  | cons e es ih => exact ih (terminal_step h hb)

/-- A buffer is kept long enough if no sweep comes between the two times. -/
theorem keptForTtl_iff (now : Time) (es : List Event) : KeptForTtl (.new now) es ↔
      ∀ es₁ e es₂ es₃ id k b, es = es₁ ++ e :: es₂ ++ .sweep :: es₃ →
        Ended (.new now) es₁ e es₂ id k b →
        b.createdAt + bufferTtl < ((ContinuationRegistry.new now).run (es₁ ++ e :: es₂)).now →
        ((ContinuationRegistry.new now).run es₁).now + bufferTtl ≤
          ((ContinuationRegistry.new now).run (es₁ ++ e :: es₂)).now := by
  unfold KeptForTtl
  refine forall₅_congr fun es₁ e es₂ es₃ id => forall₄_congr fun k b _ hend => ?_
  obtain ⟨-, haft, hterm, hid⟩ := hend
  have harc : ((ContinuationRegistry.new now).run (es₁ ++ e :: es₂)).arcs[k]? = some b := by
    have := terminal_run es₂ haft hterm
    simpa [ContinuationRegistry.run] using this
  have hswe : ((ContinuationRegistry.new now).run (es₁ ++ e :: es₂ ++ [.sweep])) =
      ((ContinuationRegistry.new now).run (es₁ ++ e :: es₂)).sweepExpired bufferTtl := foldl_append
  rw [hswe]
  generalize (ContinuationRegistry.new now).run (es₁ ++ e :: es₂) = r at *
  have hexp : r.expired bufferTtl b ↔ b.createdAt + bufferTtl < r.now := by
    simp [ContinuationRegistry.expired, hterm, lt_sub_iff_add_lt, add_comm]
  simp [ContinuationRegistry.sweepExpired, hid, harc, hexp]

/-- A delivery takes nine minutes, and its buffer is gone two minutes after it. -/
theorem not_keptForTtl : ¬ KeptForTtl (.new 0)
    [.use 1, .wait 540000000, .finish 1, .wait 120000000, .sweep] := by
  intro h
  have hkept := h [.use 1, .wait 540000000] (.finish 1) [.wait 120000000] [] 1 0 ⟨true, 0⟩ rfl
    ⟨rfl, rfl, rfl, rfl⟩ rfl
  exact absurd hkept (by decide)

end Nasiko.Hitl.Continuation
