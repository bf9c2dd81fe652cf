import Mathlib.Tactic

/-!
# Records in a buffer

A `Framer` takes one record from the front of a buffer, if a whole record is there. A reader of a
connection keeps a buffer: it puts every chunk that arrives at the end of the buffer and takes
records from the front until there is none.

**Theorem (`feed_eq_drain`).** The records that are read, and what is left in the buffer, depend on
the bytes that have arrived and not on the chunks that they came in.

A record that is there stays the first one when more bytes arrive (`stable`), so taking the records
of a buffer before or after more bytes are put to it is the same (`drain_append`).
-/

namespace Nasiko

open List

/-- Takes a record from the front of a buffer. -/
structure Framer (β ρ : Type) where
  next : List β → Option (ρ × List β)
  shrinks : ∀ s r t, next s = some (r, t) → t.length < s.length
  stable : ∀ s r t x, next s = some (r, t) → next (s ++ x) = some (r, t ++ x)

namespace Framer

variable {β ρ : Type} (f : Framer β ρ)

/-- All records of a buffer, and what is left. -/
def drain (s : List β) : List ρ × List β :=
  match _h : f.next s with
  | none => ([], s)
  | some (r, t) => (r :: (drain t).1, (drain t).2)
termination_by s.length
decreasing_by all_goals exact f.shrinks s r t _h

/-- The records of the chunks that arrive after `s`, and what is left. -/
def feed (s : List β) : List (List β) → List ρ × List β
  | [] => ([], s)
  | chunk :: chunks =>
    ((f.drain (s ++ chunk)).1 ++ (feed (f.drain (s ++ chunk)).2 chunks).1,
      (feed (f.drain (s ++ chunk)).2 chunks).2)

variable {f} {s t x : List β} {r : ρ}

theorem drain_of_none (h : f.next s = none) : f.drain s = ([], s) := by
  rw [drain]
  split
  · rfl
  · rename_i hso
    rw [h] at hso
    cases hso

theorem drain_of_some (h : f.next s = some (r, t)) :
    f.drain s = (r :: (f.drain t).1, (f.drain t).2) := by
  rw [drain]
  split
  · rename_i hnone
    rw [h] at hnone
    cases hnone
  · rename_i hso
    rw [h] at hso
    cases hso
    rfl

/-- The rule for a fact about every buffer and what is taken from it. -/
theorem drain_induction {P : List β → Prop} (hnone : ∀ s, f.next s = none → P s)
    (hso : ∀ s r t, f.next s = some (r, t) → P t → P s) (s : List β) : P s := by
  induction hn : s.length using Nat.strong_induction_on generalizing s with
  | _ n ih =>
    cases hnx : f.next s with
    | none => exact hnone s hnx
    | some rt => exact hso s rt.1 rt.2 hnx (ih _ (hn ▸ f.shrinks _ _ _ hnx) _ rfl)

theorem next_drain : f.next (f.drain s).2 = none := by
  induction s using f.drain_induction with
  | hnone s hnx => rw [drain_of_none hnx, hnx]
  | hso s r t hnx ih => rw [drain_of_some hnx, ih]

/-- It does not matter whether more bytes come before or after the records are taken. -/
theorem drain_append (s x : List β) : f.drain (s ++ x) =
      ((f.drain s).1 ++ (f.drain ((f.drain s).2 ++ x)).1, (f.drain ((f.drain s).2 ++ x)).2) := by
  induction s using f.drain_induction with
  | hnone s hnx => rw [drain_of_none hnx, nil_append]
  | hso s r t hnx ih =>
    rw [drain_of_some (f.stable s r t x hnx), drain_of_some hnx, ih, cons_append]

/-- **The chunks do not matter.** -/
theorem feed_eq_drain (hs : f.next s = none) (chunks : List (List β)) :
    f.feed s chunks = f.drain (s ++ chunks.flatten) := by
  induction chunks generalizing s with
  | nil => rw [feed, flatten_nil, append_nil, drain_of_none hs]
  | cons chunk chunks ih =>
    rw [feed, ih next_drain, flatten_cons, ← append_assoc, drain_append (s ++ chunk)]

end Framer

end Nasiko
