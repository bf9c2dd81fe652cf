import Mathlib.Tactic

/-!
# Computations that may fail

A computation in `Except ε` is peeled apart with `bind_eq_ok_iff`: it succeeded when its first
part did, and the rest did with what that gave.
-/

namespace Nasiko.Result

open Except

variable {ε α β : Type} {x : Except ε α}

@[simp] theorem ok_bind (a : α) (f : α → Except ε β) : (ok a >>= f) = f a := rfl

@[simp] theorem error_bind (e : ε) (f : α → Except ε β) :
    ((error e : Except ε α) >>= f) = .error e := rfl

theorem bind_eq_ok_iff {f : α → Except ε β} {b : β} :
    (x >>= f) = .ok b ↔ ∃ a, x = .ok a ∧ f a = .ok b := by
  cases x with
  | error e | ok a => simp

theorem map_eq_ok_iff {f : α → β} {b : β} : f <$> x = .ok b ↔ ∃ a, x = .ok a ∧ f a = b := by
  cases x with
  | error e | ok a => simp

end Nasiko.Result
