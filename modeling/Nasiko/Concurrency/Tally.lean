import Nasiko.Concurrency.Inductive

/-!
# Counting tasks

`tally P g n` is how many of the tasks below `n` have a context with `P`. A step changes the context
of one task, and with it the count.
-/

namespace Nasiko.Concurrency

open Function

variable {X : Type} {P : X → Bool} {g g' : Nat → Option X} {i n : Nat}

def tally (P : X → Bool) (g : Nat → Option X) : Nat → Nat
  | 0 => 0
  | n + 1 => tally P g n + if (g n).any P then 1 else 0

theorem tally_congr (h : ∀ j < n, (g' j).any P = (g j).any P) : tally P g' n = tally P g n := by
  induction n with
  | zero => rfl
  | succ n ih => rw [tally, tally, ih fun j hj => h j (by omega), h n (Nat.lt_succ_self n)]

theorem tally_eq_zero (h : ∀ j < n, (g j).any P = false) : tally P g n = 0 := by
  induction n with
  | zero => rfl
  | succ n ih =>
    rw [tally, ih fun j hj => h j (by omega), h n (Nat.lt_succ_self n)]
    rfl

theorem tally_spawn (x : Option X) :
    tally P (update g n x) (n + 1) = tally P g n + if x.any P then 1 else 0 := by
  have hoth : ∀ j < n, (update g n x j).any P = (g j).any P := fun j hj => by
    rw [update_of_ne (Nat.ne_of_lt hj)]
  rw [tally, update_self, tally_congr hoth]

theorem tally_update (hi : i < n) (x : Option X) :
    tally P (update g i x) n + (if (g i).any P then 1 else 0) =
      tally P g n + if x.any P then 1 else 0 := by
  induction n with
  | zero => omega
  | succ n ih =>
    by_cases hn : i = n
    · subst hn
      rw [tally_spawn, tally]
      omega
    · rw [tally, tally, update_of_ne (Ne.symm hn)]
      omega

end Nasiko.Concurrency
