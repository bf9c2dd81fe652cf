import Mathlib.Tactic

/-!
# Programs that emit events

A step of a program that writes to a stream changes a state and emits some events. Steps are put
one after the other (`andThen`), and a step is made for each element of a list (`forEach`), which
is how such a program reads its input.

A fact about everything that has been read, the state, and everything that has been emitted holds
at the end of the input if it holds in the beginning and every element keeps it
(`forEach_invariant`). `Throughout` says of every element of the input something that may depend on
the elements before it.
-/

namespace Nasiko

open List

/-- A step: the new state, and what has been emitted. -/
abbrev Emitter (σ ε : Type) := σ → σ × List ε

namespace Emitter

variable {σ ε ι : Type}

def skip : Emitter σ ε := fun s => (s, [])

def andThen (f g : Emitter σ ε) : Emitter σ ε := fun s =>
  ((g (f s).1).1, (f s).2 ++ (g (f s).1).2)

/-- One step for each element. -/
def forEach (f : ι → Emitter σ ε) : List ι → Emitter σ ε
  | [] => skip
  | i :: is => (f i).andThen (forEach f is)

variable {f : ι → Emitter σ ε} {J : List ι → σ → List ε → Prop}

@[simp] theorem skip_apply (s : σ) : (skip : Emitter σ ε) s = (s, []) := rfl

@[simp] theorem andThen_fst (g h : Emitter σ ε) (s : σ) : (g.andThen h s).1 = (h (g s).1).1 := rfl

@[simp] theorem andThen_snd (g h : Emitter σ ε) (s : σ) :
    (g.andThen h s).2 = (g s).2 ++ (h (g s).1).2 := rfl

@[simp] theorem forEach_nil (s : σ) : forEach f [] s = (s, []) := rfl

@[simp] theorem forEach_cons (i : ι) (is : List ι) (s : σ) :
    forEach f (i :: is) s = (f i).andThen (forEach f is) s := rfl

theorem forEach_append (is js : List ι) (s : σ) :
    forEach f (is ++ js) s = (forEach f is).andThen (forEach f js) s := by
  induction is generalizing s with
  | nil => rfl
  | cons i is ih => simp [andThen, ih]

/-- What every element keeps; something has been read and emitted before. -/
theorem forEach_invariant_from {read : List ι} {s : σ}
    {es : List ε} (is : List ι) (hst : J read s es)
    (hstep : ∀ read i s es, J read s es → J (read ++ [i]) (f i s).1 (es ++ (f i s).2)) :
    J (read ++ is) (forEach f is s).1 (es ++ (forEach f is s).2) := by
  induction is generalizing read s es with
  | nil => simpa using hst
  | cons i is ih =>
    have hrest := ih (hstep read i s es hst)
    simpa using hrest

/-- **What every element keeps holds at the end.** -/
theorem forEach_invariant {s : σ} (is : List ι) (hst : J [] s [])
    (hstep : ∀ read i s es, J read s es → J (read ++ [i]) (f i s).1 (es ++ (f i s).2)) :
    J is (forEach f is s).1 (forEach f is s).2 :=
  forEach_invariant_from is hst hstep

end Emitter

variable {ι : Type} {Q : List ι → ι → Prop}

/-- Every element meets the condition, given the elements before it. -/
def Throughout (Q : List ι → ι → Prop) (is : List ι) : Prop :=
  ∀ before i after, is = before ++ i :: after → Q before i

theorem throughout_nil : Throughout Q [] := by
  intro before i after hspl
  cases before <;> cases hspl

theorem throughout_snoc {is : List ι} {i : ι} :
    Throughout Q (is ++ [i]) ↔ Throughout Q is ∧ Q is i := by
  constructor
  · intro h
    refine ⟨fun before j after hspl => h before j (after ++ [i]) ?_, h is i [] rfl⟩
    rw [hspl, append_assoc, cons_append]
  · rintro ⟨his, hi⟩ before j after hspl
    rcases eq_nil_or_concat after with rfl | ⟨after', k, rfl⟩
    · obtain ⟨rfl, hij⟩ := append_inj' hspl rfl
      cases hij
      exact hi
    · rw [concat_eq_append, ← cons_append, ← append_assoc] at hspl
      exact his before j after' (append_inj' hspl rfl).1

theorem Throughout.left {is js : List ι} (h : Throughout Q (is ++ js)) : Throughout Q is := by
  intro before i after hspl
  exact h before i (after ++ js) (by rw [hspl, append_assoc, cons_append])

end Nasiko
