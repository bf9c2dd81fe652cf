import Nasiko.Concurrency.System

/-!
# A program on its own

`Always exec I Q s p` says what holds of a program that runs on its own from the state `s`, whatever
becomes of each of its commands: `I` in every state that it leads to, and `Q` at its end. As for
protocols, there is one rule for each way to build a program.
-/

namespace Nasiko.Concurrency

open Program

variable {C : Type} {R : C → Type} {E A B S : Type}

/-- `I` holds in every state that the program leads to, and `Q` where it ends. -/
def Always (exec : S → (c : C) → Outcome → Option (Except E (R c) × S)) (I : S → Prop) :
    S → Program C R E A → (S → Except E A → Prop) → Prop
  | s, ret a, Q => I s ∧ Q s (.ok a)
  | s, fail e, Q => I s ∧ Q s (.error e)
  | s, call c k, Q => I s ∧ ∀ o r s', exec s c o = some (r, s') → Always exec I s' (k r) Q

variable {exec : S → (c : C) → Outcome → Option (Except E (R c) × S)} {I : S → Prop} {s : S}
  {p : Program C R E A} {Q : S → Except E A → Prop}

theorem Always.now (h : Always exec I s p Q) : I s := by
  cases p <;> exact h.1

theorem always_ofExcept {r : Except E A} : Always exec I s (ofExcept r) Q ↔ I s ∧ Q s r := by
  cases r <;> rfl

theorem always_perform {c : C} {Q : S → Except E (R c) → Prop} : Always exec I s (perform c) Q ↔
      I s ∧ ∀ o r s', exec s c o = some (r, s') → I s' ∧ Q s' r := by
  simp [perform, Always, always_ofExcept]

/-- What has to hold between two programs. -/
def alwaysThen (exec : S → (c : C) → Outcome → Option (Except E (R c) × S)) (I : S → Prop)
    (f : A → Program C R E B) (Q : S → Except E B → Prop) (s : S) : Except E A → Prop
  | .ok a => Always exec I s (f a) Q
  | .error e => Q s (.error e)

theorem always_bind {f : A → Program C R E B} {Q : S → Except E B → Prop} :
    Always exec I s (p >>= f) Q ↔ Always exec I s p (alwaysThen exec I f Q) := by
  change Always exec I s (p.bind f) Q ↔ _
  induction p generalizing s with
  | ret a => exact ⟨fun h => ⟨h.now, h⟩, fun h => h.2⟩
  | fail e => rfl
  | call c k ih => simp only [Program.bind, Always, ih]

theorem always_attempt {Q : S → Except E (Except E A) → Prop} :
    Always exec I s p.attempt Q ↔ Always exec I s p fun s' r => Q s' (.ok r) := by
  induction p generalizing s with
  | ret a | fail e => rfl
  | call c k ih => simp only [attempt, Always, ih]

theorem always_perform_bind {c : C} {f : R c → Program C R E B} {Q : S → Except E B → Prop} :
    Always exec I s (perform c >>= f) Q ↔
      I s ∧ ∀ o r s', exec s c o = some (r, s') → I s' ∧ alwaysThen exec I f Q s' r := by
  rw [always_bind, always_perform]

/-! ## A program that is answered -/

/-- The program can end with the result in the last state when every command is carried out; before
each of them the state may drift. -/
def Finishes (exec : S → (c : C) → Except E (R c) × S) (drift : S → S → Prop) :
    S → Program C R E A → Except E A → S → Prop
  | s, ret a, r, s' => r = .ok a ∧ s' = s
  | s, fail e, r, s' => r = .error e ∧ s' = s
  | s, call c k, r, s' =>
    ∃ s₁, drift s s₁ ∧ Finishes exec drift (exec s₁ c).2 (k (exec s₁ c).1) r s'

end Nasiko.Concurrency
