/-!
# Programs that call commands

A `Program` is what is left to do of an asynchronous function: it returns, fails, or calls a command
and goes on with the reply. Whoever runs the program decides about the reply, so other programs may
run between any two commands.

A `Protocol` says which commands a program may call, given what it knows. `Follows P x p Q` is the
weakest precondition of `p` for it: a program that knows `x` only calls what it may call, and ends
with `Q`. The rules for the ways to build programs are the `follows_` lemmas.
-/

namespace Nasiko.Concurrency

/-- A program over the commands `C`, where `R c` is what `c` is answered with. -/
inductive Program (C : Type) (R : C → Type) (E A : Type) where
  | ret (a : A)
  | fail (e : E)
  | call (c : C) (k : Except E (R c) → Program C R E A)

namespace Program

variable {C : Type} {R : C → Type} {E A B : Type}

def bind : Program C R E A → (A → Program C R E B) → Program C R E B
  | ret a, f => f a
  | fail e, _ => fail e
  | call c k, f => call c fun r => (k r).bind f

instance : Monad (Program C R E) where
  pure := ret
  bind := bind

/-- The program that answers with a result. -/
def ofExcept : Except E A → Program C R E A
  | .ok a => ret a
  | .error e => fail e

/-- Call one command; fail if it fails. -/
def perform (c : C) : Program C R E (R c) := call c ofExcept

def attempt : Program C R E A → Program C R E (Except E A)
  | ret a => ret (.ok a)
  | fail e => ret (.error e)
  | call c k => call c fun r => (k r).attempt

def forEach {X : Type} (f : X → Program C R E Unit) : List X → Program C R E Unit
  | [] => ret ()
  | x :: xs => (f x).bind fun _ => forEach f xs

/-- The result of a program when each command is always answered in the same way. -/
def eval (respond : (c : C) → Except E (R c)) : Program C R E A → Except E A
  | ret a => .ok a
  | fail e => .error e
  | call c k => (k (respond c)).eval respond

section

variable {respond : (c : C) → Except E (R c)}

@[simp] theorem eval_pure (a : A) : (pure a : Program C R E A).eval respond = .ok a := rfl

@[simp] theorem eval_bind (p : Program C R E A) (f : A → Program C R E B) :
    (p >>= f).eval respond = (p.eval respond) >>= fun a => (f a).eval respond := by
  induction p with
  | ret a | fail e => rfl
  | call c k ih => exact ih _

theorem eval_bind_of_ok {p : Program C R E A} {f : A → Program C R E B} {a : A}
    (h : p.eval respond = .ok a) : (p >>= f).eval respond = (f a).eval respond := by
  rw [eval_bind, h]
  rfl

@[simp] theorem eval_perform (c : C) :
    (perform c : Program C R E (R c)).eval respond = respond c := by
  simp only [perform, eval]
  cases respond c <;> rfl

@[simp] theorem eval_attempt (p : Program C R E A) :
    p.attempt.eval respond = .ok (p.eval respond) := by
  induction p with
  | ret a | fail e => rfl
  | call c k ih => exact ih _

end

/-- The result of a program and the commands that it has called, when the answer to a command may
depend on the commands before it. -/
def play (world : List C → (c : C) → Except E (R c)) (past : List C) :
    Program C R E A → Except E A × List C
  | ret a => (.ok a, past)
  | fail e => (.error e, past)
  | call c k => (k (world past c)).play world (past ++ [c])

/-- A world without memory. -/
theorem play_fst (respond : (c : C) → Except E (R c)) (past : List C) (p : Program C R E A) :
    (p.play (fun _ => respond) past).1 = p.eval respond := by
  induction p generalizing past with
  | ret a | fail e => rfl
  | call c k ih => exact ih _ _

end Program

/-- Every command that the program may call satisfies `K`. -/
def Calls {C : Type} {R : C → Type} {E A : Type} (K : C → Prop) : Program C R E A → Prop
  | .ret _ => True
  | .fail _ => True
  | .call c k => K c ∧ ∀ r, Calls K (k r)

/-- What a program may call and what it knows. -/
structure Protocol (C : Type) (R : C → Type) (E : Type) where
  Ctx : Type
  allow : Ctx → C → Prop
  after : Ctx → (c : C) → Except E (R c) → Ctx

open Program

variable {C : Type} {R : C → Type} {E A B : Type}

/-- The program keeps to the protocol and ends with `Q`. -/
def Follows (P : Protocol C R E) : P.Ctx → Program C R E A → (P.Ctx → Except E A → Prop) → Prop
  | x, ret a, Q => Q x (.ok a)
  | x, fail e, Q => Q x (.error e)
  | x, call c k, Q => P.allow x c ∧ ∀ r, Follows P (P.after x c r) (k r) Q

variable {P : Protocol C R E} {x : P.Ctx} {Q Q' : P.Ctx → Except E A → Prop} {p : Program C R E A}

theorem Follows.mono (h : Follows P x p Q) (hQ : ∀ y r, Q y r → Q' y r) : Follows P x p Q' := by
  induction p generalizing x with
  | ret a | fail e => exact hQ _ _ h
  | call c k ih => exact ⟨h.1, fun r => ih r (h.2 r)⟩

@[simp] theorem follows_pure (a : A) : Follows P x (pure a : Program C R E A) Q ↔ Q x (.ok a) :=
  Iff.rfl

theorem follows_ofExcept (r : Except E A) : Follows P x (ofExcept r) Q ↔ Q x r := by
  cases r <;> rfl

variable {c : C} {f : A → Program C R E B} {Q : P.Ctx → Except E B → Prop} {I : P.Ctx → Prop}

@[simp] theorem follows_perform {Q : P.Ctx → Except E (R c) → Prop} :
    Follows P x (perform c) Q ↔ P.allow x c ∧ ∀ r, Q (P.after x c r) r := by
  simp [perform, Follows, follows_ofExcept]

/-- What has to hold between two programs. -/
def andThen (P : Protocol C R E) (f : A → Program C R E B) (Q : P.Ctx → Except E B → Prop)
    (x : P.Ctx) : Except E A → Prop
  | .ok a => Follows P x (f a) Q
  | .error e => Q x (.error e)

theorem follows_bind : Follows P x (p >>= f) Q ↔ Follows P x p (andThen P f Q) := by
  change Follows P x (p.bind f) Q ↔ _
  induction p generalizing x with
  | ret a | fail e => rfl
  | call c k ih => simp only [Program.bind, Follows, ih]

theorem follows_perform_bind {f : R c → Program C R E B} (hal : P.allow x c)
    (herr : ∀ e, Q (P.after x c (.error e)) (.error e))
    (hok : ∀ a, Follows P (P.after x c (.ok a)) (f a) Q) : Follows P x (perform c >>= f) Q := by
  refine follows_bind.2 (follows_perform.2 ⟨hal, fun r => ?_⟩)
  cases r with
  | error e => exact herr e
  | ok a => exact hok a

theorem follows_attempt {Q : P.Ctx → Except E (Except E A) → Prop} :
    Follows P x p.attempt Q ↔ Follows P x p fun y r => Q y (.ok r) := by
  induction p generalizing x with
  | ret a | fail e => rfl
  | call c k ih => simp only [attempt, Follows, ih]

/-- A program that goes on also if the command fails. -/
theorem follows_attempt_perform_bind {f : Except E (R c) → Program C R E B} :
    Follows P x (attempt (perform c) >>= f) Q ↔
      P.allow x c ∧ ∀ r, Follows P (P.after x c r) (f r) Q := by
  rw [follows_bind, follows_attempt, follows_perform]
  rfl

theorem follows_map {f : A → B} :
    Follows P x (f <$> p) Q ↔ Follows P x p fun y r => Q y (r.map f) := by
  change Follows P x (p.bind fun a => pure (f a)) Q ↔ _
  induction p generalizing x with
  | ret a | fail e => rfl
  | call c k ih => simp only [Program.bind, Follows, ih]

theorem follows_forEach {X : Type} {f : X → Program C R E Unit} {xs : List X}
    (hturn : ∀ z y, I y → Follows P y (f z) fun y' _ => I y') (hx : I x) :
    Follows P x (forEach f xs) fun y _ => I y := by
  induction xs generalizing x with
  | nil => exact hx
  | cons z zs ih =>
    refine follows_bind.2 ((hturn z x hx).mono fun y r hy => ?_)
    cases r with
    | error e => exact hy
    | ok a => exact ih hy

/-! ## Programs that call certain commands only -/

variable {K : C → Prop} {p p' : Program C R E A}

theorem Calls.mono {K' : C → Prop} (hp : Calls K p) (hK : ∀ c, K c → K' c) : Calls K' p := by
  induction p with
  | ret a | fail e => trivial
  | call c k ih => exact ⟨hK c hp.1, fun r => ih r (hp.2 r)⟩

theorem calls_pure {a : A} : Calls K (pure a : Program C R E A) := trivial

theorem calls_fail {e : E} : Calls K (fail e : Program C R E A) := trivial

theorem calls_ofExcept (r : Except E A) : Calls K (ofExcept r : Program C R E A) := by
  cases r <;> trivial

theorem calls_perform (hc : K c) : Calls K (perform c : Program C R E (R c)) :=
  ⟨hc, calls_ofExcept⟩

theorem calls_bind (hp : Calls K p) (hf : ∀ a, Calls K (f a)) : Calls K (p >>= f) := by
  induction p with
  | ret a => exact hf a
  | fail e => trivial
  | call c k ih => exact ⟨hp.1, fun r => ih r (hp.2 r)⟩

theorem calls_attempt (hp : Calls K p) : Calls K p.attempt := by
  induction p with
  | ret a | fail e => trivial
  | call c k ih => exact ⟨hp.1, fun r => ih r (hp.2 r)⟩

theorem calls_attempt_bind {f : Except E (R c) → Program C R E B} (hc : K c)
    (hf : ∀ r, Calls K (f r)) : Calls K ((perform c).attempt >>= f) :=
  calls_bind (calls_attempt (calls_perform hc)) hf

theorem calls_ite {b : Prop} [Decidable b] (hp : Calls K p) (hp' : Calls K p') :
    Calls K (if b then p else p') := by
  split
  · exact hp
  · exact hp'

theorem calls_forEach {X : Type} {f : X → Program C R E Unit} {xs : List X}
    (h : ∀ x, Calls K (f x)) : Calls K (forEach f xs) := by
  induction xs with
  | nil => trivial
  | cons x xs ih => exact calls_bind (h x) fun _ => ih

theorem Calls.follows (hp : Calls K p)
    (hK : ∀ c, K c → ∀ y, I y → P.allow y c ∧ ∀ r, I (P.after y c r)) (hx : I x) :
    Follows P x p fun y _ => I y := by
  induction p generalizing x with
  | ret a | fail e => exact hx
  | call c k ih =>
    obtain ⟨hal, haft⟩ := hK c hp.1 x hx
    exact ⟨hal, fun r => ih r (hp.2 r) (haft r)⟩

end Nasiko.Concurrency
