import Nasiko.Concurrency.Program

/-!
# Systems of programs

A `System` answers every request with a program and carries out the commands of all running
programs, one at a time and in any order. A command may fail, or be carried out while its answer is
lost; a running program may be dropped; the whole system may crash, which ends every running
program.

`Runs c₀ h c` holds if the steps `h` lead from `c₀` to `c`.
-/

namespace Nasiko.Concurrency

open Option

/-- How a command ends: it is carried out and answered, it fails and changes nothing but what its
failure changes, or it is carried out and the answer is lost. -/
inductive Outcome where
  | done
  | failed
  | lost
  deriving DecidableEq

/-- A state shared by programs. `exec s i c o` carries out `c` for the program with number `i`; it
is `none` while the command has to wait. `release s i` is what happens when program `i` is
dropped. -/
structure System (Q C : Type) (R : C → Type) (E A : Type) where
  State : Type
  exec : State → Nat → (c : C) → Outcome → Option (Except E (R c) × State)
  release : State → Nat → State
  crash : State → State
  handle : Q → Program C R E A

variable {Q C : Type} {R : C → Type} {E A : Type}

def Program.answer : Program C R E A → Option (Except E A)
  | .ret a => some (.ok a)
  | .fail e => some (.error e)
  | .call _ _ => none

inductive Status (C : Type) (R : C → Type) (E A : Type) where
  | running (p : Program C R E A)
  | dropped

/-- A request and what is left of its program. -/
structure Task (Q C : Type) (R : C → Type) (E A : Type) where
  request : Q
  status : Status C R E A

namespace Task

variable (t : Task Q C R E A)

def answer : Option (Except E A) :=
  match t.status with
  | .running p => p.answer
  | .dropped => none

/-- The command that the task carries out next. -/
def next : Option C :=
  match t.status with
  | .running (.call c _) => some c
  | _ => none

/-- A crash ends the tasks that have not answered yet. -/
def interrupt : Task Q C R E A :=
  if t.answer.isSome then t else { t with status := .dropped }

@[simp] theorem request_interrupt : t.interrupt.request = t.request := by
  unfold interrupt
  split <;> rfl

@[simp] theorem answer_interrupt : t.interrupt.answer = t.answer := by
  unfold interrupt
  split
  · rfl
  · rename_i h
    cases hans : t.answer with
    | none => rfl
    | some r => exact absurd (by rw [hans]; rfl) h

end Task

/-- The state and the tasks; a task's number is its position. -/
structure Config (S : System Q C R E A) where
  state : S.State
  tasks : List (Task Q C R E A)

inductive Action (Q : Type) where
  | spawn (q : Q)
  | run (i : Nat) (o : Outcome)
  | drop (i : Nat)
  | crash

/-- Task `i` carries out `n` commands. -/
def Action.turns (i n : Nat) : List (Action Q) := List.replicate n (.run i .done)

variable {S : System Q C R E A}

namespace Config

variable (c : Config S)

/-- What task `i` was asked for. -/
def request (i : Nat) : Option Q := c.tasks[i]?.map Task.request

/-- What task `i` has answered. -/
def answer (i : Nat) : Option (Except E A) := c.tasks[i]?.bind Task.answer

/-- The command that task `i` carries out next. -/
def next (i : Nat) : Option C := c.tasks[i]?.bind Task.next

def step : Action Q → Option (Config S)
  | .spawn q => some { c with tasks := c.tasks ++ [⟨q, .running (S.handle q)⟩] }
  | .run i o =>
    match c.tasks[i]? with
    | some ⟨q, .running (.call cmd k)⟩ =>
      (S.exec c.state i cmd o).map fun x => ⟨x.2, c.tasks.set i ⟨q, .running (k x.1)⟩⟩
    | _ => none
  | .drop i =>
    match c.tasks[i]? with
    | some ⟨q, .running (.call _ _)⟩ => some ⟨S.release c.state i, c.tasks.set i ⟨q, .dropped⟩⟩
    | _ => none
  | .crash => some ⟨S.crash c.state, c.tasks.map Task.interrupt⟩

variable {c : Config S} {i j : Nat} {q : Q} {c' : Config S}

theorem next_of_getElem? {cmd : C} {k : Except E (R cmd) → Program C R E A}
    (hta : c.tasks[i]? = some ⟨q, .running (.call cmd k)⟩) : c.next i = some cmd := by
  rw [next, hta]
  rfl

theorem next_of_answer {r : Except E A} (h : c.answer i = some r) : c.next i = none := by
  obtain ⟨⟨q, status⟩, hta, hans⟩ := bind_eq_some_iff.1 h
  rw [next, hta]
  match status with
  | .dropped | .running (.ret _) | .running (.fail _) => rfl
  | .running (.call _ _) => cases hans

theorem step_run {o : Outcome} (h : c.step (.run i o) = some c') :
    ∃ q cmd k r s, c.tasks[i]? = some ⟨q, .running (.call cmd k)⟩ ∧
      S.exec c.state i cmd o = some (r, s) ∧ c' = ⟨s, c.tasks.set i ⟨q, .running (k r)⟩⟩ := by
  simp only [step] at h
  split at h
  · rename_i q cmd k hta
    obtain ⟨⟨r, s⟩, hexec, rfl⟩ := map_eq_some_iff.1 h
    exact ⟨q, cmd, k, r, s, hta, hexec, rfl⟩
  · cases h

theorem step_drop (h : c.step (.drop i) = some c') :
    ∃ q cmd k, c.tasks[i]? = some ⟨q, .running (.call cmd k)⟩ ∧
      c' = ⟨S.release c.state i, c.tasks.set i ⟨q, .dropped⟩⟩ := by
  simp only [step] at h
  split at h
  · rename_i q cmd k hta
    exact ⟨q, cmd, k, hta, (some.inj h).symm⟩
  · cases h

theorem request_set {st st' : Status C R E A} (s : S.State) (hta : c.tasks[i]? = some ⟨q, st⟩) :
    (⟨s, c.tasks.set i ⟨q, st'⟩⟩ : Config S).request j = c.request j := by
  have hlt : i < c.tasks.length := (List.getElem?_eq_some_iff.1 hta).1
  by_cases hij : j = i
  · rw [hij, request, request, List.getElem?_set_self hlt, hta]
    rfl
  · rw [request, request, List.getElem?_set_ne (Ne.symm hij)]

theorem request_append (t : Task Q C R E A) (s : S.State) (h : c.request j = some q) :
    (⟨s, c.tasks ++ [t]⟩ : Config S).request j = some q := by
  obtain ⟨u, hu, rfl⟩ := map_eq_some_iff.1 h
  rw [request, List.getElem?_append_left (List.getElem?_eq_some_iff.1 hu).1, hu]
  rfl

theorem request_interrupt (s : S.State) :
    (⟨s, c.tasks.map Task.interrupt⟩ : Config S).request j = c.request j := by
  simp only [request, List.getElem?_map, map_map]
  congr 1
  funext t
  exact Task.request_interrupt t

end Config

/-- One step of a run, with what was before and after it. -/
structure Step (S : System Q C R E A) where
  before : Config S
  action : Action Q
  after : Config S

/-- The command that the step runs, and how it turns out. -/
def Step.command (st : Step S) : Option (C × Outcome) :=
  match st.action with
  | .run i o => (st.before.next i).map fun cmd => (cmd, o)
  | _ => none

theorem Step.command_run {c c' : Config S} {q : Q} {cmd : C} {o : Outcome}
    {k : Except E (R cmd) → Program C R E A}
    (hta : c.tasks[i]? = some ⟨q, .running (.call cmd k)⟩) :
    (⟨c, .run i o, c'⟩ : Step S).command = some (cmd, o) :=
  congrArg (fun n => Option.map (fun cmd => (cmd, o)) n) (Config.next_of_getElem? hta)

/-- The steps `h` lead from `c₀` to `c`. -/
inductive Runs (c₀ : Config S) : List (Step S) → Config S → Prop where
  | nil : Runs c₀ [] c₀
  | snoc {h : List (Step S)} {c c' : Config S} {a : Action Q} (hruns : Runs c₀ h c)
      (hstep : c.step a = some c') : Runs c₀ (h ++ [⟨c, a, c'⟩]) c'

/-- Take the given actions, as far as each one is possible. -/
def Config.execute (c : Config S) :
    List (Action Q) → List (Step S) → Option (List (Step S) × Config S)
  | [], h => some (h, c)
  | a :: as, h => (c.step a).bind fun c' => c'.execute as (h ++ [⟨c, a, c'⟩])

theorem Config.runs_execute {c₀ c c' : Config S} {as : List (Action Q)} {h h' : List (Step S)}
    (hruns : Runs c₀ h c) (hexe : c.execute as h = some (h', c')) : Runs c₀ h' c' := by
  induction as generalizing c h with
  | nil =>
    obtain ⟨rfl, rfl⟩ := hexe
    exact hruns
  | cons a as ih =>
    obtain ⟨d, hstep, hrest⟩ := bind_eq_some_iff.1 hexe
    exact ih (hruns.snoc hstep) hrest

/-- A run found by evaluation. -/
theorem exists_runs (c₀ : Config S) (as : List (Action Q)) (p : List (Step S) → Config S → Prop)
    [∀ h c, Decidable (p h c)] (h : ((c₀.execute as []).any fun x => decide (p x.1 x.2)) = true) :
    ∃ h c, Runs c₀ h c ∧ p h c := by
  cases hexe : c₀.execute as [] with
  | none => simp [hexe] at h
  | some x =>
    rw [hexe] at h
    exact ⟨x.1, x.2, Config.runs_execute .nil hexe, of_decide_eq_true h⟩

end Nasiko.Concurrency
