import Nasiko.Concurrency.History
import Nasiko.Concurrency.Tally
import Nasiko.Flow.Guard

/-!
# Frames of the call chain

A caller that runs `check`, `record_invocation` and `record_return` writes the chain twice, with its
own frame and without its last frame. Each time it reads the chain, changes it, and writes it back.
The protocol `editing` says which commands a caller may run in which of its phases; after the chain
is read for an edit, nothing but the write may follow.

If nobody reads the chain for an edit while somebody else is about to write it, every caller writes
what it makes of the current chain: `Views`.
-/

namespace Nasiko.Flow

open Concurrency Program Function Option List Command State

/-! ## Phases of a caller -/

inductive Phase where
  /-- `check`, and what it has read of the chain. -/
  | checking (seen : Option (List Str))
  | counted
  /-- The depth is incremented. -/
  | deep
  | pushing (chain : Str)
  | pushed
  /-- The depth is decremented. -/
  | shallow
  | popping (chain : Str)
  | popped
  deriving DecidableEq

/-- A caller: its own frame, the depth that it was told last, and whether it could not go on for
want of a connection. -/
structure Caller where
  target : Str
  phase : Phase
  depth : Option Nat
  offline : Bool
  deriving DecidableEq

namespace Phase

/-- What the caller is about to write. -/
def edit (target : Str) : Phase → Option Str
  | pushing chain => some (extend chain target)
  | popping chain => some (shorten chain)
  | _ => none

/-- The chain that the caller has read for an edit. -/
def view : Phase → Option Str
  | pushing chain => some chain
  | popping chain => some chain
  | _ => none

/-- The frame of the caller is in the chain. -/
def holds : Phase → Bool
  | pushed | shallow | popping _ => true
  | _ => false

/-- The depth counts the caller. -/
def raised : Phase → Bool
  | deep | pushing _ | pushed => true
  | _ => false

/-- How often the caller has changed the depth or the chain. -/
def changes : Phase → Nat
  | checking _ | counted => 0
  | deep | pushing _ => 1
  | pushed => 2
  | shallow | popping _ => 3
  | popped => 4

/-- The caller has changed nothing yet, or has changed everything back. -/
def settled (phase : Phase) : Prop := phase.changes = 0 ∨ phase.changes = 4

/-- What the caller knows when it has read the chain. -/
def read (chain : Str) : Phase → Phase
  | checking none => checking (some (frames chain))
  | deep => pushing chain
  | shallow => popping chain
  | phase => phase

/-- What the caller knows when it has written the chain. -/
def written : Phase → Phase
  | pushing _ => pushed
  | popping _ => popped
  | phase => phase

theorem edit_eq_none {target : Str} {phase : Phase} :
    phase.edit target = none ↔ phase.view = none := by
  cases phase <;> simp [edit, view]

theorem view_written (phase : Phase) : phase.written.view = none := by
  cases phase <;> rfl

end Phase

namespace Caller

def start (target : Str) : Caller := ⟨target, .checking none, none, false⟩

variable (x : Caller)

/-- Has the caller read the chain for an edit? -/
def writes : Prop := x.phase.view ≠ none

def allow : Command → Prop
  | .hgetCounter .depth => x.phase = .checking none
  | .hgetChain => x.phase = .checking none ∨ x.phase = .deep ∨ x.phase = .shallow
  | .hincrby .totalInvocations n =>
    n = 1 ∧ ∃ seen, x.phase = .checking (some seen) ∧ x.target ∉ seen
  | .hincrby .depth n => n = 1 ∧ x.phase = .counted ∨ n = -1 ∧ x.phase = .pushed
  | .hincrby .totalTokensUsed _ => False
  | .hsetChain chain => x.phase.edit x.target = some chain
  | .hsetStart _ _ => False
  | .callAgent target => x.phase = .pushed ∧ target = x.target
  | _ => ¬ x.writes

def move : (c : Command) → Except RedisError (Reply c) → Phase
  | .hgetChain, .ok (some chain) => x.phase.read chain
  | .hgetChain, _ => x.phase.read []
  | .hincrby .totalInvocations _, _ => .counted
  | .hincrby .depth n, _ => if n = 1 then .deep else .shallow
  | .hsetChain _, _ => x.phase.written
  | _, _ => x.phase

def depthAfter : (c : Command) → Except RedisError (Reply c) → Option Nat
  | .hgetCounter .depth, .ok n => some (asRead 32 n)
  | .hgetCounter .depth, .error _ => some 0
  | .hincrby .depth _, .ok n => some (asUnsigned 32 n)
  | .hincrby .depth _, .error _ => some 1
  | _, _ => x.depth

def offlineAfter : (c : Command) → Except RedisError (Reply c) → Bool
  | .connect, .error _ => true
  | .await _, .error _ => true
  | _, _ => x.offline

def after (c : Command) (r : Except RedisError (Reply c)) : Caller :=
  ⟨x.target, x.move c r, x.depthAfter c r, x.offlineAfter c r⟩

end Caller

def editing : Protocol Command Reply RedisError where
  Ctx := Caller
  allow := Caller.allow
  after := Caller.after

def Command.setsChain : Command → Bool
  | hsetChain _ => true
  | _ => false

variable {c : Command} {s s' : State} {x : Caller}

/-- After the chain was read for an edit, nothing but the write may follow. -/
theorem Caller.writes_iff (hal : editing.allow x c) : x.writes ↔ ∃ chain, c = .hsetChain chain := by
  have hvi : ∀ {phase : Phase}, x.phase = phase → phase.view = none → ¬ x.writes :=
    fun hph hnone hwr => hwr (hph ▸ hnone)
  constructor
  · intro hwr
    cases c with
    | hsetChain chain => exact ⟨chain, rfl⟩
    | hgetChain =>
      rcases hal with h | h | h <;> exact absurd hwr (hvi h rfl)
    | hincrby f n =>
      cases f with
      | totalInvocations =>
        obtain ⟨-, seen, h, -⟩ := hal
        exact absurd hwr (hvi h rfl)
      | depth =>
        rcases hal with ⟨-, h⟩ | ⟨-, h⟩ <;> exact absurd hwr (hvi h rfl)
      | totalTokensUsed => cases hal
    | hsetStart root startedAt => cases hal
    | callAgent u => exact absurd hwr (hvi hal.1 rfl)
    | hgetCounter f =>
      cases f with
      | depth => exact absurd hwr (hvi hal rfl)
      | _ => exact absurd hwr hal
    | _ => exact absurd hwr hal
  · rintro ⟨chain, rfl⟩ h
    have hed : x.phase.edit x.target = some chain := hal
    rw [Phase.edit_eq_none.2 h] at hed
    cases hed

theorem Caller.checking_of_after {r : Except RedisError (Reply c)} {seen : Option (List Str)}
    (hph : (editing.after x c r).phase = .checking seen) :
    ∃ seen', x.phase = .checking seen' := by
  have hread : ∀ chain, x.phase.read chain = .checking seen →
      ∃ seen', x.phase = .checking seen' := by
    intro chain h
    cases hx : x.phase with
    | checking seen' => exact ⟨seen', rfl⟩
    | _ =>
      rw [hx] at h
      cases h
  cases c with
  | hgetChain =>
    match r with
    | .error _ | .ok none => exact hread [] hph
    | .ok (some chain) => exact hread chain hph
  | hincrby f n =>
    cases f with
    | totalInvocations => cases hph
    | depth =>
      change (if n = 1 then Phase.deep else .shallow) = _ at hph
      split at hph <;> cases hph
    | totalTokensUsed => exact ⟨seen, hph⟩
  | hsetChain chain =>
    have hwri : x.phase.written = .checking seen := hph
    cases hx : x.phase with
    | checking seen' => exact ⟨seen', rfl⟩
    | _ =>
      rw [hx] at hwri
      cases hwri
  | _ => exact ⟨seen, hph⟩

/-- The caller has returned, or has seen its own target in the chain. -/
def Caller.Final (x : Caller) : Prop :=
  x.phase = .popped ∨ ∃ seen, x.phase = .checking (some seen) ∧ x.target ∈ seen

theorem Caller.Final.phase_after (hx : x.Final) (hal : editing.allow x c)
    (r : Except RedisError (Reply c)) : (editing.after x c r).phase = x.phase := by
  have hne : ∀ {phase}, x.phase = phase → phase ≠ .popped →
      (∀ seen, phase ≠ .checking (some seen)) → False := by
    intro phase hph hpop hche
    rcases hx with h | ⟨seen, h, -⟩
    · exact hpop (hph.symm.trans h)
    · exact hche seen (hph.symm.trans h)
  cases c with
  | hgetChain =>
    rcases hal with h | h | h <;> exact (hne h nofun nofun).elim
  | hincrby f n =>
    cases f with
    | totalInvocations =>
      obtain ⟨-, seen, h, hnot⟩ := hal
      rcases hx with h' | ⟨seen', h', hmem⟩
      · exact nomatch h.symm.trans h'
      · cases h.symm.trans h'
        exact absurd hmem hnot
    | depth =>
      rcases hal with ⟨-, h⟩ | ⟨-, h⟩ <;> exact (hne h nofun nofun).elim
    | totalTokensUsed => cases hal
  | hsetChain chain =>
    have hed : x.phase.edit x.target = some chain := hal
    rcases hx with h | ⟨seen, h, -⟩
    all_goals
      rw [h] at hed
      cases hed
  | hsetStart root startedAt => cases hal
  | _ => rfl

/-! ## The guard keeps to the protocol -/

variable {x y : Caller} {t : Str} {d : Option Nat} {phase : Phase} {α β : Type}
  {seen : List Str} {config : FlowConfig}

/-- The caller has this frame, has read this depth, and is in this phase. -/
structure Caller.At (t : Str) (d : Option Nat) (phase : Phase) (x : Caller) : Prop where
  target : x.target = t
  depth : x.depth = d
  phase : x.phase = phase

open Caller (At)

theorem Caller.At.not_writes (hx : At t d phase x) (hvi : phase.view = none) : ¬ x.writes := by
  rw [Caller.writes, hx.phase, hvi]
  exact fun h => h rfl

/-- Commands that leave the caller as it is. -/
def Command.still : Command → Prop
  | connect | hgetStartedAt | expire _ | utcNow | await _ | pass _ _ => True
  | hgetCounter f => f ≠ .depth
  | _ => False

theorem follows_still {p : Prog α} (hp : Calls still p) (hvi : phase.view = none)
    (hx : At t d phase x) : Follows editing x p fun y _ => At t d phase y := by
  have hkeep : ∀ c, still c → ∀ y : Caller, At t d phase y →
      editing.allow y c ∧ ∀ r, At t d phase (editing.after y c r) := by
    intro c hc y hy
    cases c with
    | hgetChain | hincrby f n | hsetChain chain | hsetStart root startedAt | callAgent u => cases hc
    | hgetCounter f =>
      cases f with
      | depth => exact absurd rfl hc
      | _ => exact ⟨hy.not_writes hvi, fun r => { hy with }⟩
    | _ => exact ⟨hy.not_writes hvi, fun r => { hy with }⟩
  exact hp.follows hkeep hx

section

variable {Q : Caller → Except RedisError β → Prop}

/-- A command that leaves the caller as it is, and whose failure is replaced by a default. -/
theorem follows_default_bind {k : Except RedisError (Reply c) → Prog α} {f : α → Prog β}
    (hc : c.still) (hk : ∀ r, ∃ a, k r = pure a) (hvi : phase.view = none) (hx : At t d phase x)
    (hf : ∀ a y, At t d phase y → Follows editing y (f a) Q) :
    Follows editing x ((attempt (perform c) >>= k) >>= f) Q := by
  have hone : Calls still (perform c : Prog (Reply c)) := calls_perform hc
  refine follows_bind.2 (follows_bind.2 (follows_attempt.2 ?_))
  refine (follows_still hone hvi hx).mono fun y r hy => ?_
  obtain ⟨a, ha⟩ := hk r
  change Follows editing y (k r) _
  rw [ha]
  exact hf a y hy

theorem follows_withConnection {unavailable : β} {p : Prog β} (hvi : phase.view = none)
    (hx : At t d phase x)
    (herr : ∀ y : Caller, At t d phase y → y.offline = true → Q y (.ok unavailable))
    (hp : ∀ y, At t d phase y → Follows editing y p Q) :
    Follows editing x (withConnection unavailable p) Q := by
  refine follows_attempt_perform_bind.2 ⟨hx.not_writes hvi, fun r => ?_⟩
  cases r with
  | error e => exact herr _ { hx with } rfl
  | ok a => exact hp _ { hx with }

theorem follows_await_bind {stage : Stage} {f : Unit → Prog β} (hvi : phase.view = none)
    (hx : At t d phase x)
    (herr : ∀ (y : Caller) e, At t d phase y → y.offline = true → Q y (.error e))
    (hf : ∀ y, At t d phase y → Follows editing y (f ()) Q) :
    Follows editing x (perform (await stage) >>= f) Q :=
  follows_perform_bind (hx.not_writes hvi) (fun e => herr _ e { hx with } rfl)
    fun _ => hf _ { hx with }

variable {f : Nat → Prog β}

theorem follows_readDepth_bind (hx : At t d (.checking none) x)
    (hf : ∀ n y, At t (some n) (.checking none) y → Follows editing y (f n) Q) :
    Follows editing x (readCounter 32 .depth >>= f) Q := by
  refine follows_bind.2 (follows_attempt_perform_bind.2 ⟨hx.phase, fun r => ?_⟩)
  match r with
  | .error _ => exact hf 0 _ ⟨hx.target, rfl, hx.phase⟩
  | .ok n => exact hf (asRead 32 n) _ ⟨hx.target, rfl, hx.phase⟩

theorem follows_readChain_bind {f : Str → Prog β}
    (hph : phase = .checking none ∨ phase = .deep ∨ phase = .shallow) (hx : At t d phase x)
    (hf : ∀ chain y, At t d (phase.read chain) y → Follows editing y (f chain) Q) :
    Follows editing x (readChain >>= f) Q := by
  have hal : editing.allow x .hgetChain := by
    change x.phase = _ ∨ x.phase = _ ∨ x.phase = _
    rwa [hx.phase]
  refine follows_bind.2 (follows_attempt_perform_bind.2 ⟨hal, fun r => ?_⟩)
  match r with
  | .error _ | .ok none => exact hf [] _ ⟨hx.target, hx.depth, congrArg (Phase.read []) hx.phase⟩
  | .ok (some chain) =>
    exact hf chain _ ⟨hx.target, hx.depth, congrArg (Phase.read chain) hx.phase⟩

theorem follows_writeChain_bind {f : Unit → Prog β} {chain : Str}
    (hed : phase.edit t = some chain) (hx : At t d phase x)
    (hf : ∀ y, At t d phase.written y → Follows editing y (f ()) Q) :
    Follows editing x (ignore (perform (hsetChain chain)) >>= f) Q := by
  have hal : editing.allow x (.hsetChain chain) := by
    change x.phase.edit x.target = some chain
    rw [hx.target, hx.phase, hed]
  refine follows_bind.2 (follows_attempt_perform_bind.2 ⟨hal, fun r => ?_⟩)
  exact hf _ ⟨hx.target, hx.depth, congrArg Phase.written hx.phase⟩

theorem follows_count_bind (ht : t ∉ seen) (hx : At t d (.checking (some seen)) x)
    (hf : ∀ total y, At t d .counted y → Follows editing y (f total) Q) :
    Follows editing x (increment 32 .totalInvocations 1 1 >>= f) Q := by
  have hal : editing.allow x (.hincrby .totalInvocations 1) :=
    ⟨rfl, seen, hx.phase, hx.target.symm ▸ ht⟩
  refine follows_bind.2 (follows_attempt_perform_bind.2 ⟨hal, fun r => ?_⟩)
  cases r with
  | error e | ok total => exact hf _ _ ⟨hx.target, hx.depth, rfl⟩

theorem follows_descend_bind (hx : At t d .counted x)
    (hf : ∀ n y, At t (some n) .deep y → Follows editing y (f n) Q) :
    Follows editing x (increment 32 .depth 1 1 >>= f) Q := by
  have hal : editing.allow x (.hincrby .depth 1) := .inl ⟨rfl, hx.phase⟩
  refine follows_bind.2 (follows_attempt_perform_bind.2 ⟨hal, fun r => ?_⟩)
  cases r with
  | error e | ok total => exact hf _ _ ⟨hx.target, rfl, rfl⟩

end

/-- What the caller knows after `check`. -/
structure Checked (config : FlowConfig) (t : Str) (x : Caller)
    (r : Except RedisError (Except FlowRejection Unit)) : Prop where
  target : x.target = t
  phase : ∃ seen, x.phase = .checking seen
  accepted : r = .ok (.ok ()) → ∃ seen, x.phase = .checking (some seen) ∧ t ∉ seen
  cycle : ∀ seen, x.phase = .checking (some seen) → t ∈ seen →
    (∃ n, x.depth = some n ∧ config.maxDepth ≤ n) ∨ r = .ok (.error (.cycleDetected t seen))

theorem Checked.of_not_mem (ht : t ∉ seen) (hx : At t d (.checking (some seen)) x)
    {r : Except RedisError (Except FlowRejection Unit)} : Checked config t x r := by
  refine ⟨hx.target, ⟨_, hx.phase⟩, fun _ => ⟨seen, hx.phase, ht⟩, fun seen' hph hmem => ?_⟩
  rw [hx.phase] at hph
  cases hph
  exact absurd hmem ht

theorem follows_verdict {n invocations tokens : Nat} {chain : Str} {startedAt : Option Int}
    (hx : At t (some n) (.checking (some (frames chain))) x) :
    Follows editing x (verdict config t n chain invocations tokens startedAt)
      (Checked config t) := by
  rcases verdict_cases config t n chain invocations tokens startedAt with
    ⟨e, hv, href⟩ | ⟨hv, -, ht, -⟩
  all_goals rw [hv]
  · rcases href with hdeep | ⟨-, rfl⟩ | ⟨ht, -⟩
    · exact ⟨hx.target, ⟨_, hx.phase⟩, nofun, fun _ _ _ => .inl ⟨n, hx.depth, hdeep⟩⟩
    · refine ⟨hx.target, ⟨_, hx.phase⟩, nofun, fun seen hph hmem => .inr ?_⟩
      rw [hx.phase] at hph
      cases hph
      rfl
    · exact Checked.of_not_mem ht hx
  -- What comes after the chain was searched cannot depend on it.
  · cases startedAt with
    | none => exact Checked.of_not_mem ht hx
    | some started =>
      have hnow : still .utcNow := trivial
      refine (follows_still (calls_bind (calls_perform hnow) fun now =>
        calls_ite calls_pure calls_pure) rfl hx).mono fun y r hy => ?_
      exact Checked.of_not_mem ht hy

theorem follows_check (config : FlowConfig) (hx : At t none (.checking none) x) :
    Follows editing x (check config t) (Checked config t) := by
  have hst : ∀ {y : Caller} {d r}, At t d (.checking none) y → r ≠ .ok (.ok ()) →
      Checked config t y r := by
    intro y d r hy hr
    refine ⟨hy.target, ⟨_, hy.phase⟩, fun h => absurd h hr, fun seen hph => ?_⟩
    rw [hy.phase] at hph
    cases hph
  refine follows_withConnection rfl hx (fun y hy _ => hst hy nofun) fun y hy => ?_
  refine follows_readDepth_bind hy fun n y hy => ?_
  refine follows_readChain_bind (.inl rfl) hy fun chain y hy => ?_
  refine follows_default_bind nofun
    (fun r => by split <;> exact ⟨_, rfl⟩) rfl hy fun invocations y hy => ?_
  refine follows_default_bind nofun
    (fun r => by split <;> exact ⟨_, rfl⟩) rfl hy fun tokens y hy => ?_
  exact follows_default_bind trivial
    (fun r => by split <;> exact ⟨_, rfl⟩) rfl hy fun startedAt y hy => follows_verdict hy

/-- What the caller knows after `record_invocation`: its frame is written if it may go on, and also
if it is too deep. -/
structure Recorded (config : FlowConfig) (t : Str) (x : Caller)
    (r : Except RedisError (Except FlowRejection Unit)) : Prop where
  target : x.target = t
  phase : (∃ seen, x.phase = .checking (some seen) ∧ t ∉ seen) ∨ x.phase = .counted ∨
    x.phase = .pushed
  accepted : r = .ok (.ok ()) → x.phase = .pushed
  tooDeep : x.phase = .pushed → r = .ok (.ok ()) ∨ ∃ n, x.depth = some n ∧ config.maxDepth < n

theorem follows_pushFrame (hx : At t d .counted x) :
    Follows editing x (pushFrame config t) (Recorded config t) := by
  refine follows_descend_bind hx fun depth y hy => ?_
  refine follows_readChain_bind (.inr (.inl rfl)) hy fun chain y hy => ?_
  refine follows_writeChain_bind rfl hy fun y hy => ?_
  refine follows_default_bind trivial (fun r => ⟨(), rfl⟩) rfl hy fun a y hy => ?_
  split
  · rename_i hdeep
    exact ⟨hy.target, .inr (.inr hy.phase), nofun, fun _ => .inr ⟨depth, hy.depth, hdeep⟩⟩
  · exact ⟨hy.target, .inr (.inr hy.phase), fun _ => hy.phase, fun _ => .inl rfl⟩

theorem follows_recordInvocation_editing (config : FlowConfig) (ht : t ∉ seen)
    (hx : At t d (.checking (some seen)) x) :
    Follows editing x (recordInvocation config t) (Recorded config t) := by
  refine follows_withConnection rfl hx (fun y hy _ => ?_) fun y hy => ?_
  · exact ⟨hy.target, .inl ⟨seen, hy.phase, ht⟩, nofun, fun h => nomatch hy.phase.symm.trans h⟩
  · refine follows_count_bind ht hy fun invocations y hy => ?_
    split
    · exact ⟨hy.target, .inr (.inl hy.phase), nofun, fun h => nomatch hy.phase.symm.trans h⟩
    · exact follows_pushFrame hy

/-- After `record_return` the caller has nothing more to do with the chain. -/
theorem follows_recordReturn (hx : At t d .pushed x) : Follows editing x recordReturn fun y _ =>
      y.phase = .pushed ∧ y.offline = true ∨ y.phase = .popped := by
  refine follows_withConnection rfl hx (fun y hy hoff => .inl ⟨hy.phase, hoff⟩) fun y hy => ?_
  have hal : editing.allow y (.hincrby .depth (-1)) := .inr ⟨rfl, hy.phase⟩
  refine follows_bind.2 (follows_attempt_perform_bind.2 ⟨hal, fun r => ?_⟩)
  have hy : At t _ .shallow (editing.after y (.hincrby .depth (-1)) r) := ⟨hy.target, rfl, rfl⟩
  refine follows_readChain_bind (.inr (.inr rfl)) hy fun chain y hy => ?_
  have hal : editing.allow y (.hsetChain (shorten chain)) := by
    change y.phase.edit y.target = _
    rw [hy.phase]
    rfl
  exact follows_attempt_perform_bind.2 ⟨hal, fun r => .inr (congrArg Phase.written hy.phase)⟩

/-! ## What a command does to the chain -/

/-- The chain; it is empty if there is none. -/
def State.chain (s : State) : Str := s.hash.callChain.getD []

/-- What a command of a caller does, if it is carried out and does not remove the hash. -/
inductive Turn (x : Caller) (s s' : State) (y : Caller) : Prop where
  | other : s'.chain = s.chain → ¬ x.writes → ¬ y.writes → y.phase.holds = x.phase.holds →
      Turn x s s' y
  | looked : s'.chain = s.chain → ¬ x.writes → y.phase.view = some s.chain →
    y.phase.holds = x.phase.holds → Turn x s s' y
  | wrote : x.phase.edit x.target = some s'.chain → y.phase = x.phase.written → Turn x s s' y

theorem Turn.same (hch : s'.chain = s.chain) (hx : ¬ x.writes) (hph : y.phase = x.phase) :
    Turn x s s' y := by
  refine .other hch hx ?_ (congrArg Phase.holds hph)
  rw [Caller.writes, hph]
  exact hx

theorem Turn.phases {phase' : Phase} (hch : s'.chain = s.chain) (hx : x.phase = phase)
    (hy : y.phase = phase') (hvi : phase.view = none) (hvi' : phase'.view = none)
    (hh : phase'.holds = phase.holds) : Turn x s s' y := by
  refine .other hch (fun h => h ?_) (fun h => h ?_) ?_
  · rw [hx, hvi]
  · rw [hy, hvi']
  · rw [hx, hy, hh]

/-- The command does not remove the hash. -/
def Lives (s s' : State) : Prop := s'.hash = .empty → s.hash = .empty

theorem chain_answer_hincrby (s : State) (f : Counter) (n : Int) :
    (s.answer (.hincrby f n)).2.chain = s.chain := by
  rw [State.answer]
  split
  · cases f <;> rfl
  · rfl

theorem hash_answer_lives (hc : c.writes = false) (hliv : Lives s (s.answer c).2) :
    (s.answer c).2.hash = s.hash :=
  (s.hash_answer hc).elim id fun h => h.trans (hliv h).symm

theorem phase_after_hgetChain (x : Caller) (s : State) :
    (editing.after x .hgetChain (s.answer .hgetChain).1).phase = x.phase.read s.chain := by
  change (editing.after x .hgetChain (.ok s.hash.callChain)).phase = _
  cases hch : s.hash.callChain with
  | none | some chain =>
    rw [State.chain, hch]
    rfl

theorem turn_answer (hal : editing.allow x c) (hliv : Lives s (s.answer c).2) :
    Turn x s (s.answer c).2 (editing.after x c (s.answer c).1) := by
  cases c with
  | hgetChain =>
    have haft := phase_after_hgetChain x s
    rcases hal with hph | hph | hph
    · exact .phases rfl hph (haft.trans (congrArg _ hph)) rfl rfl rfl
    all_goals
      refine .looked rfl (fun h => h (congrArg Phase.view hph)) ?_ ?_
      all_goals
        rw [haft, hph]
        rfl
  | hincrby f n =>
    have hch := chain_answer_hincrby s f n
    cases f with
    | totalInvocations =>
      obtain ⟨-, seen, hph, -⟩ := hal
      exact .phases hch hph rfl rfl rfl rfl
    | depth =>
      rcases hal with ⟨rfl, hph⟩ | ⟨rfl, hph⟩
      all_goals exact .phases hch hph rfl rfl rfl rfl
    | totalTokensUsed => cases hal
  | hsetChain chain => exact .wrote hal rfl
  | hsetStart root startedAt => cases hal
  | callAgent u => exact .same rfl (fun h => h (congrArg Phase.view hal.1)) rfl
  | hgetCounter f =>
    cases f with
    | depth => exact .same rfl (fun h => h (congrArg Phase.view hal)) rfl
    | _ => exact .same rfl hal rfl
  | expire secs | pass millis utc =>
    exact .same (by rw [chain, chain, hash_answer_lives rfl hliv]) hal rfl
  | _ => exact .same rfl hal rfl

/-- A chain with frames on it, the last one first. -/
def stacked (chain : Str) : List Str → Str
  | [] => chain
  | t :: ts => extend (stacked chain ts) t

/-! ## Callers that do not disturb each other -/

variable {Q A : Type} {handle : Q → Prog A} (st : Step (flowSystem handle))

/-- The step leads to where the task writes the chain: it has read the chain for that. -/
def Edits (i : Nat) : Prop :=
  ∃ chain, st.after.next i = some (.hsetChain chain)

/-- No command fails, the hash is not removed, and nobody reads the chain for an edit while somebody
else is about to write it. -/
structure Tidy : Prop where
  done : ∀ i o, st.action = .run i o → o = .done
  lives : Lives st.before.state st.after.state
  apart : ∀ i o, st.action = .run i o → Edits st i →
    ∀ j chain, st.before.next j ≠ some (.hsetChain chain)

def tidy : Bool :=
  decide (hash st.after.state = .empty → hash st.before.state = .empty) && ran st.action
where
  ran : Action Q → Bool
    | .run i .done => !(st.after.next i).any Command.setsChain ||
        (List.range st.before.tasks.length).all fun j => !(st.before.next j).any Command.setsChain
    | .run _ _ => false
    | _ => true

theorem tidy_of_eval {st : Step (flowSystem handle)} (heval : tidy st = true) : Tidy st := by
  simp only [tidy, Bool.and_eq_true, decide_eq_true_eq] at heval
  refine ⟨fun i o hact => ?_, heval.1, fun i o hact hedi j chain hnext => ?_⟩
  · have hran := heval.2
    rw [hact] at hran
    cases o with
    | done => rfl
    | _ => cases hran
  · have hran := heval.2
    obtain ⟨chain', hnext'⟩ := hedi
    have hlt : j < st.before.tasks.length := by
      obtain ⟨task, hta, -⟩ := bind_eq_some_iff.1 hnext
      exact (List.getElem?_eq_some_iff.1 hta).1
    rw [hact] at hran
    cases o with
    | done =>
      rw [tidy.ran, hnext'] at hran
      have hj := all_eq_true.1 hran j (mem_range.2 hlt)
      rw [hnext] at hj
      cases hj
    | _ => cases hran

/-- Who has read the chain for an edit has read what it is now, and is the only one. -/
structure Views (c : Config (flowSystem handle)) (g : Nat → Option Caller) : Prop where
  current : ∀ i x, g i = some x → x.writes → x.phase.view = some (chain c.state)
  alone : ∀ i j x y, g i = some x → g j = some y → x.writes → y.writes → j = i

variable {post : Q → Caller → Except RedisError A → Prop} {start : Q → Caller}
  {c₀ c c' : Config (flowSystem handle)} {g : Nat → Option Caller} {i : Nat}

theorem next_of_writes (hpost : ∀ q y r, post q y r → ¬ y.writes)
    (hkn : Knows (flowSystem handle) editing post g c) (hx : g i = some x) (hwr : x.writes) :
    ∃ chain, c.next i = some (.hsetChain chain) := by
  obtain ⟨q, p, hta⟩ := hkn.known i x hx
  obtain ⟨y, hy, hfol⟩ := hkn.running i q p hta
  obtain rfl : x = y := some.inj (hx.symm.trans hy)
  cases p with
  | ret a | fail e => exact absurd hwr (hpost _ _ _ hfol)
  | call cmd k =>
    obtain ⟨chain, rfl⟩ := (Caller.writes_iff hfol.1).1 hwr
    exact ⟨chain, Config.next_of_getElem? hta⟩

theorem Tidy.turn {o : Outcome} {cmd : Command} {r : Except RedisError (Reply cmd)}
    (hmt : Tidy ⟨c, .run i o, c'⟩)
    (hexec : (flowSystem handle).exec c.state i cmd o = some (r, s)) (hc' : c'.state = s)
    (hal : editing.allow x cmd) : Turn x c.state s (editing.after x cmd r) := by
  obtain rfl : o = .done := hmt.done i o rfl
  have hans := answer_of_exec hexec
  have hliv : Lives c.state c'.state := hmt.lives
  have hturn := turn_answer (s := c.state) hal
  rw [hans] at hturn
  exact hturn (hc' ▸ hliv)

theorem inductive_views (hpost : ∀ q y r, post q y r → ¬ y.writes) (hst : ∀ q, ¬ (start q).writes) :
    Inductive (flowSystem handle) editing c₀ start post Tidy fun _ c g => Views c g where
  spawn h c g q c' hruns hc' hmt hkn hg := by
    subst hc'
    have hold : ∀ {j y}, update g c.tasks.length (some (start q)) j = some y → y.writes →
        g j = some y := by
      intro j y hy hwr
      rcases update_some hy with ⟨-, rfl⟩ | ⟨hj, hy⟩
      · exact absurd hwr (hst q)
      · exact hy
    exact ⟨fun j y hy hw => hg.current j y (hold hy hw) hw,
      fun j j' y y' hy hy' hw hw' => hg.alone j j' y y' (hold hy hw) (hold hy' hw') hw hw'⟩
  run h c g i o q cmd k x r s c' hruns hta hexec hc' hx hal hmt hkn hg := by
    have hturn := hmt.turn hexec (congrArg Config.state hc') hal
    -- The others know what they knew.
    have hold : ∀ {j y}, update g i (some (editing.after x cmd r)) j = some y → j ≠ i →
        g j = some y := by
      intro j y hy hj
      rwa [update_of_ne hj] at hy
    have hown : ∀ {y}, update g i (some (editing.after x cmd r)) i = some y →
        y = editing.after x cmd r := by
      intro y hy
      rw [update_self] at hy
      exact (some.inj hy).symm
    cases hturn with
    | other hch hnot hnot' hh =>
      have hne : ∀ {j y}, update g i (some (editing.after x cmd r)) j = some y → y.writes →
          j ≠ i := by
        rintro j y hy hw rfl
        exact hnot' (hown hy ▸ hw)
      constructor
      · intro j y hy hw
        rw [hg.current j y (hold hy (hne hy hw)) hw, hc', ← hch]
      · intro j j' y y' hy hy' hw hw'
        exact hg.alone j j' y y' (hold hy (hne hy hw)) (hold hy' (hne hy' hw')) hw hw'
    | looked hch hnot hvi hh =>
      -- Nobody else is about to write.
      have hkn' : Knows (flowSystem handle) editing post
          (update g i (some (editing.after x cmd r))) c' := by
        obtain ⟨y, hy, hfol⟩ := hkn.running i q _ hta
        obtain rfl : x = y := some.inj (hx.symm.trans hy)
        rw [hc']
        exact hkn.run r s hta hfol
      have hedi : Edits ⟨c, .run i o, c'⟩ i :=
        next_of_writes hpost hkn' (update_self ..) fun h => (nomatch hvi.symm.trans h)
      have heq : ∀ {j y}, update g i (some (editing.after x cmd r)) j = some y → y.writes →
          j = i := by
        intro j y hy hw
        by_contra hj
        obtain ⟨chain, hnext⟩ := next_of_writes hpost hkn (hold hy hj) hw
        exact hmt.apart i o rfl hedi j chain hnext
      constructor
      · intro j y hy hw
        obtain rfl := heq hy hw
        rw [hown hy, hvi, hc', ← hch]
      · intro j j' y y' hy hy' hw hw'
        rw [heq hy hw, heq hy' hw']
    | wrote hed hph =>
      have hx' : x.writes := fun h => (nomatch (Phase.edit_eq_none.2 h).symm.trans hed)
      have hnot : ∀ {j y}, update g i (some (editing.after x cmd r)) j = some y → ¬ y.writes := by
        intro j y hy hw
        by_cases hj : j = i
        · subst hj
          refine hw ?_
          rw [hown hy, hph]
          exact Phase.view_written _
        · exact hj (hg.alone i j x y hx (hold hy hj) hx' hw)
      exact ⟨fun j y hy hw => absurd hw (hnot hy), fun j j' y y' hy _ hw => absurd hw (hnot hy)⟩
  drop h c g i q cmd k c' hruns hta hc' hmt hkn hg := by
    subst hc'
    exact ⟨fun j y hy => hg.current j y (update_none hy).2,
      fun j j' y y' hy hy' => hg.alone j j' y y' (update_none hy).2 (update_none hy').2⟩
  crash h c g c' hruns hc' hmt hkn hg := by
    subst hc'
    exact ⟨fun j y hy => hg.current j y (of_crash hy).2,
      fun j j' y y' hy hy' => hg.alone j j' y y' (of_crash hy).2 (of_crash hy').2⟩

end Nasiko.Flow
