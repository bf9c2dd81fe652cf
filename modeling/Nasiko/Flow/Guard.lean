import Nasiko.Concurrency.System
import Nasiko.Json.Basic

/-!
# The guard of a flow

Agents that call each other belong to one flow, and the guard of the flow bounds what they may do:
how deep the calls nest, how many there are, how many tokens they use, how long they take, and that
no agent is called while it is already at work. All it knows is one hash in Redis, which expires
when the flow has not called anybody for a while.

Each function of the guard is a program over single commands of Redis, so that the commands of
several callers can come in any order. A reply that is an error, or that is not of the expected
type, is replaced by a default.
-/

namespace Nasiko.Flow

open Concurrency Program Option List

/-! ## Call chains -/

variable (chain : Str)

/-- `call_chain.split(',')` without the empty parts. -/
def frames : List Str := (chain.splitOn ',').filter fun s => !s.isEmpty

/-- A chain with one more agent. -/
def extend (chain target : Str) : Str :=
  if chain.isEmpty then target else chain ++ ',' :: target

def beforeLastComma : Str → Option Str
  | [] => none
  | c :: rest =>
    match beforeLastComma rest with
    | some text => some (c :: text)
    | none => if c = ',' then some [] else none

/-- A chain without its last agent. -/
def shorten : Str := (beforeLastComma chain).getD []

/-- The name of an agent fits into a chain. -/
structure IsName (t : Str) : Prop where
  nonempty : t ≠ []
  noComma : ',' ∉ t

instance (t : Str) : Decidable (IsName t) :=
  decidable_of_iff (t ≠ [] ∧ ',' ∉ t) ⟨fun h => ⟨h.1, h.2⟩, fun h => ⟨h.nonempty, h.noComma⟩⟩

variable {t : Str} {c : Command}

theorem frames_extend (ht : IsName t) : frames (extend chain t) = frames chain ++ [t] := by
  have hone : (t.splitOn ',').filter (fun s => !s.isEmpty) = [t] := by
    rw [splitOn_eq_singleton ht.noComma]
    cases t with
    | nil => exact absurd rfl ht.nonempty
    | cons c t => rfl
  rw [extend]
  split
  · rename_i hemp
    rw [isEmpty_iff.1 hemp]
    exact hone
  · rw [frames, splitOn_append_cons_self, filter_append, hone, frames]

theorem beforeLastComma_eq_none (ht : ',' ∉ t) : beforeLastComma t = none := by
  induction t with
  | nil => rfl
  | cons c t ih =>
    rw [beforeLastComma, ih fun h => ht (mem_cons_of_mem c h)]
    refine if_neg ?_
    rintro rfl
    exact ht mem_cons_self

theorem beforeLastComma_append {chain : Str} (ht : ',' ∉ t) :
    beforeLastComma (chain ++ ',' :: t) = some chain := by
  induction chain with
  | nil => rw [nil_append, beforeLastComma, beforeLastComma_eq_none ht, if_pos rfl]
  | cons c chain ih => rw [cons_append, beforeLastComma, ih]

theorem shorten_extend (ht : ',' ∉ t) : shorten (extend chain t) = chain := by
  rw [extend]
  split
  · rename_i hemp
    rw [shorten, beforeLastComma_eq_none ht, isEmpty_iff.1 hemp, getD_none]
  · rw [shorten, beforeLastComma_append ht, getD_some]

/-! ## Redis -/

/-- The fields that hold a number. -/
inductive Counter where
  | depth
  | totalInvocations
  | totalTokensUsed
  deriving DecidableEq

/-- The hash of a flow; without any field there is no key. -/
structure Hash where
  depth : Option Int
  totalInvocations : Option Int
  totalTokensUsed : Option Int
  callChain : Option Str
  startedAt : Option Int
  deriving DecidableEq

namespace Hash

def empty : Hash := ⟨none, none, none, none, none⟩

def counter (h : Hash) : Counter → Option Int
  | .depth => h.depth
  | .totalInvocations => h.totalInvocations
  | .totalTokensUsed => h.totalTokensUsed

def setCounter (h : Hash) (n : Int) : Counter → Hash
  | .depth => { h with depth := some n }
  | .totalInvocations => { h with totalInvocations := some n }
  | .totalTokensUsed => { h with totalTokensUsed := some n }

end Hash

/-- The key, the clock of Redis in milliseconds, and that of whoever asks for the time, in
nanoseconds. -/
structure State where
  hash : Hash
  expiresAt : Option Int
  redisNow : Int
  utc : Int
  deriving DecidableEq

/-- Where a call that is forwarded to an agent waits for something other than Redis. -/
inductive Stage where
  | access
  | resolve
  | endpoint
  | body
  | session
  | register
  | send
  | response
  deriving DecidableEq

inductive Command where
  | connect
  | hgetCounter (f : Counter)
  | hgetChain
  | hgetStartedAt
  | hincrby (f : Counter) (n : Int)
  | hsetChain (chain : Str)
  /-- The `HSET` that starts a flow. -/
  | hsetStart (rootAgent : Str) (startedAt : Int)
  | expire (secs : Int)
  /-- `Utc::now()`. -/
  | utcNow
  /-- The agent is at work. -/
  | callAgent (target : Str)
  | await (stage : Stage)
  /-- Time passes. -/
  | pass (millis : Nat) (utc : Int)
  deriving DecidableEq

def Command.ofRedis : Command → Bool
  | utcNow | callAgent _ | await _ | pass _ _ => false
  | _ => true

/-- The commands that write the hash; the others leave it as it is or remove it. -/
def Command.writes : Command → Bool
  | hincrby _ _ | hsetChain _ | hsetStart _ _ => true
  | _ => false

abbrev Reply : Command → Type
  | .connect => Unit
  | .hgetCounter _ => Option Int
  | .hgetChain => Option Str
  | .hgetStartedAt => Option Int
  | .hincrby _ _ => Int
  | .hsetChain _ => Unit
  | .hsetStart _ _ => Unit
  | .expire _ => Unit
  | .utcNow => Int
  | .callAgent _ => Unit
  | .await _ => Unit
  | .pass _ _ => Unit

inductive RedisError where
  | error
  deriving DecidableEq

namespace State

variable (s : State)

/-- There is no key. -/
def remove : State := { s with hash := .empty, expiresAt := none }

/-- The value of a counter; it is 0 if there is none. -/
def count (f : Counter) : Int := (s.hash.counter f).getD 0

def incr (f : Counter) (n : Int) : Int := s.count f + n

/-- Is the number a signed one of 64 bits? -/
def isI64 (n : Int) : Bool := -2 ^ 63 ≤ n && n < 2 ^ 63

/-- `EXPIRE`: a time that is not positive removes the key. -/
def expire (secs : Int) : State :=
  if s.hash = .empty then s
  else if secs ≤ 0 then s.remove
  else { s with expiresAt := some (s.redisNow + secs * 1000) }

/-- The clocks after some time. -/
def wait (millis : Nat) (utc : Int) : State :=
  { s with redisNow := s.redisNow + millis, utc := utc }

/-- Time passes; the key is gone when its time is over. -/
def pass (millis : Nat) (utc : Int) : State :=
  if s.expiresAt.any fun t => t < s.redisNow + millis then (s.wait millis utc).remove
  else s.wait millis utc

def answer : (c : Command) → Except RedisError (Reply c) × State
  | .connect => (.ok (), s)
  | .hgetCounter f => (.ok (s.hash.counter f), s)
  | .hgetChain => (.ok s.hash.callChain, s)
  | .hgetStartedAt => (.ok s.hash.startedAt, s)
  | .hincrby f n =>
    if isI64 n && isI64 (s.incr f n) then
      (.ok (s.incr f n), { s with hash := s.hash.setCounter (s.incr f n) f })
    else (.error .error, s)
  | .hsetChain chain => (.ok (), { s with hash := { s.hash with callChain := some chain } })
  | .hsetStart rootAgent startedAt =>
    (.ok (), { s with hash := ⟨some 0, some 0, some 0, some rootAgent, some startedAt⟩ })
  | .expire secs =>
    if isI64 (s.redisNow + secs * 1000) then (.ok (), s.expire secs) else (.error .error, s)
  | .utcNow => (.ok s.utc, s)
  | .callAgent _ => (.ok (), s)
  | .await _ => (.ok (), s)
  | .pass millis utc => (.ok (), s.pass millis utc)

theorem hash_answer (hc : c.writes = false) :
    (s.answer c).2.hash = s.hash ∨ (s.answer c).2.hash = .empty := by
  cases c with
  | hincrby f n | hsetChain chain | hsetStart root startedAt => cases hc
  | expire secs =>
    rw [answer]
    split
    · rw [expire]
      split
      · exact .inl rfl
      · split
        · exact .inr rfl
        · exact .inl rfl
    · exact .inl rfl
  | pass millis utc =>
    change (s.pass millis utc).hash = s.hash ∨ (s.pass millis utc).hash = .empty
    rw [pass]
    split
    · exact .inr rfl
    · exact .inl rfl
  | _ => exact .inl rfl

/-- A command of Redis may fail, or be carried out while its reply is lost. -/
def exec (c : Command) (o : Outcome) : Except RedisError (Reply c) × State :=
  if c.ofRedis then
    match o with
    | .done => s.answer c
    | .failed => (.error .error, s)
    | .lost => (.error .error, (s.answer c).2)
  else s.answer c

theorem exec_done (c : Command) : s.exec c .done = s.answer c := by
  unfold exec
  split <;> rfl

end State

/-- A flow of the orchestrator that has just started. -/
def freshFlow : State :=
  ⟨⟨some 0, some 0, some 0, some "orchestrator", some 0⟩, some 660000, 0, 0⟩

abbrev Prog (α : Type) := Program Command Reply RedisError α

/-! ## The guard -/

structure FlowConfig where
  maxDepth : Nat
  maxFanOut : Nat
  maxFlowTokens : Nat
  flowTimeoutSecs : Nat
  flowStateTtlSecs : Nat
  maxDepth_lt : maxDepth < 2 ^ 32
  maxFanOut_lt : maxFanOut < 2 ^ 32
  maxFlowTokens_lt : maxFlowTokens < 2 ^ 64
  flowTimeoutSecs_lt : flowTimeoutSecs < 2 ^ 64
  flowStateTtlSecs_lt : flowStateTtlSecs < 2 ^ 64

def defaultFlowTimeoutSecs : Nat := 600

def flowStateTtlSlackSecs : Nat := 60

def stateTtlFor (flowTimeoutSecs : Nat) : Nat := flowTimeoutSecs + flowStateTtlSlackSecs

def FlowConfig.default : FlowConfig where
  maxDepth := 5
  maxFanOut := 20
  maxFlowTokens := 100000
  flowTimeoutSecs := defaultFlowTimeoutSecs
  flowStateTtlSecs := stateTtlFor defaultFlowTimeoutSecs
  maxDepth_lt := by decide
  maxFanOut_lt := by decide
  maxFlowTokens_lt := by decide
  flowTimeoutSecs_lt := by decide
  flowStateTtlSecs_lt := by decide

inductive FlowRejection where
  | maxDepthExceeded (depth max : Nat)
  | cycleDetected (agentId : Str) (chain : List Str)
  | maxFanOutExceeded (invocations max : Nat)
  | tokenBudgetExhausted (used max : Nat)
  | flowTimeout (elapsedSecs max : Nat)
  | guardUnavailable
  deriving DecidableEq

variable (bits : Nat)

/-- `as u32` and `as u64`. -/
def asUnsigned (n : Int) : Nat := (n % 2 ^ bits).toNat

/-- `as i64`. -/
def asI64 (n : Nat) : Int := Int.bmod n (2 ^ 64)

def asRead : Option Int → Nat
  | some n => if 0 ≤ n ∧ n < 2 ^ bits then n.toNat else 0
  | none => 0

/-- A field that is read as an unsigned number of some bits; 0 if that fails. -/
def readCounter (f : Counter) : Prog Nat := do
  match ← attempt (perform (Command.hgetCounter f)) with
  | .ok n => pure (asRead bits n)
  | .error _ => pure 0

def readChain : Prog Str := do
  match ← attempt (perform Command.hgetChain) with
  | .ok (some chain) => pure chain
  | _ => pure []

def readStartedAt : Prog (Option Int) := do
  match ← attempt (perform Command.hgetStartedAt) with
  | .ok startedAt => pure startedAt
  | .error _ => pure none

/-- `HINCRBY`, whose reply is taken as an unsigned number. -/
def increment (f : Counter) (n : Int) (default : Nat) : Prog Nat := do
  match ← attempt (perform (Command.hincrby f n)) with
  | .ok total => pure (asUnsigned bits total)
  | .error _ => pure default

/-- A command whose failure is ignored. -/
def ignore {α : Type} (p : Prog α) : Prog Unit := do
  let _ ← attempt p
  pure ()

/-- Run the program with a connection, or answer without one. -/
def withConnection {α : Type} (unavailable : α) (p : Prog α) : Prog α := do
  match ← attempt (perform Command.connect) with
  | .ok () => p
  | .error _ => pure unavailable

variable (config : FlowConfig)

def initFlow (rootAgent : Str) : Prog Unit :=
  withConnection () do
    let now ← perform Command.utcNow
    ignore (perform (Command.hsetStart rootAgent now))
    ignore (perform (Command.expire (asI64 config.flowStateTtlSecs)))

/-- Whole seconds between two times, taken as an unsigned number. -/
def elapsedSecs (now startedAt : Int) : Nat := asUnsigned 64 ((now - startedAt).tdiv 1000000000)

def checkTimeout (startedAt : Option Int) : Prog (Except FlowRejection Unit) :=
  match startedAt with
  | none => pure (.ok ())
  | some started => do
    let now ← perform Command.utcNow
    if elapsedSecs now started > config.flowTimeoutSecs then
      pure (.error (.flowTimeout (elapsedSecs now started) config.flowTimeoutSecs))
    else pure (.ok ())

variable (target : Str)

/-- What `check` answers, given what it has read. -/
def verdict (depth : Nat) (callChain : Str) (totalInvocations totalTokens : Nat)
    (startedAt : Option Int) : Prog (Except FlowRejection Unit) :=
  if depth ≥ config.maxDepth then pure (.error (.maxDepthExceeded depth config.maxDepth))
  else if target ∈ frames callChain then
    pure (.error (.cycleDetected target (frames callChain)))
  else if totalInvocations ≥ config.maxFanOut then
    pure (.error (.maxFanOutExceeded totalInvocations config.maxFanOut))
  else if totalTokens ≥ config.maxFlowTokens then
    pure (.error (.tokenBudgetExhausted totalTokens config.maxFlowTokens))
  else checkTimeout config startedAt

/-- A call is refused for what was read, or it depends on the time. -/
theorem verdict_cases (depth : Nat) (callChain : Str)
    (totalInvocations totalTokens : Nat) (startedAt : Option Int) :
    (∃ e, verdict config target depth callChain totalInvocations totalTokens startedAt =
        pure (.error e) ∧ (config.maxDepth ≤ depth ∨
          target ∈ frames callChain ∧ e = .cycleDetected target (frames callChain) ∨
          target ∉ frames callChain ∧
            (config.maxFanOut ≤ totalInvocations ∨ config.maxFlowTokens ≤ totalTokens))) ∨
      verdict config target depth callChain totalInvocations totalTokens startedAt =
        checkTimeout config startedAt ∧ depth < config.maxDepth ∧ target ∉ frames callChain ∧
          totalInvocations < config.maxFanOut ∧ totalTokens < config.maxFlowTokens := by
  unfold verdict
  split
  · exact .inl ⟨_, rfl, .inl ‹_›⟩
  split
  · exact .inl ⟨_, rfl, .inr (.inl ⟨‹_›, rfl⟩)⟩
  split
  · exact .inl ⟨_, rfl, .inr (.inr ⟨‹_›, .inl ‹_›⟩)⟩
  split
  · exact .inl ⟨_, rfl, .inr (.inr ⟨‹_›, .inr ‹_›⟩)⟩
  · exact .inr ⟨rfl, by omega, ‹_›, by omega, by omega⟩

def check : Prog (Except FlowRejection Unit) :=
  withConnection (.error .guardUnavailable) do
    let depth ← readCounter 32 .depth
    let callChain ← readChain
    let totalInvocations ← readCounter 32 .totalInvocations
    let totalTokens ← readCounter 64 .totalTokensUsed
    let startedAt ← readStartedAt
    verdict config target depth callChain totalInvocations totalTokens startedAt

/-- A call that was counted is written into the hash; it may still turn out to be too deep. -/
def pushFrame : Prog (Except FlowRejection Unit) := do
  let depth ← increment 32 .depth 1 1
  let chain ← readChain
  ignore (perform (Command.hsetChain (extend chain target)))
  ignore (perform (Command.expire (asI64 config.flowStateTtlSecs)))
  if depth > config.maxDepth then pure (.error (.maxDepthExceeded depth config.maxDepth))
  else pure (.ok ())

def recordInvocation : Prog (Except FlowRejection Unit) :=
  withConnection (.error .guardUnavailable) do
    let invocations ← increment 32 .totalInvocations 1 1
    if invocations > config.maxFanOut then
      pure (.error (.maxFanOutExceeded invocations config.maxFanOut))
    else pushFrame config target

def recordTokens (tokensUsed : Nat) : Prog (Except FlowRejection Nat) :=
  withConnection (.error .guardUnavailable) do
    let totalUsed ← increment 64 .totalTokensUsed tokensUsed tokensUsed
    if totalUsed > config.maxFlowTokens then
      pure (.error (.tokenBudgetExhausted totalUsed config.maxFlowTokens))
    else pure (.ok (config.maxFlowTokens - totalUsed))

def recordReturn : Prog Unit :=
  withConnection () do
    ignore (perform (Command.hincrby .depth (-1)))
    let chain ← readChain
    ignore (perform (Command.hsetChain (shorten chain)))

/-! ## Callers -/

/-- Any number of callers of one flow, each of which runs a program for its request. What Redis
holds survives them. -/
def flowSystem {Q A : Type} (handle : Q → Prog A) : System Q Command Reply RedisError A where
  State := State
  exec s _ c o := some (s.exec c o)
  release s _ := s
  crash s := s
  handle := handle

theorem answer_of_exec {Q A : Type} {handle : Q → Prog A} {s s' : State} {i : Nat}
    {r : Except RedisError (Reply c)}
    (hexec : (flowSystem handle).exec s i c .done = some (r, s')) : s.answer c = (r, s') :=
  (State.exec_done s c).symm.trans (some.inj hexec)

/-- The commands that `check` may call. -/
def Command.reads : Command → Prop
  | connect | hgetCounter _ | hgetChain | hgetStartedAt | utcNow => True
  | _ => False

variable {config} {K : Command → Prop} {f : Counter}

theorem calls_readCounter {bits : Nat} (hK : K (.hgetCounter f)) :
    Calls K (readCounter bits f) := by
  refine calls_attempt_bind hK fun r => ?_
  split <;> exact calls_pure

theorem calls_readChain (hK : K .hgetChain) : Calls K readChain := by
  refine calls_attempt_bind hK fun r => ?_
  split <;> exact calls_pure

theorem calls_readStartedAt (hK : K .hgetStartedAt) : Calls K readStartedAt := by
  refine calls_attempt_bind hK fun r => ?_
  split <;> exact calls_pure

theorem calls_withConnection {α : Type} {unavailable : α} {p : Prog α} (hK : K .connect)
    (hp : Calls K p) : Calls K (withConnection unavailable p) := by
  refine calls_attempt_bind hK fun r => ?_
  split
  · exact hp
  · exact calls_pure

theorem calls_ignore (hK : K c) : Calls K (ignore (perform c)) :=
  calls_attempt_bind hK fun _ => calls_pure

theorem calls_increment {bits default : Nat} {n : Int} (hK : K (.hincrby f n)) :
    Calls K (increment bits f n default) := by
  refine calls_attempt_bind hK fun r => ?_
  split <;> exact calls_pure

theorem calls_check (config : FlowConfig) (t : Str) : Calls Command.reads (check config t) := by
  refine calls_withConnection trivial (calls_bind (calls_readCounter trivial) fun depth => ?_)
  refine calls_bind (calls_readChain trivial) fun chain => ?_
  refine calls_bind (calls_readCounter trivial) fun invocations => ?_
  refine calls_bind (calls_readCounter trivial) fun tokens => ?_
  refine calls_bind (calls_readStartedAt trivial) fun startedAt => ?_
  refine calls_ite calls_pure (calls_ite calls_pure (calls_ite calls_pure
    (calls_ite calls_pure ?_)))
  cases startedAt with
  | none => exact calls_pure
  | some started =>
    exact calls_bind (calls_perform trivial) fun now => calls_ite calls_pure calls_pure

end Nasiko.Flow
