import Nasiko.Flow.Guard

/-!
# What the guard answers when Redis fails

Without a connection to Redis the guard refuses every call. Once it has a connection, a command may
still fail; the guard then goes on with a default: 0 for a counter, no agent for the chain, no start
for the time, 1 for a counter that could not be incremented.

**Theorem (`failsClosed_iff`).** For every state of the flow and every pattern of failures, `check`
accepts a call without all of its readings exactly if some reading fails and no limit is reached by
what is left of the hash; and `record_invocation` accepts a call although one of its commands has
failed exactly if both counters, as far as they were incremented, are within their limits.

The program is run command by command (`runAlone`); one equation for each function of the guard says
what it reads and whether Redis has answered.
-/

namespace Nasiko.Flow

open Concurrency Program Except State

/-! ## One call on its own -/

/-- Run a program on its own; the pattern says what becomes of each command of Redis. The result,
the state at the end, and whether Redis has answered every command. -/
def runAlone {α : Type} (pattern : Command → Outcome) :
    State → Prog α → Bool → Except RedisError α × State × Bool
  | s, .ret a, answered => (.ok a, s, answered)
  | s, .fail e, answered => (.error e, s, answered)
  | s, .call c k, answered =>
    let reply := s.exec c (pattern c)
    runAlone pattern reply.2 (k reply.1) (answered && reply.1.isOk)

/-- Redis does not answer the command. -/
def State.fails (s : State) (pattern : Command → Outcome) (c : Command) : Bool :=
  !(s.exec c (pattern c)).1.isOk

/-- A call that is accepted was decided on answers of Redis only. -/
def FailsClosed (pattern : Command → Outcome) (s : State) (p : Prog (Except FlowRejection Unit)) :
    Prop :=
  (runAlone pattern s p true).1 = .ok (.ok ()) → (runAlone pattern s p true).2.2 = true

/-- The readings of `check`. -/
def checkReadings : List Command :=
  [.hgetCounter .depth, .hgetChain, .hgetCounter .totalInvocations, .hgetCounter .totalTokensUsed,
    .hgetStartedAt]

/-- The hash without the fields that cannot be read. -/
def Hash.readable (h : Hash) (fails : Command → Bool) : Hash where
  depth := if fails (.hgetCounter .depth) then none else h.depth
  callChain := if fails .hgetChain then none else h.callChain
  totalInvocations := if fails (.hgetCounter .totalInvocations) then none else h.totalInvocations
  totalTokensUsed := if fails (.hgetCounter .totalTokensUsed) then none else h.totalTokensUsed
  startedAt := if fails .hgetStartedAt then none else h.startedAt

/-- No limit is reached and the agent is not at work. -/
structure Admits (config : FlowConfig) (target : Str) (h : Hash) (utc : Int) : Prop where
  depth : asRead 32 h.depth < config.maxDepth
  cycle : target ∉ frames (h.callChain.getD [])
  fanOut : asRead 32 h.totalInvocations < config.maxFanOut
  tokens : asRead 64 h.totalTokensUsed < config.maxFlowTokens
  timeout : ∀ started, h.startedAt = some started →
    elapsedSecs utc started ≤ config.flowTimeoutSecs

/-- The commands of `record_invocation` after the connection. -/
def recordCommands (config : FlowConfig) (target : Str) (s : State) : List Command :=
  [.hincrby .totalInvocations 1, .hincrby .depth 1, .hgetChain,
    .hsetChain (extend (s.hash.callChain.getD []) target), .expire (asI64 config.flowStateTtlSecs)]

/-- What an increment of the counter is taken for. -/
def State.counted (s : State) (fails : Command → Bool) (f : Counter) : Nat :=
  if fails (.hincrby f 1) then 1 else asUnsigned 32 (s.incr f 1)

/-! ## One equation for each function -/

section

variable {α β : Type} {pattern : Command → Outcome} {s : State} {b : Bool}
  {c : Command} {config : FlowConfig} {t : Str}

/-- Go on with a program, if the one before it has ended well. -/
def runThen (pattern : Command → Outcome) (k : α → Prog β) :
    Except RedisError α × State × Bool → Except RedisError β × State × Bool
  | (.ok a, s, b) => runAlone pattern s (k a) b
  | (.error e, s, b) => (.error e, s, b)

theorem runAlone_bind (p : Prog α) (k : α → Prog β) (s : State) (b : Bool) :
    runAlone pattern s (p >>= k) b = runThen pattern k (runAlone pattern s p b) := by
  induction p generalizing s b with
  | ret a | fail e => rfl
  | call c f ih => exact ih _ _ _

theorem runAlone_perform (c : Command) : runAlone pattern s (perform c) b =
      ((s.exec c (pattern c)).1, (s.exec c (pattern c)).2, b && !s.fails pattern c) := by
  rw [fails, perform, runAlone]
  cases (s.exec c (pattern c)).1 <;> rfl

theorem runAlone_attempt (p : Prog α) (s : State) (b : Bool) : runAlone pattern s p.attempt b =
      (.ok (runAlone pattern s p b).1, (runAlone pattern s p b).2) := by
  induction p generalizing s b with
  | ret a | fail e => rfl
  | call c f ih => exact ih _ _ _

/-- A command whose failure the program goes on after. -/
theorem runAlone_await_bind (c : Command) (k : Except RedisError (Reply c) → Prog β) :
    runAlone pattern s (attempt (perform c) >>= k) b =
      runAlone pattern (s.exec c (pattern c)).2 (k (s.exec c (pattern c)).1)
        (b && !s.fails pattern c) := by
  rw [runAlone_bind, runAlone_attempt, runAlone_perform]
  rfl

theorem exec_reads (hc : c.reads) (o : Outcome) : (s.exec c o).2 = s ∧
      ((s.exec c o).1.isOk = true → (s.exec c o).1 = (s.answer c).1) := by
  have hst : (s.answer c).2 = s := by cases c <;> first | rfl | cases hc
  unfold exec
  split
  · cases o with
    | done => exact ⟨hst, fun _ => rfl⟩
    | failed => exact ⟨rfl, nofun⟩
    | lost => exact ⟨hst, nofun⟩
  · exact ⟨hst, fun _ => rfl⟩

/-- A reading with a default, `a true`. -/
theorem runAlone_read_bind {f : Except RedisError (Reply c) → Prog α} {a : Bool → α} {r : Reply c}
    (hc : c.reads) (hr : (s.answer c).1 = .ok r) (herr : ∀ e, f (.error e) = pure (a true))
    (hok : f (.ok r) = pure (a false)) (k : α → Prog β) :
    runAlone pattern s ((attempt (perform c) >>= f) >>= k) b =
      runAlone pattern s (k (a (s.fails pattern c))) (b && !s.fails pattern c) := by
  obtain ⟨hs, hans⟩ := exec_reads hc (pattern c)
  have hf : f (s.exec c (pattern c)).1 = pure (a (s.fails pattern c)) := by
    rw [fails]
    cases hrep : (s.exec c (pattern c)).1 with
    | error e => exact herr e
    | ok r' =>
      rw [hrep, hr] at hans
      obtain rfl := ok.inj (hans rfl)
      exact hok
  rw [runAlone_bind, runAlone_await_bind, hf, hs]
  rfl

theorem runAlone_readCounter (bits : Nat) (f : Counter) (k : Nat → Prog β) :
    runAlone pattern s (readCounter bits f >>= k) b = runAlone pattern s
        (k (asRead bits (if s.fails pattern (.hgetCounter f) then none else s.hash.counter f)))
        (b && !s.fails pattern (.hgetCounter f)) := by
  exact runAlone_read_bind (c := .hgetCounter f)
    (a := fun b => asRead bits (if b then none else s.hash.counter f)) trivial rfl (fun _ => rfl)
    rfl k

theorem runAlone_readChain (k : Str → Prog β) : runAlone pattern s (readChain >>= k) b =
      runAlone pattern s
        (k ((if s.fails pattern .hgetChain then none else s.hash.callChain).getD []))
        (b && !s.fails pattern .hgetChain) := by
  exact runAlone_read_bind (c := .hgetChain)
    (a := fun b => (if b then none else s.hash.callChain).getD []) trivial rfl (fun _ => rfl)
    (by cases s.hash.callChain <;> rfl) k

theorem runAlone_readStartedAt (k : Option Int → Prog β) :
    runAlone pattern s (readStartedAt >>= k) b =
      runAlone pattern s (k (if s.fails pattern .hgetStartedAt then none else s.hash.startedAt))
        (b && !s.fails pattern .hgetStartedAt) := by
  exact runAlone_read_bind (c := .hgetStartedAt)
    (a := fun b => if b then none else s.hash.startedAt) trivial rfl (fun _ => rfl) rfl k

theorem runAlone_withConnection (unavailable : α) (p : Prog α) :
    runAlone pattern s (withConnection unavailable p) b =
      if s.fails pattern .connect then (.ok unavailable, s, false)
      else runAlone pattern s p b := by
  obtain ⟨hs, -⟩ := exec_reads (c := .connect) trivial (pattern .connect)
  rw [withConnection, runAlone_await_bind, hs, fails]
  cases (s.exec .connect (pattern .connect)).1 with
  | error e | ok u =>
    cases b <;> rfl

/-! ## Checking -/

theorem runAlone_checkTimeout (config : FlowConfig) (started : Int) :
    runAlone pattern s (checkTimeout config (some started)) b =
      (if elapsedSecs s.utc started > config.flowTimeoutSecs then
        (.ok (.error (.flowTimeout (elapsedSecs s.utc started) config.flowTimeoutSecs)), s, b)
      else (.ok (.ok ()), s, b)) := by
  have hclo : runAlone pattern s (checkTimeout config (some started)) b =
      runAlone pattern s (if elapsedSecs s.utc started > config.flowTimeoutSecs then
        pure (.error (.flowTimeout (elapsedSecs s.utc started) config.flowTimeoutSecs))
        else pure (.ok ())) (b && true) := rfl
  rw [hclo, Bool.and_true]
  split <;> rfl

/-- What the check answers depends on nothing that Redis could still refuse to tell. -/
theorem runAlone_verdict {chain : Str} {depth invocations tokens : Nat} {startedAt : Option Int} :
    ((runAlone pattern s (verdict config t depth chain invocations tokens startedAt) b).1 =
        .ok (.ok ()) ↔
      depth < config.maxDepth ∧ t ∉ frames chain ∧ invocations < config.maxFanOut ∧
        tokens < config.maxFlowTokens ∧
        ∀ started, startedAt = some started → elapsedSecs s.utc started ≤ config.flowTimeoutSecs) ∧
      (runAlone pattern s (verdict config t depth chain invocations tokens startedAt) b).2.2 =
        b := by
  rcases verdict_cases config t depth chain invocations tokens startedAt with
    ⟨e, hv, href⟩ | ⟨hv, hlim⟩
  all_goals rw [hv]
  · refine ⟨⟨nofun, fun ⟨hdep, hcyc, hfan, htokens, _⟩ => ?_⟩, rfl⟩
    rcases href with h | ⟨h, -⟩ | ⟨-, h | h⟩
    · omega
    · exact absurd h hcyc
    all_goals omega
  cases startedAt with
  | none =>
    exact ⟨⟨fun _ => ⟨hlim.1, hlim.2.1, hlim.2.2.1, hlim.2.2.2, nofun⟩, fun _ => rfl⟩, rfl⟩
  | some started =>
    rw [runAlone_checkTimeout]
    split
    · rename_i hlate
      exact ⟨⟨nofun, fun h => absurd (h.2.2.2.2 started rfl) (Nat.not_le.2 hlate)⟩, rfl⟩
    · rename_i hlate
      refine ⟨⟨fun _ => ⟨hlim.1, hlim.2.1, hlim.2.2.1, hlim.2.2.2, ?_⟩, fun _ => rfl⟩, rfl⟩
      rintro _ ⟨⟩
      exact Nat.not_lt.1 hlate

/-- What `check` answers, and whether all of its readings were answered. -/
theorem runAlone_check (hcon : s.fails pattern .connect = false) :
    ((runAlone pattern s (check config t) true).1 = .ok (.ok ()) ↔
      Admits config t (s.hash.readable (s.fails pattern)) s.utc) ∧
      ((runAlone pattern s (check config t) true).2.2 = true ↔
        ∀ c ∈ checkReadings, s.fails pattern c = false) := by
  rw [check, runAlone_withConnection, hcon, if_neg Bool.false_ne_true, runAlone_readCounter,
    runAlone_readChain, runAlone_readCounter, runAlone_readCounter, runAlone_readStartedAt]
  rw [runAlone_verdict.1, runAlone_verdict.2]
  refine ⟨⟨fun h => ⟨h.1, h.2.1, h.2.2.1, h.2.2.2.1, h.2.2.2.2⟩,
    fun h => ⟨h.depth, h.cycle, h.fanOut, h.tokens, h.timeout⟩⟩, ?_⟩
  simp [checkReadings, and_assoc]

/-! ## Recording an invocation -/

theorem exec_hincrby (f : Counter) (n : Int) (o : Outcome) : (s.exec (.hincrby f n) o).1 =
      if o = .done ∧ (isI64 n && isI64 (s.incr f n)) = true then .ok (s.incr f n)
      else .error .error := by
  cases o with
  | failed | lost => rfl
  | done =>
    rw [State.exec_done, State.answer]
    by_cases hsm : (isI64 n && isI64 (s.incr f n)) = true
    · rw [if_pos hsm, if_pos ⟨rfl, hsm⟩]
    · rw [if_neg hsm, if_neg fun h => hsm h.2]

theorem runAlone_increment (f : Counter) (k : Nat → Prog β) :
    runAlone pattern s (increment 32 f 1 1 >>= k) b =
      runAlone pattern (s.exec (.hincrby f 1) (pattern (.hincrby f 1))).2
        (k (s.counted (s.fails pattern) f)) (b && !s.fails pattern (.hincrby f 1)) := by
  rw [increment, runAlone_bind, runAlone_await_bind, counted, fails, exec_hincrby]
  by_cases hdone : pattern (.hincrby f 1) = .done ∧ (isI64 1 && isI64 (s.incr f 1)) = true
  · simp only [if_pos hdone]
    rfl
  · simp only [if_neg hdone]
    rfl

theorem runAlone_ignore (c : Command) (k : Unit → Prog β) :
    runAlone pattern s (ignore (perform c) >>= k) b =
      runAlone pattern (s.exec c (pattern c)).2 (k ()) (b && !s.fails pattern c) := by
  rw [ignore, runAlone_bind, runAlone_await_bind]
  rfl

theorem fails_congr {s' : State} (hans : (s'.answer c).1.isOk = (s.answer c).1.isOk) :
    s'.fails pattern c = s.fails pattern c := by
  unfold fails exec
  split
  · cases pattern c with
    | done => exact congrArg not hans
    | failed | lost => rfl
  · exact congrArg not hans

/-- The states agree on what `record_invocation` still reads. -/
structure Agree (s' s : State) : Prop where
  chain : s'.hash.callChain = s.hash.callChain
  now : s'.redisNow = s.redisNow

theorem agree_hincrby {f : Counter} {n : Int} {o : Outcome} : Agree (s.exec (.hincrby f n) o).2 s ∧
      ∀ f', f' ≠ f → (s.exec (.hincrby f n) o).2.hash.counter f' = s.hash.counter f' := by
  have hans : Agree (s.answer (.hincrby f n)).2 s ∧
      ∀ f', f' ≠ f → (s.answer (.hincrby f n)).2.hash.counter f' = s.hash.counter f' := by
    rw [State.answer]
    split
    · refine ⟨by cases f <;> exact ⟨rfl, rfl⟩, fun f' hf => ?_⟩
      cases f <;> cases f' <;> first | rfl | exact absurd rfl hf
    · exact ⟨⟨rfl, rfl⟩, fun _ _ => rfl⟩
  cases o with
  | done => exact hans
  | failed => exact ⟨⟨rfl, rfl⟩, fun _ _ => rfl⟩
  | lost => exact hans

/-- What `record_invocation` answers, and whether all of its commands were answered. -/
theorem runAlone_recordInvocation (hcon : s.fails pattern .connect = false)
    (hfan : s.counted (s.fails pattern) .totalInvocations ≤ config.maxFanOut) :
    ((runAlone pattern s (recordInvocation config t) true).1 = .ok (.ok ()) ↔
      s.counted (s.fails pattern) .depth ≤ config.maxDepth) ∧
      ((runAlone pattern s (recordInvocation config t) true).2.2 = true ↔
        ∀ c ∈ recordCommands config t s, s.fails pattern c = false) := by
  rw [recordInvocation, runAlone_withConnection, hcon, if_neg Bool.false_ne_true,
    runAlone_increment, if_neg (Nat.not_lt.2 hfan), pushFrame]
  obtain ⟨hagr₁, hdep⟩ := agree_hincrby
  generalize (s.exec (.hincrby .totalInvocations 1)
    (pattern (.hincrby .totalInvocations 1))).2 = s₁ at hagr₁ hdep ⊢
  have hincr : s₁.incr .depth 1 = s.incr .depth 1 := by
    rw [incr, incr, count, count, hdep .depth (by simp)]
  have hfls : s₁.fails pattern (.hincrby .depth 1) = s.fails pattern (.hincrby .depth 1) :=
    fails_congr (by simp [State.answer, hincr]; split <;> rfl)
  have hcou : s₁.counted (s₁.fails pattern) .depth = s.counted (s.fails pattern) .depth := by
    rw [counted, counted, hfls, hincr]
  rw [runAlone_increment, hcou, hfls]
  obtain ⟨hagr₂, -⟩ := agree_hincrby
  generalize (s₁.exec (.hincrby .depth 1) (pattern (.hincrby .depth 1))).2 = s₂ at hagr₂ ⊢
  have hch : s₂.hash.callChain = s.hash.callChain := hagr₂.chain.trans hagr₁.chain
  have hnow : s₂.redisNow = s.redisNow := hagr₂.now.trans hagr₁.now
  have hget : s₂.fails pattern .hgetChain = s.fails pattern .hgetChain := fails_congr rfl
  rw [runAlone_readChain, hch, hget, runAlone_ignore, runAlone_ignore]
  generalize hwr : extend ((if s.fails pattern .hgetChain = true then none
    else s.hash.callChain).getD []) t = chain
  have hset : s₂.fails pattern (.hsetChain chain) = s.fails pattern (.hsetChain chain) :=
    fails_congr rfl
  have hexp : ∀ s₃ : State, s₃.redisNow = s.redisNow →
      s₃.fails pattern (.expire (asI64 config.flowStateTtlSecs)) =
        s.fails pattern (.expire (asI64 config.flowStateTtlSecs)) := fun s₃ h =>
    fails_congr (by simp [State.answer, h]; split <;> rfl)
  have hnow₃ : (s₂.exec (.hsetChain chain) (pattern (.hsetChain chain))).2.redisNow =
      s.redisNow := by
    rw [← hnow]
    cases pattern (.hsetChain chain) <;> rfl
  rw [hset, hexp _ hnow₃]
  generalize (exec _ (.expire (asI64 config.flowStateTtlSecs)) _).2 = s₄
  constructor
  · split
    · rename_i hdeep
      exact ⟨fun h => (by cases h), fun h => absurd h (Nat.not_le.2 hdeep)⟩
    · rename_i hdeep
      exact ⟨fun _ => Nat.not_lt.1 hdeep, fun _ => rfl⟩
  · have hflag : ∀ b, (runAlone pattern s₄
        (if s.counted (s.fails pattern) .depth > config.maxDepth then
          pure (error (FlowRejection.maxDepthExceeded (s.counted (s.fails pattern) .depth)
            config.maxDepth))
        else pure (.ok ())) b).2.2 = b := by
      intro b
      split <;> rfl
    rw [hflag]
    cases hfai : s.fails pattern .hgetChain with
    | true => simp [recordCommands, hfai]
    | false =>
      rw [hfai, if_neg Bool.false_ne_true] at hwr
      simp [recordCommands, hfai, hwr, and_assoc]

theorem runAlone_recordInvocation_refused (hcon : s.fails pattern .connect = false)
    (hfan : config.maxFanOut < s.counted (s.fails pattern) .totalInvocations) :
    (runAlone pattern s (recordInvocation config t) true).1 ≠ .ok (.ok ()) := by
  rw [recordInvocation, runAlone_withConnection, hcon, runAlone_increment, if_pos hfan]
  nofun

end

/-- **The guard is fail-closed exactly as far as a limit is reached without the failed
readings.** -/
theorem failsClosed_iff (config : FlowConfig) (t : Str) (s : State) (pattern : Command → Outcome) :
    (FailsClosed pattern s (check config t) ↔
      s.fails pattern .connect = true ∨ (∀ c ∈ checkReadings, s.fails pattern c = false) ∨
        ¬ Admits config t (s.hash.readable (s.fails pattern)) s.utc) ∧
    (FailsClosed pattern s (recordInvocation config t) ↔ s.fails pattern .connect = true ∨
        (∀ c ∈ recordCommands config t s, s.fails pattern c = false) ∨
        config.maxFanOut < s.counted (s.fails pattern) .totalInvocations ∨
        config.maxDepth < s.counted (s.fails pattern) .depth) := by
  cases hcon : s.fails pattern .connect with
  | true =>
    have hchk : (runAlone pattern s (check config t) true).1 ≠ .ok (.ok ()) := by
      rw [check, runAlone_withConnection, if_pos hcon]
      nofun
    have hrec : (runAlone pattern s (recordInvocation config t) true).1 ≠ .ok (.ok ()) := by
      rw [recordInvocation, runAlone_withConnection, if_pos hcon]
      nofun
    exact ⟨⟨fun _ => .inl rfl, fun _ h => absurd h hchk⟩,
      ⟨fun _ => .inl rfl, fun _ h => absurd h hrec⟩⟩
  | false =>
    obtain ⟨hansw, hans⟩ := runAlone_check hcon
    refine ⟨by simp [Bool.false_eq_true]; tauto, ?_⟩
    rcases Nat.lt_or_ge config.maxFanOut (s.counted (s.fails pattern) .totalInvocations)
      with hfan | hfan
    · exact ⟨fun _ => .inr (.inr (.inl hfan)),
        fun _ h => absurd h (runAlone_recordInvocation_refused hcon hfan)⟩
    · obtain ⟨hansw, hans⟩ := runAlone_recordInvocation hcon hfan
      simp only [← Nat.not_le]
      tauto

/-- A flow at its limits. -/
def exhausted : State :=
  ⟨⟨some 5, some 20, some 0, some "orchestrator,mailer", some 0⟩, some 660000, 0, 0⟩

def onlyFails (c : Command) : Command → Outcome := fun c' => if c' = c then .failed else .done

/-- One reading that fails is enough: a flow that is as deep as it may be is taken for one of depth
0, and the calls that were made already for none. -/
theorem failed_reading_accepted : ¬ FailsClosed (onlyFails (.hgetCounter .depth))
        { exhausted with hash := { exhausted.hash with totalInvocations := some 3 } }
        (check .default "planner") ∧
      ¬ FailsClosed (onlyFails (.hincrby .totalInvocations 1))
        { exhausted with hash := { exhausted.hash with depth := some 2 } }
        (recordInvocation .default "planner") :=
  ⟨fun h => Bool.false_ne_true (h rfl), fun h => Bool.false_ne_true (h rfl)⟩

end Nasiko.Flow
