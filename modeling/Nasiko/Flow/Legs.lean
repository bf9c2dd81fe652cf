import Nasiko.Flow.FanOut

/-!
# The budgets of a whole flow

A flow may pause for a human, and is resumed under the same flow id. What it has used so far is in
its hash: the number of invocations and of tokens. The hash expires, and whoever starts the flow
sets both numbers to 0. The resume of a single agent does start it, although the flow goes on.

**Theorem (`budgets_kept`).** In every run, no step lowers one of the two numbers exactly if no step
starts the flow, or lets its hash go, when one of them is positive. In such a run, if the counters
are read and incremented without a failure, nothing is accepted any more once a budget is used up; a
resume is not either, which can then only be one whose start has failed.

The protocol `learning` keeps what a caller has read of the counters. That a caller was accepted
says something about what it has read, and this is at least what the counters were at the start of
the run.
-/

namespace Nasiko.Flow

open Concurrency Program Function Option List Bool State Command Action

variable (config : FlowConfig)

/-! ## The legs of a flow -/

/-- What may happen to a flow: it is started, an agent is called in it, a call ends, a human has
answered and it is resumed; and time passes. -/
inductive LegRequest where
  | start (rootAgent : Str)
  | check (target : Str)
  | recordInvocation (target : Str)
  | recordTokens (tokensUsed : Nat)
  | recordReturn
  | resume (agentName agentId : Str)
  | pass (millis : Nat) (utc : Int)
  deriving DecidableEq

/-- The flow of a resume is initialised, checked and counted. -/
def resumeFlow (agentName agentId : Str) : Prog (Except FlowRejection Unit) := do
  initFlow config agentName
  match ← check config agentId with
  | .error rejection => pure (.error rejection)
  | .ok () => recordInvocation config agentId

def handleLeg : LegRequest → Prog (Except FlowRejection Unit)
  | .start root => do
    initFlow config root
    pure (.ok ())
  | .check t => check config t
  | .recordInvocation t => recordInvocation config t
  | .recordTokens n => do
    let r ← recordTokens config n
    pure (r.map fun _ => ())
  | .recordReturn => do
    recordReturn
    pure (.ok ())
  | .resume name id => resumeFlow config name id
  | .pass millis utc => do
    perform (Command.pass millis utc)
    pure (.ok ())

abbrev legSystem := flowSystem (handleLeg config)

/-- The command takes away what was counted: it starts the flow, or the hash goes. -/
def State.forgets (s : State) : Command → Bool
  | hsetStart _ _ => true
  | Command.expire secs => isI64 (s.redisNow + secs * 1000) && secs ≤ 0
  | Command.pass millis _ => s.expiresAt.any fun t => t < s.redisNow + millis
  | _ => false

def Command.carriedOut (c : Command) (o : Outcome) : Bool := !(c.ofRedis && o == .failed)

/-- The step does not take away anything that was counted. -/
def Continues (st : Step (legSystem config)) : Prop :=
  ∀ p ∈ st.command, p.1.carriedOut p.2 = true → forgets st.before.state p.1 = true →
    count st.before.state .totalInvocations ≤ 0 ∧ count st.before.state .totalTokensUsed ≤ 0

instance (st : Step (legSystem config)) : Decidable (Continues config st) :=
  inferInstanceAs (Decidable (∀ p ∈ st.command, _))

/-- The command tells something about a counter. -/
def Command.tells : Command → Bool
  | hgetCounter _ | hincrby _ _ => true
  | _ => false

/-- The counters are read and incremented without a failure, and are small enough for the types they
are read as. -/
structure Answers (st : Step (legSystem config)) : Prop where
  done : ∀ p ∈ st.command, p.1.tells = true → p.2 = .done
  fewInvocations : count st.before.state .totalInvocations + 1 < 2 ^ 32
  fewTokens : count st.before.state .totalTokensUsed < 2 ^ 64

instance (st : Step (legSystem config)) : Decidable (Answers config st) :=
  decidable_of_iff ((∀ p ∈ st.command, p.1.tells = true → p.2 = .done) ∧
      count st.before.state .totalInvocations + 1 < 2 ^ 32 ∧
      count st.before.state .totalTokensUsed < 2 ^ 64)
    ⟨fun h => ⟨h.1, h.2.1, h.2.2⟩, fun h => ⟨h.done, h.fewInvocations, h.fewTokens⟩⟩

/-! ## What a caller learns of the counters -/

inductive Reading where
  | unread
  | value (n : Int)
  | number (n : Int)
  | failed
  | refused
  deriving DecidableEq

/-- The counters of the budgets are not lowered. -/
def Command.adds : Command → Prop
  | hincrby .totalInvocations n => n = 1
  | hincrby .totalTokensUsed n => 0 ≤ n
  | _ => True

def learning : Protocol Command Reply RedisError where
  Ctx := Counter → Reading
  allow _ c := c.adds
  after x c r :=
    match c, r with
    | .hgetCounter f, .ok n => Function.update x f (.value (n.getD 0))
    | .hgetCounter f, .error _ => Function.update x f .failed
    | .hincrby f _, .ok n => Function.update x f (.number n)
    | .hincrby f _, .error _ => Function.update x f .refused
    | _, _ => x

def unread : Counter → Reading := fun _ => .unread

/-- The commands that tell nothing about the counters. -/
def Command.silent (c : Command) : Prop := c.tells = false

section

variable {config} {α β : Type} {x : Counter → Reading}
  {Q : (Counter → Reading) → Except RedisError β → Prop} {p : Prog α} {bits : Nat} {f : Counter}

theorem follows_silent (hp : Calls silent p) : Follows learning x p fun y _ => y = x := by
  refine hp.follows (fun c hc y hy => ?_) rfl
  subst hy
  cases c with
  | hgetCounter f | hincrby f n => cases hc
  | _ => exact ⟨trivial, fun r => rfl⟩

/-- A program that is silent, and what comes after it. -/
theorem follows_silent_bind {k : α → Prog β} (hp : Calls silent p)
    (herr : ∀ e, Q x (.error e)) (hok : ∀ a, Follows learning x (k a) Q) :
    Follows learning x (p >>= k) Q := by
  refine follows_bind.2 ((follows_silent hp).mono fun y r hy => ?_)
  subst hy
  cases r with
  | error e => exact herr e
  | ok a => exact hok a

variable {k : Nat → Prog β} {config : FlowConfig} {t : Str} {p : Prog β}

def Below (bits limit : Nat) (r : Reading) : Prop :=
  r = .failed ∨ ∃ v, r = .value v ∧ asRead bits (some v) < limit

/-- The invocation got a number within the limit. -/
def Numbered (limit : Nat) (r : Reading) : Prop :=
  r = .refused ∨ ∃ v, r = .number v ∧ asUnsigned 32 v ≤ limit

/-- A counter is read; what is known of it then is below whatever the number is below. -/
theorem follows_readCounter (h : ∀ ρ n, (∀ limit, n < limit → Below bits limit ρ) →
      Follows learning (update x f ρ) (k n) Q) :
    Follows learning x (readCounter bits f >>= k) Q := by
  refine follows_bind.2 (follows_attempt_perform_bind.2 ⟨trivial, fun r => ?_⟩)
  rcases r with e | _ | v
  · exact h .failed 0 fun _ _ => .inl rfl
  · have hzero : asRead bits (some 0) = 0 := by simp [asRead]
    exact h (.value 0) 0 fun limit hlt => .inr ⟨0, rfl, hzero.symm ▸ hlt⟩
  · exact h (.value v) (asRead bits (some v)) fun limit hlt => .inr ⟨v, rfl, hlt⟩

theorem follows_increment {default : Nat} {n : Int} (had : (hincrby f n).adds)
    (h : ∀ ρ total, (∀ limit, total ≤ limit → Numbered limit ρ) →
      Follows learning (update x f ρ) (k total) Q) :
    Follows learning x (increment 32 f n default >>= k) Q := by
  refine follows_bind.2 (follows_attempt_perform_bind.2 ⟨had, fun r => ?_⟩)
  cases r with
  | error e => exact h .refused default fun _ _ => .inl rfl
  | ok v => exact h (.number v) (asUnsigned 32 v) fun limit hle => .inr ⟨v, rfl, hle⟩

theorem follows_learning_connection {unavailable : β} (hoff : Q x (.ok unavailable))
    (hp : Follows learning x p Q) : Follows learning x (withConnection unavailable p) Q := by
  refine follows_attempt_perform_bind.2 ⟨trivial, fun r => ?_⟩
  cases r with
  | error e => exact hoff
  | ok u => exact hp

theorem follows_verdict_learning {chain : Str} {depth invocations tokens : Nat}
    {startedAt : Option Int} :
    Follows learning x (verdict config t depth chain invocations tokens startedAt) fun y r =>
      y = x ∧ (r = .ok (.ok ()) →
        invocations < config.maxFanOut ∧ tokens < config.maxFlowTokens) := by
  rcases verdict_cases config t depth chain invocations tokens startedAt with
    ⟨e, hv, -⟩ | ⟨hv, -, -, hinv, htok⟩
  all_goals rw [hv]
  · exact ⟨rfl, nofun⟩
  cases startedAt with
  | none => exact ⟨rfl, fun _ => ⟨hinv, htok⟩⟩
  | some started =>
    refine follows_silent_bind (calls_perform rfl) (fun e => ⟨rfl, nofun⟩) fun now => ?_
    split
    · exact ⟨rfl, nofun⟩
    · exact ⟨rfl, fun _ => ⟨hinv, htok⟩⟩

theorem follows_check_learning : Follows learning x (check config t) fun y r => r = .ok (.ok ()) →
      Below 32 config.maxFanOut (y .totalInvocations) ∧
        Below 64 config.maxFlowTokens (y .totalTokensUsed) := by
  refine follows_learning_connection nofun ?_
  refine follows_readCounter fun _ depth _ => ?_
  refine follows_silent_bind (calls_readChain rfl) nofun fun chain => ?_
  refine follows_readCounter fun _ invocations hinv => ?_
  refine follows_readCounter fun _ tokens htok => ?_
  refine follows_silent_bind (calls_readStartedAt rfl) nofun fun startedAt => ?_
  refine follows_verdict_learning.mono fun y r hy hr => ?_
  obtain ⟨rfl, hlim⟩ := hy
  exact ⟨hinv _ (hlim hr).1, htok _ (hlim hr).2⟩

/-- The frame of a call is written without a look at the budgets. -/
theorem follows_pushFrame_learning :
    Follows learning x (pushFrame config t) fun y _ => ∀ f, f ≠ .depth → y f = x f := by
  refine follows_increment trivial fun _ depth _ => ?_
  refine (follows_silent ?_).mono fun y r hy f hf => hy ▸ update_of_ne hf ..
  refine calls_bind (calls_readChain rfl) fun chain => ?_
  refine calls_bind (calls_ignore rfl) fun _ => calls_bind (calls_ignore rfl) fun _ => ?_
  exact calls_ite calls_pure calls_pure

theorem follows_recordInvocation_learning :
    Follows learning x (recordInvocation config t) fun y r =>
      y .totalTokensUsed = x .totalTokensUsed ∧
        (r = .ok (.ok ()) → Numbered config.maxFanOut (y .totalInvocations)) := by
  refine follows_learning_connection ⟨rfl, nofun⟩ ?_
  refine follows_increment rfl fun ρ n hn => ?_
  split
  · exact ⟨rfl, nofun⟩
  · rename_i hle
    refine follows_pushFrame_learning.mono fun y r hy => ?_
    refine ⟨hy .totalTokensUsed nofun, fun _ => ?_⟩
    rw [hy .totalInvocations nofun]
    exact hn _ (Nat.not_lt.1 hle)

theorem calls_initFlow {root : Str} : Calls silent (initFlow config root) := by
  refine calls_withConnection rfl (calls_bind (calls_perform rfl) fun now => ?_)
  exact calls_bind (calls_ignore rfl) fun _ => calls_ignore rfl

/-- What a caller knows in the end. -/
def WithinBudgets (config : FlowConfig) (q : LegRequest) (x : Counter → Reading) : Prop :=
  match q with
  | .check _ => Below 32 config.maxFanOut (x .totalInvocations) ∧
      Below 64 config.maxFlowTokens (x .totalTokensUsed)
  | .recordInvocation _ => Numbered config.maxFanOut (x .totalInvocations)
  | .resume _ _ => Numbered config.maxFanOut (x .totalInvocations) ∧
      Below 64 config.maxFlowTokens (x .totalTokensUsed)
  | _ => True

theorem follows_adds (hp : Calls adds p) (hQ : ∀ y r, Q y r) : Follows learning x p Q := by
  have htrue : Follows learning x p fun _ _ => True :=
    hp.follows (fun c hc y _ => ⟨hc, fun _ => trivial⟩) trivial
  exact htrue.mono fun y r _ => hQ y r

theorem calls_recordTokens_adds {n : Nat} : Calls adds (recordTokens config n) := by
  refine calls_withConnection trivial (calls_bind (calls_increment ?_) fun total => ?_)
  · exact Int.natCast_nonneg n
  · exact calls_ite calls_pure calls_pure

theorem calls_recordReturn_adds : Calls adds recordReturn := by
  refine calls_withConnection trivial (calls_bind (calls_ignore trivial) fun _ => ?_)
  exact calls_bind (calls_readChain trivial) fun chain => calls_ignore trivial

theorem adds_of_silent (c : Command) (hc : c.silent) : c.adds := by
  cases c with
  | hincrby f n => cases hc
  | _ => trivial

theorem follows_handleLeg (config : FlowConfig) (q : LegRequest) :
    Follows learning unread (handleLeg config q) fun y r =>
      r = .ok (.ok ()) → WithinBudgets config q y := by
  cases q with
  | start root =>
    refine follows_adds ?_ fun _ _ _ => trivial
    exact calls_bind (calls_initFlow.mono adds_of_silent) fun _ => calls_pure
  | check t => exact follows_check_learning
  | recordInvocation t =>
    exact follows_recordInvocation_learning.mono fun y r hy => hy.2
  | recordTokens n =>
    refine follows_adds ?_ fun _ _ _ => trivial
    exact calls_bind calls_recordTokens_adds fun _ => calls_pure
  | recordReturn =>
    refine follows_adds ?_ fun _ _ _ => trivial
    exact calls_bind calls_recordReturn_adds fun _ => calls_pure
  | resume name id =>
    refine follows_silent_bind calls_initFlow nofun fun _ => ?_
    refine follows_bind.2 (follows_check_learning.mono fun y r hy => ?_)
    rcases r with e | rejection | ⟨⟩
    · exact nofun
    · exact nofun
    · refine follows_recordInvocation_learning.mono fun z r hz hr => ?_
      exact ⟨hz.2 hr, hz.1 ▸ (hy rfl).2⟩
  | pass millis utc =>
    refine follows_adds ?_ fun _ _ _ => trivial
    exact calls_bind (calls_perform trivial) fun _ => calls_pure

end

/-! ## The counters -/

variable {f : Counter} {s₀ s : State} {bits limit : Nat} {st : Step (legSystem config)}
  {c : Command} {o : Outcome}

theorem exec_state (s : State) (c : Command) (o : Outcome) :
    (s.exec c o).2 = if c.carriedOut o then (s.answer c).2 else s := by
  unfold exec carriedOut
  cases c.ofRedis with
  | false => rfl
  | true => cases o <;> rfl

/-- A command that does not take away what was counted does not lower a budget's counter. -/
theorem count_le_answer (had : c.adds) (hf : f ≠ .depth) (hkeeps : s.forgets c = false) :
    s.count f ≤ (s.answer c).2.count f := by
  cases c with
  | hincrby f' n =>
    rw [State.answer]
    split
    · by_cases hff : f' = f
      · subst hff
        have hn : 0 ≤ n := by
          cases f' with
          | depth => exact absurd rfl hf
          | totalInvocations => exact (show n = 1 from had) ▸ Int.one_nonneg
          | totalTokensUsed => exact had
        have hnew : count { s with hash := s.hash.setCounter (s.incr f' n) f' } f' =
            s.count f' + n := by
          cases f' <;> rfl
        rw [hnew]
        omega
      · have hold : count { s with hash := s.hash.setCounter (s.incr f' n) f' } f = s.count f := by
          cases f <;> cases f' <;> first | rfl | exact absurd rfl hff
        exact hold.ge
    · exact le_rfl
  | hsetStart root startedAt => cases hkeeps
  | hsetChain chain => cases f <;> exact le_rfl
  | expire secs =>
    rw [State.answer]
    split
    · rename_i hsm
      rw [forgets, hsm, Bool.true_and, decide_eq_false_iff_not] at hkeeps
      rw [State.expire, if_neg hkeeps]
      split <;> exact le_rfl
    · exact le_rfl
  | pass millis utc =>
    change s.count f ≤ (s.pass millis utc).count f
    rw [forgets] at hkeeps
    rw [State.pass, if_neg (ne_true_of_eq_false hkeeps)]
    exact le_rfl
  | _ => exact le_rfl

theorem count_answer_of_forgets (hfor : s.forgets c = true) : (s.answer c).2.count f = 0 := by
  have hgone : ∀ s : State, s.hash = .empty → s.count f = 0 := by
    intro s hs
    rw [State.count, hs]
    cases f <;> rfl
  cases c with
  | hsetStart root startedAt => cases f <;> rfl
  | expire secs =>
    obtain ⟨hsm, hsecs⟩ := and_eq_true_iff.1 hfor
    rw [State.answer, if_pos hsm, State.expire, if_pos (of_decide_eq_true hsecs)]
    split
    · exact hgone s ‹_›
    · exact hgone _ rfl
  | pass millis utc =>
    change (s.pass millis utc).count f = 0
    rw [forgets] at hfor
    rw [State.pass, if_pos hfor]
    exact hgone _ rfl
  | _ => cases hfor

/-- **What lowers a counter**: a command that takes away what was counted. -/
theorem count_le_exec_iff (had : c.adds) :
    (∀ f, f ≠ .depth → s.count f ≤ (s.exec c o).2.count f) ↔
      (c.carriedOut o = true → s.forgets c = true →
        s.count .totalInvocations ≤ 0 ∧ s.count .totalTokensUsed ≤ 0) := by
  rw [exec_state]
  cases c.carriedOut o with
  | false => exact ⟨nofun, fun _ _ _ => le_rfl⟩
  | true =>
    simp only [if_true, true_imp_iff]
    cases hfor : s.forgets c with
    | false => exact ⟨nofun, fun _ f hf => count_le_answer had hf hfor⟩
    | true =>
      simp only [count_answer_of_forgets hfor, true_imp_iff]
      constructor
      · intro hle
        exact ⟨hle _ nofun, hle _ nofun⟩
      · intro hle f hf
        cases f with
        | depth => exact absurd rfl hf
        | totalInvocations => exact hle.1
        | totalTokensUsed => exact hle.2

/-- What a caller has learned since the state `s₀`, if nothing failed. -/
structure Sound (s₀ : State) (x : Counter → Reading) : Prop where
  notFailed : ∀ f, x f ≠ .failed
  notRefused : 0 ≤ s₀.count .totalInvocations → x .totalInvocations ≠ .refused
  invocations : ∀ v, x .totalInvocations = .value v →
    s₀.count .totalInvocations ≤ v ∧ v < 2 ^ 32
  tokens : ∀ v, x .totalTokensUsed = .value v → s₀.count .totalTokensUsed ≤ v ∧ v < 2 ^ 64
  number : ∀ v, x .totalInvocations = .number v →
    s₀.count .totalInvocations < v ∧ v < 2 ^ 32

variable {x : Counter → Reading} {ρ : Reading}

theorem Sound.notFailed_update (hx : Sound s₀ x) (hρ : ρ ≠ .failed) (f f' : Counter) :
    Function.update x f ρ f' ≠ .failed := by
  by_cases hff : f' = f
  · rw [hff, update_self]
    exact hρ
  · rw [update_of_ne hff]
    exact hx.notFailed f'

theorem Sound.after {r : Except RedisError (Reply c)} (hx : Sound s₀ x) (had : c.adds)
    (hr : c.tells = true → r = (s.answer c).1)
    (hinv : s₀.count .totalInvocations ≤ s.count .totalInvocations)
    (htok : s₀.count .totalTokensUsed ≤ s.count .totalTokensUsed)
    (hfew : s.count .totalInvocations + 1 < 2 ^ 32) (hfew' : s.count .totalTokensUsed < 2 ^ 64) :
    Sound s₀ (learning.after x c r) := by
  cases c with
  | hgetCounter f =>
    rw [hr rfl]
    change Sound s₀ (update x f (.value (s.count f)))
    have hnot := hx.notFailed_update (ρ := .value (s.count f)) (fun h => by cases h) f
    cases f with
    | depth => exact { hx with notFailed := hnot }
    | totalInvocations =>
      refine ⟨hnot, (fun _ h => by cases h), ?_, hx.tokens, (fun _ h => by cases h)⟩
      rintro v ⟨⟩
      exact ⟨hinv, by omega⟩
    | totalTokensUsed =>
      refine { hx with notFailed := hnot, tokens := ?_ }
      rintro v ⟨⟩
      exact ⟨htok, hfew'⟩
  | hincrby f n =>
    rw [hr rfl]
    have hnot := hx.notFailed_update (ρ := .number (s.incr f n)) (fun h => by cases h) f
    have hnot' := hx.notFailed_update (ρ := .refused) (fun h => by cases h) f
    rw [State.answer]
    cases f with
    | depth =>
      split
      · exact { hx with notFailed := hnot }
      · exact { hx with notFailed := hnot' }
    | totalInvocations =>
      obtain rfl : n = 1 := had
      have hincr : s.incr .totalInvocations 1 = s.count .totalInvocations + 1 := rfl
      split
      · refine ⟨hnot, (fun _ h => by cases h), (fun _ h => by cases h), hx.tokens, ?_⟩
        rintro v ⟨⟩
        exact ⟨by omega, hfew⟩
      · rename_i hlar
        refine ⟨hnot', fun hs₀ => absurd ?_ hlar, (fun _ h => by cases h), hx.tokens,
          (fun _ h => by cases h)⟩
        simp only [isI64, and_eq_true, decide_eq_true_eq]
        omega
    | totalTokensUsed =>
      split
      · exact { hx with notFailed := hnot, tokens := fun _ h => by cases h }
      · exact { hx with notFailed := hnot', tokens := fun _ h => by cases h }
  | _ => exact hx

/-! ## Runs -/

variable {config} {s : State} {h : List (Step (legSystem config))} {c : Config (legSystem config)}

/-- The step does not lower a budget's counter. -/
def Grows (st : Step (legSystem config)) : Prop :=
  ∀ f, f ≠ .depth → count st.before.state f ≤ count st.after.state f

theorem grows_iff_of_idle {st : Step (legSystem config)} (hcmd : st.command = none)
    (hst : st.after.state = st.before.state) : Grows st ↔ Continues config st := by
  rw [Grows, Continues, hcmd, hst]
  exact ⟨fun _ => nofun, fun _ f _ => le_rfl⟩

theorem inductive_grows {config : FlowConfig} :
    Inductive (legSystem config) learning ⟨s, []⟩ (fun _ => unread)
      (fun q y r => r = .ok (.ok ()) → WithinBudgets config q y) (fun _ => True)
      fun h _ _ => ∀ st ∈ h, (Grows st ↔ Continues config st) where
  spawn h c g q c' hru hc' hmt hkn hg :=
    forall_mem_append.2 ⟨hg, forall_mem_singleton.2 (grows_iff_of_idle rfl (by rw [hc']))⟩
  run h c g i o q cmd k x r s' c' hru htask hexec hc' hx hal hmt hkn hg := by
    subst hc'
    refine forall_mem_append.2 ⟨hg, forall_mem_singleton.2 ?_⟩
    have hst : s' = (exec c.state cmd o).2 := congrArg Prod.snd (some.inj hexec).symm
    subst hst
    refine (count_le_exec_iff hal).trans ?_
    rw [Continues, Step.command_run htask]
    exact ⟨fun h p hp => by cases hp; exact h, fun h => h _ rfl⟩
  drop h c g i q cmd k c' hru htask hc' hmt hkn hg :=
    forall_mem_append.2 ⟨hg, forall_mem_singleton.2 (grows_iff_of_idle rfl (by rw [hc']; rfl))⟩
  crash h c g c' hru hc' hmt hkn hg :=
    forall_mem_append.2 ⟨hg, forall_mem_singleton.2 (grows_iff_of_idle rfl (by rw [hc']; rfl))⟩

/-- The counters have not been lowered since the state `s`. -/
theorem inductive_sound {config : FlowConfig} :
    Inductive (legSystem config) learning ⟨s, []⟩ (fun _ => unread)
      (fun q y r => r = .ok (.ok ()) → WithinBudgets config q y)
      (fun st => Grows st ∧ Answers config st)
      fun _ c g => (∀ f, f ≠ .depth → s.count f ≤ count c.state f) ∧
        ∀ i x, g i = some x → Sound s x where
  spawn h c g q c' hru hc' hmt hkn hg := by
    refine ⟨fun f hf => (hg.1 f hf).trans (hmt.1 f hf), fun j y hy => ?_⟩
    rcases update_some hy with ⟨-, rfl⟩ | ⟨-, hy⟩
    · exact ⟨nofun, nofun, nofun, nofun, nofun⟩
    · exact hg.2 j y hy
  run h c g i o q cmd k x r s' c' hru htask hexec hc' hx hal hmt hkn hg := by
    refine ⟨fun f hf => (hg.1 f hf).trans (hmt.1 f hf), fun j y hy => ?_⟩
    rcases update_some hy with ⟨-, rfl⟩ | ⟨-, hy⟩
    · refine (hg.2 i x hx).after hal (fun htell => ?_) (hg.1 _ nofun) (hg.1 _ nofun)
        hmt.2.fewInvocations hmt.2.fewTokens
      obtain rfl : o = .done := hmt.2.done _ (Step.command_run htask) htell
      exact (congrArg Prod.fst (answer_of_exec hexec)).symm
    · exact hg.2 j y hy
  drop h c g i q cmd k c' hru htask hc' hmt hkn hg :=
    ⟨fun f hf => (hg.1 f hf).trans (hmt.1 f hf), fun j y hy => hg.2 j y (update_none hy).2⟩
  crash h c g c' hru hc' hmt hkn hg :=
    ⟨fun f hf => (hg.1 f hf).trans (hmt.1 f hf), fun j y hy => hg.2 j y (of_crash hy).2⟩

theorem not_below {n : Int} (hfai : ρ ≠ .failed)
    (hval : ∀ v, ρ = .value v → n ≤ v ∧ v < 2 ^ bits) (hlim : limit ≤ n) :
    ¬ Below bits limit ρ := by
  rintro (h | ⟨v, hv, hlt⟩)
  · exact hfai h
  · obtain ⟨hlow, hhigh⟩ := hval v hv
    have hread : asRead bits (some v) = v.toNat := if_pos ⟨by omega, hhigh⟩
    omega

theorem Sound.not_numbered (hx : Sound s x) (hlim : limit ≤ s.count .totalInvocations) :
    ¬ Numbered limit (x .totalInvocations) := by
  rintro (href | ⟨v, hv, hle⟩)
  · exact hx.notRefused (by omega) href
  · obtain ⟨hlow, hhigh⟩ := hx.number v hv
    have huns : asUnsigned 32 v = v.toNat := by
      rw [asUnsigned, Int.emod_eq_of_lt (by omega) hhigh]
    omega

def LegRequest.calls : LegRequest → Bool
  | check _ | recordInvocation _ | resume _ _ => true
  | _ => false

/-- The request looks at the tokens. -/
def LegRequest.checks : LegRequest → Bool
  | check _ | resume _ _ => true
  | _ => false

/-- **The budgets bound the whole flow**, exactly as long as nothing that was counted is taken
away. -/
theorem budgets_kept (config : FlowConfig) (s : State) (h : List (Step (legSystem config)))
    (c : Config (legSystem config)) (hruns : Runs ⟨s, []⟩ h c) :
    ((∀ st ∈ h, ∀ f, f ≠ .depth → count st.before.state f ≤ count st.after.state f) ↔
      ∀ st ∈ h, Continues config st) ∧
    ((∀ st ∈ h, Continues config st ∧ Answers config st) →
      (config.maxFanOut ≤ s.count .totalInvocations → ∀ i q, c.request i = some q →
        q.calls = true → c.answer i ≠ some (.ok (.ok ()))) ∧
      (config.maxFlowTokens ≤ s.count .totalTokensUsed → ∀ i q, c.request i = some q →
        q.checks = true → c.answer i ≠ some (.ok (.ok ())))) := by
  obtain ⟨-, -, hgrows⟩ := inductive_grows.holds (follows_handleLeg config) rfl
    (fun _ hst => absurd hst not_mem_nil) hruns fun _ _ => trivial
  refine ⟨forall₂_congr hgrows, fun hansw => ?_⟩
  obtain ⟨g, hkn, -, hsou⟩ := inductive_sound.holds (follows_handleLeg config) rfl
    ⟨fun _ _ => le_rfl, nofun⟩ hruns
    fun st hst => ⟨(hgrows st hst).2 (hansw st hst).1, (hansw st hst).2⟩
  have hacc : ∀ i q, c.request i = some q → c.answer i = some (.ok (.ok ())) →
      ∃ x, Sound s x ∧ WithinBudgets config q x := by
    intro i q hreq hans
    obtain ⟨x, hx, hpost⟩ := hkn.exists_of_answer hreq hans
    exact ⟨x, hsou i x hx, hpost rfl⟩
  refine ⟨fun hlim i q hreq hcs hans => ?_, fun hlim i q hreq hche hans => ?_⟩
  · obtain ⟨x, hx, hwit⟩ := hacc i q hreq hans
    cases q with
    | check t => exact not_below (hx.notFailed _) hx.invocations hlim hwit.1
    | recordInvocation t => exact hx.not_numbered hlim hwit
    | resume name id => exact hx.not_numbered hlim hwit.1
    | _ => cases hcs
  · obtain ⟨x, hx, hwit⟩ := hacc i q hreq hans
    cases q with
    | check t | resume name id => exact not_below (hx.notFailed _) hx.tokens hlim hwit.2
    | _ => cases hche

/-! ## Three runs -/

/-- The one call of a flow has been made. -/
def usedUp : State :=
  ⟨⟨some 1, some 1, some 7, some "orchestrator,mailer", some 0⟩, some 660000, 0, 0⟩

/-- The call ends, and a minute later the agent is resumed; Redis fails to start the flow. -/
def failedStart : List (Action LegRequest) :=
  List.flatten [[.spawn .recordReturn], turns 0 4,
    [.spawn (.pass 60000 60000000000), .run 1 .done], [.spawn (.resume "mailer" "agent-7")],
    turns 2 2, [.run 2 .failed], turns 2 7]

/-- The answer of the human comes too late for the hash. -/
def longPause : List (Action LegRequest) := [.spawn (.pass 661000 661000000000), .run 0 .done]

/-- The human answers in time. -/
def resumed : List (Action LegRequest) :=
  .spawn (.resume "mailer" "agent-7") :: turns 0 17

theorem resume_refused :
    ∃ (h : List (Step (legSystem oneCall))) (c : _), Runs ⟨usedUp, []⟩ h c ∧
      (∀ st ∈ h, Continues oneCall st ∧ Answers oneCall st) ∧
      c.request 2 = some (.resume "mailer" "agent-7") ∧ (c.answer 2).isSome = true ∧
      c.answer 2 ≠ some (.ok (.ok ())) := by
  obtain ⟨h, c, hru, hmeets, hreq, hsome⟩ := exists_runs
    (⟨usedUp, []⟩ : Config (legSystem oneCall)) failedStart
    (fun h c => (∀ st ∈ h, Continues oneCall st ∧ Answers oneCall st) ∧
      c.request 2 = some (.resume "mailer" "agent-7") ∧ (c.answer 2).isSome = true)
    (by decide +kernel)
  have hused : (oneCall.maxFanOut : Int) ≤ usedUp.count .totalInvocations := by decide
  refine ⟨h, c, hru, hmeets, hreq, hsome, ?_⟩
  exact ((budgets_kept oneCall usedUp h c hru).2 hmeets).1 hused 2 _ hreq rfl

/-- **A pause and a resume each give a flow back what it has used.** The one call has been made;
when the pause outlasts the hash, and also when the flow is resumed in time, the invocations are
counted from 0, and the resumed flow is accepted. -/
theorem budget_given_back :
    (∃ (h : List (Step (legSystem oneCall))) (c : _), Runs ⟨usedUp, []⟩ h c ∧
      (∀ st ∈ h, Answers oneCall st) ∧
      c.state.count .totalInvocations < usedUp.count .totalInvocations) ∧
    ∃ (h : List (Step (legSystem oneCall))) (c : _), Runs ⟨usedUp, []⟩ h c ∧
      (∀ st ∈ h, Answers oneCall st) ∧
      (∃ st ∈ h, count st.after.state .totalTokensUsed < usedUp.count .totalTokensUsed) ∧
      c.answer 0 = some (.ok (.ok ())) :=
  ⟨exists_runs _ longPause _ (by decide +kernel), exists_runs _ resumed _ (by decide +kernel)⟩

end Nasiko.Flow
