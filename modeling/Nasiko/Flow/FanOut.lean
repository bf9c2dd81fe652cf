import Nasiko.Concurrency.History
import Nasiko.Concurrency.Inductive
import Nasiko.Flow.Guard
import Mathlib.Data.Finset.Prod
import Mathlib.Order.Interval.Finset.Nat

/-!
# The number of calls in a flow

Any number of callers share the guard of a flow, and their commands come in any order. A check
reserves nothing; what bounds the number of calls is that `HINCRBY` answers each call with another
number, as long as the hash lives. So the calls that `record_invocation` has accepted in the life of
a hash have different numbers between 1 and `max_fan_out`.

Main result: `accepted_le`, for runs in which the counter stays below `2 ^ 32`, where the guard
reads it as a number of 32 bits. A hash that has expired starts to count anew: `counted_anew`.
-/

namespace Nasiko.Flow

open Concurrency Program Option Bool State Finset Command Config Action

/-! ## Callers of the guard -/

/-- What a caller asks the guard for; time passes as well. -/
inductive GuardRequest where
  | check (target : Str)
  | recordInvocation (target : Str)
  | recordTokens (tokensUsed : Nat)
  | recordReturn
  | pass (millis : Nat) (utc : Int)
  deriving DecidableEq

variable (config : FlowConfig) {x : Ticket} {α : Type}

def handleGuard : GuardRequest → Prog (Except FlowRejection Unit)
  | .check t => check config t
  | .recordInvocation t => recordInvocation config t
  | .recordTokens n => do
    let r ← recordTokens config n
    pure (r.map fun _ => ())
  | .recordReturn => do
    recordReturn
    pure (.ok ())
  | .pass millis utc => do
    perform (pass millis utc)
    pure (.ok ())

abbrev guardSystem := flowSystem (handleGuard config)

def GuardRequest.records : GuardRequest → Bool
  | recordInvocation _ => true
  | _ => false

/-- The calls that `record_invocation` has accepted. -/
def accepted (c : Config (guardSystem config)) : Finset Nat :=
  (Finset.range c.tasks.length).filter fun i =>
    (c.request i).any GuardRequest.records ∧ c.answer i = some (.ok (.ok ()))

def removes (st : Step (guardSystem config)) : Bool :=
  (State.hash st.before.state).totalInvocations.isSome &&
    (State.hash st.after.state).totalInvocations.isNone

/-- No command of Redis fails, and the counter stays below `2 ^ 32`. -/
structure Counts (st : Step (guardSystem config)) : Prop where
  done : ∀ i o, st.action = .run i o → o = .done
  small : ∀ i, st.before.next i = some (.hincrby .totalInvocations 1) →
    (State.hash st.before.state).totalInvocations.getD 0 + 1 < 2 ^ 32

/-! ## Tickets -/

/-- The number that a caller has got from the counter. -/
inductive Ticket where
  | none
  | number (n : Int)
  | failed

/-- Nobody starts the flow again, and each call is counted with 1. -/
def counting : Protocol Command Reply RedisError where
  Ctx := Ticket
  allow _ c :=
    match c with
    | .hincrby .totalInvocations n => n = 1
    | .hsetStart _ _ => False
    | _ => True
  after x c r :=
    match c, r with
    | .hincrby .totalInvocations _, .ok n => .number n
    | .hincrby .totalInvocations _, .error _ => .failed
    | _, _ => x

/-- The commands that leave the counter alone. -/
def Command.quiet : Command → Prop
  | hincrby .totalInvocations _ => False
  | hsetStart _ _ => False
  | _ => True

theorem follows_quiet {p : Prog α} (hp : Calls quiet p) (x : Ticket) :
    Follows counting x p fun y _ => y = x := by
  refine hp.follows (fun c hc y hy => ?_) rfl
  subst hy
  cases c with
  | hincrby f n =>
    cases f with
    | totalInvocations => cases hc
    | _ => exact ⟨trivial, fun r => rfl⟩
  | hsetStart root startedAt => cases hc
  | _ => exact ⟨trivial, fun r => rfl⟩

theorem quiet_of_reads (c : Command) (hc : c.reads) : c.quiet := by
  cases c with
  | hincrby f n | hsetStart root startedAt => cases hc
  | _ => trivial

/-- What a caller knows whose call was accepted. -/
def Accepted (config : FlowConfig) (x : Ticket) : Prop :=
  x = .failed ∨ ∃ n, x = .number n ∧ asUnsigned 32 n ≤ config.maxFanOut

/-- What a caller knows in the end. -/
def Counted (config : FlowConfig) (q : GuardRequest) (x : Ticket)
    (r : Except RedisError (Except FlowRejection Unit)) : Prop :=
  q.records = true → r = .ok (.ok ()) → Accepted config x

theorem calls_pushFrame {config : FlowConfig} {t : Str} :
    Calls quiet (pushFrame config t) := by
  refine calls_bind (calls_increment trivial) fun depth => ?_
  refine calls_bind (calls_readChain trivial) fun chain => ?_
  refine calls_bind (calls_ignore trivial) fun _ => calls_bind (calls_ignore trivial) fun _ => ?_
  exact calls_ite calls_pure calls_pure

theorem follows_count {β : Type} {k : Nat → Prog β} {Q : Ticket → Except RedisError β → Prop}
    (h : ∀ y n, (n ≤ config.maxFanOut → Accepted config y) → Follows counting y (k n) Q) :
    Follows counting x (increment 32 .totalInvocations 1 1 >>= k) Q := by
  refine follows_bind.2 (follows_attempt_perform_bind.2 ⟨rfl, fun r => ?_⟩)
  cases r with
  | error e => exact h .failed 1 fun _ => .inl rfl
  | ok n => exact h (.number n) (asUnsigned 32 n) fun hle => .inr ⟨n, rfl, hle⟩

theorem follows_recordInvocation {config : FlowConfig} {t : Str} :
    Follows counting .none (recordInvocation config t)
      fun y r => r = .ok (.ok ()) → Accepted config y := by
  refine follows_attempt_perform_bind.2 ⟨trivial, fun r => ?_⟩
  cases r with
  | error e => rintro ⟨⟩
  | ok a =>
    refine follows_count config fun x invocations hx => ?_
    split
    · rintro ⟨⟩
    · rename_i hle
      exact (follows_quiet calls_pushFrame x).mono fun y r hy _ => hy ▸ hx (not_lt.1 hle)

theorem calls_recordReturn : Calls quiet recordReturn :=
  calls_withConnection trivial (calls_bind (calls_ignore trivial) fun _ =>
    calls_bind (calls_readChain trivial) fun _ => calls_ignore trivial)

theorem calls_recordTokens {config : FlowConfig} {n : Nat} :
    Calls quiet (recordTokens config n) :=
  calls_withConnection trivial (calls_bind (calls_increment trivial) fun _ =>
    calls_ite calls_pure calls_pure)

theorem follows_handleGuard (config : FlowConfig) (q : GuardRequest) :
    Follows counting .none (handleGuard config q) (Counted config q) := by
  cases q with
  | check t =>
    exact (follows_quiet ((calls_check config t).mono quiet_of_reads) .none).mono
      nofun
  | recordInvocation t => exact follows_recordInvocation.mono fun y r h _ => h
  | recordTokens n =>
    exact (follows_quiet (calls_bind calls_recordTokens fun _ => calls_pure) .none).mono
      nofun
  | recordReturn =>
    exact (follows_quiet (calls_bind calls_recordReturn fun _ => calls_pure) .none).mono
      nofun
  | pass millis utc =>
    have hpass : quiet (.pass millis utc) := trivial
    exact (follows_quiet (calls_bind (calls_perform hpass) fun _ => calls_pure) .none).mono
      nofun

/-! ## The counter -/

/-- The number of invocations. -/
abbrev State.total (s : State) : Int := s.count .totalInvocations

theorem State.total_eq {s : State} {n : Option Int} (h : s.hash.totalInvocations = n) :
    s.total = n.getD 0 :=
  congrArg (fun t => getD t 0) h

/-- What a command does to the counter, unless it starts the flow. -/
inductive CounterMove (c : Command) (s s' : State) : Prop where
  | same : s'.hash.totalInvocations = s.hash.totalInvocations → CounterMove c s s'
  | gone : s'.hash.totalInvocations = none → CounterMove c s s'
  | incremented : c = .hincrby .totalInvocations 1 → s'.hash.totalInvocations = some (s.total + 1) →
    CounterMove c s s'

theorem counterMove_answer {c : Command} (hal : counting.allow x c) (s : State) :
    CounterMove c s (s.answer c).2 := by
  have hhash := s.hash_answer (c := c)
  cases c with
  | hincrby f n =>
    rw [State.answer]
    split
    · cases f with
      | totalInvocations =>
        obtain rfl : n = 1 := hal
        exact .incremented rfl rfl
      | depth | totalTokensUsed => exact .same rfl
    · exact .same rfl
  | hsetStart root startedAt => cases hal
  | hsetChain chain => exact .same rfl
  | _ =>
    rcases hhash rfl with h | h
    · exact .same (by rw [h])
    · exact .gone (by rw [h]; rfl)

/-! ## Numbers -/

variable {config} {h : List (Step (guardSystem config))} {c : Config (guardSystem config)}
  {s : State} {st : Step (guardSystem config)} {i m n : Nat}
  {cmd : Command}

/-- In this step the task gets the number from the counter. -/
structure Takes (st : Step (guardSystem config)) (i : Nat) (k : Int) : Prop where
  action : st.action = .run i .done
  next : st.before.next i = some (.hincrby .totalInvocations 1)
  before : State.total st.before.state + 1 = k
  after : (State.hash st.after.state).totalInvocations = some k
  pos : 1 ≤ k
  small : k < 2 ^ 32

/-- The ticket of a task is the number that it has got. -/
def Ticketed (h : List (Step (guardSystem config))) (i : Nat) : Ticket → Prop
  | .none => True
  | .number k => ∃ (m : Nat) (st : Step (guardSystem config)), h[m]? = some st ∧ Takes st i k
  | .failed => False

theorem Ticketed.snoc (hx : Ticketed h i x) (st : Step (guardSystem config)) :
    Ticketed (h ++ [st]) i x := by
  cases x with
  | none => trivial
  | number k =>
    obtain ⟨m, u, hm, hu⟩ := hx
    exact ⟨m, u, getElem?_snoc hm st, hu⟩
  | failed => exact hx

theorem CounterMove.total_nonneg {s' : State} (hmo : CounterMove cmd s s') (hs : 0 ≤ s.total) :
    0 ≤ s'.total := by
  cases hmo with
  | same h => exact (total_eq h).symm ▸ hs
  | gone h => exact (total_eq h).ge
  | incremented _ h => exact (total_eq h).symm ▸ Int.add_nonneg hs (by decide)

theorem answer_hincrby (hs : 0 ≤ s.total) (hsm : s.total + 1 < 2 ^ 32) :
    s.answer (.hincrby .totalInvocations 1) = (.ok (s.total + 1),
      { s with hash := s.hash.setCounter (s.total + 1) .totalInvocations }) := by
  have hfits : (State.isI64 1 && State.isI64 (s.incr .totalInvocations 1)) = true := by
    change (State.isI64 1 && State.isI64 (s.total + 1)) = true
    simp only [State.isI64, and_eq_true, decide_eq_true_eq]
    omega
  rw [State.answer, if_pos hfits]
  rfl

theorem after_eq {r : Except RedisError (Reply cmd)}
    (hcmd : cmd ≠ .hincrby .totalInvocations 1) (hal : counting.allow x cmd) :
    counting.after x cmd r = x := by
  cases cmd with
  | hincrby f k =>
    cases f with
    | totalInvocations =>
      obtain rfl : k = 1 := hal
      exact absurd rfl hcmd
    | _ => rfl
  | _ => rfl

theorem inductive_tickets :
    Inductive (guardSystem config) counting ⟨s, []⟩ (fun _ => .none) (Counted config)
      (Counts config) fun h c g => 0 ≤ total c.state ∧ ∀ i x, g i = some x → Ticketed h i x where
  spawn h c g q c' hru hc' hmt hkn hg := by
    subst hc'
    refine ⟨hg.1, fun j y hy => ?_⟩
    rcases update_some hy with ⟨-, rfl⟩ | ⟨hj, hy⟩
    · trivial
    · exact (hg.2 j y hy).snoc _
  run h c g i o q cmd k x r s' c' hru htask hexec hc' hx hal hmt hkn hg := by
    obtain rfl : o = .done := hmt.done i o rfl
    have hans := answer_of_exec hexec
    have hmo : CounterMove cmd c.state s' := by
      have hmo := counterMove_answer hal c.state
      rwa [hans] at hmo
    subst hc'
    refine ⟨hmo.total_nonneg hg.1, fun j y hy => ?_⟩
    rcases update_some hy with ⟨hj, rfl⟩ | ⟨hj, hy⟩
    · rw [hj]
      by_cases hcmd : cmd = .hincrby .totalInvocations 1
      · subst hcmd
        have hnext := next_of_getElem? htask
        have hsm := hmt.small i hnext
        rw [answer_hincrby hg.1 hsm] at hans
        cases hans
        have hpos := hg.1
        exact ⟨h.length, _, List.getElem?_concat_length, rfl, hnext, rfl, rfl,
          Int.le_add_of_nonneg_left hpos, hsm⟩
      · rw [after_eq hcmd hal]
        exact (hg.2 i x hx).snoc _
    · exact (hg.2 j y hy).snoc _
  drop h c g i q cmd k c' hru htask hc' hmt hkn hg := by
    subst hc'
    exact ⟨hg.1, fun j y hy => (hg.2 j y (update_none hy).2).snoc _⟩
  crash h c g c' hru hc' hmt hkn hg := by
    subst hc'
    exact ⟨hg.1, fun j y hy => (hg.2 j y (of_crash hy).2).snoc _⟩

/-! ## The order of the numbers -/

variable {st' : Step (guardSystem config)}

theorem exists_tickets (hru : Runs ⟨s, []⟩ h c) (hs : 0 ≤ s.total)
    (hcnt : ∀ st ∈ h, Counts config st) :
    ∃ g, Knows (guardSystem config) counting (Counted config) g c ∧
      ∀ i x, g i = some x → Ticketed h i x := by
  obtain ⟨g, hkn, -, hg⟩ := inductive_tickets.holds (follows_handleGuard config) rfl
    ⟨hs, nofun⟩ hru hcnt
  exact ⟨g, hkn, hg⟩

theorem step_counter (hru : Runs ⟨s, []⟩ h c) (hs : 0 ≤ s.total)
    (hcnt : ∀ st ∈ h, Counts config st) (hst : h[m]? = some st) :
    ∃ cmd, CounterMove cmd st.before.state st.after.state := by
  obtain ⟨hbef, hsp⟩ := hru.take hst
  obtain ⟨g, hkn, -⟩ := exists_tickets hbef hs fun u hu => hcnt u (List.mem_of_mem_take hu)
  have hmt := hcnt st (List.mem_of_getElem? hst)
  cases hact : st.action with
  | spawn q =>
    rw [hact] at hsp
    rw [← some.inj hsp]
    exact ⟨.connect, .same rfl⟩
  | run i o =>
    rw [hact] at hsp
    obtain rfl : o = .done := hmt.done i o hact
    obtain ⟨q, cmd, k, reply, s', htask, hexec, haft⟩ := step_run hsp
    obtain ⟨x, -, hal⟩ := hkn.of_next (next_of_getElem? htask)
    have hans := answer_of_exec hexec
    have hmo := counterMove_answer hal st.before.state
    rw [hans] at hmo
    rw [haft]
    exact ⟨cmd, hmo⟩
  | drop i =>
    rw [hact] at hsp
    obtain ⟨q, cmd, k, htask, haft⟩ := step_drop hsp
    rw [haft]
    exact ⟨.connect, .same rfl⟩
  | crash =>
    rw [hact] at hsp
    rw [← some.inj hsp]
    exact ⟨.connect, .same rfl⟩

/-- While the hash lives, numbers grow. -/
theorem takes_lt {j : Nat} {k k' : Int} (hru : Runs ⟨s, []⟩ h c) (hs : 0 ≤ s.total)
    (hcnt : ∀ st ∈ h, Counts config st) (hm : h[m]? = some st) (hn : h[n]? = some st') (hlt : m < n)
    (htak : Takes st i k) (htak' : Takes st' j k')
    (hliv : ∀ (l : Nat) (u : Step (guardSystem config)), h[l]? = some u → m < l → l < n →
      removes config u = false) : k < k' := by
  have hrea : ∃ w, (hash st'.before.state).totalInvocations = some w ∧ k ≤ w := by
    refine hru.keeps (P := fun s => ∃ w, (hash s).totalInvocations = some w ∧ k ≤ w) hm
      ⟨k, htak.after, le_rfl⟩ hn hlt ?_
    rintro l u hl hml hln ⟨w, hw, hkw⟩
    obtain ⟨cmd, hmo⟩ := step_counter hru hs hcnt hl
    cases hmo with
    | same h => exact ⟨w, h.trans hw, hkw⟩
    | gone h =>
      have hrem := hliv l u hl hml hln
      rw [removes, hw, h] at hrem
      cases hrem
    | incremented _ h =>
      have htot : total u.before.state = w := total_eq hw
      rw [htot] at h
      exact ⟨w + 1, h, by omega⟩
  obtain ⟨w, hw, hkw⟩ := hrea
  have htot : total st'.before.state = w := total_eq hw
  have hbef := htak'.before
  omega

/-- A step that meets a condition counts from there on. -/
theorem countP_take_lt {l : List α} {p : α → Bool} {a : α} {k : Nat} (hk : l[k]? = some a)
    (hp : p a = true) (hmk : m ≤ k) (hkn : k < n) : (l.take m).countP p < (l.take n).countP p := by
  have hspl : l.take n = l.take m ++ (l.drop m).take (n - m) := by
    rw [← List.take_add, Nat.add_sub_cancel' (by omega)]
  have hmem : a ∈ (l.drop m).take (n - m) := by
    refine List.mem_of_getElem? (i := k - m) ?_
    rw [List.getElem?_take_of_lt (by omega), List.getElem?_drop, Nat.add_sub_cancel' hmk, hk]
  rw [hspl, List.countP_append]
  exact Nat.lt_add_of_pos_right (List.countP_pos_iff.2 ⟨a, hmem, hp⟩)

/-! ## The result -/

/-- **While its hash lives, a flow accepts at most `max_fan_out` calls.** In every run of callers of
a flow that was started and is not started again, in which Redis does not fail and the counter stays
below `2 ^ 32`, the number of calls of `record_invocation` that are accepted is at most
`max_fan_out` for each time that the hash has lived: as long as it has not expired, at most
`max_fan_out`. -/
theorem accepted_le (config : FlowConfig) (s : State) (hstart : s.hash.totalInvocations = some 0)
    (h : List (Step (guardSystem config))) (c : Config (guardSystem config))
    (hruns : Runs ⟨s, []⟩ h c) (hcounts : ∀ st ∈ h, Counts config st) :
    (accepted config c).card ≤ (h.countP (removes config) + 1) * config.maxFanOut := by
  have hs : 0 ≤ s.total := (total_eq hstart).ge
  obtain ⟨g, hkn, hg⟩ := exists_tickets hruns hs hcounts
  have hnum : ∀ i ∈ accepted config c, ∃ (m : Nat) (st : Step (guardSystem config)) (k : Nat),
      h[m]? = some st ∧ Takes st i k ∧ 1 ≤ k ∧ k ≤ config.maxFanOut := by
    intro i hi
    obtain ⟨-, hrec, hans⟩ := mem_filter.1 hi
    obtain ⟨q, hq, hrec⟩ := (any_eq_true _ _).1 hrec
    obtain ⟨x, hx, hcou⟩ := hkn.exists_of_answer hq hans
    have htic := hg i x hx
    rcases hcou hrec rfl with rfl | ⟨k, rfl, hle⟩
    · cases htic
    · obtain ⟨m, st, hm, htak⟩ := htic
      have hpos := htak.pos
      have hsmall := htak.small
      rw [asUnsigned, Int.emod_eq_of_lt (by omega) (by omega)] at hle
      exact ⟨m, st, k.toNat, hm, by rwa [Int.toNat_of_nonneg (by omega)], by omega, hle⟩
  choose! m st k hm htak hpos hle using hnum
  -- A call is told apart from the others by its number and by how often the hash had expired.
  have hord : ∀ i ∈ accepted config c, ∀ j ∈ accepted config c, m i < m j →
      (h.take (m i)).countP (removes config) = (h.take (m j)).countP (removes config) →
      k i < k j := by
    intro i hi j hj hlt hsame
    have hlt' : (k i : Int) < k j := by
      refine takes_lt hruns hs hcounts (hm i hi) (hm j hj) hlt (htak i hi) (htak j hj) ?_
      intro l u hl hil hlj
      by_contra hrem
      have hcnt := countP_take_lt hl (eq_true_of_not_eq_false hrem) hil.le hlj
      omega
    exact_mod_cast hlt'
  have hinj : Set.InjOn (fun i => ((h.take (m i)).countP (removes config), k i))
      (accepted config c : Set Nat) := by
    intro i hi j hj hij
    obtain ⟨hsame, hk⟩ := Prod.mk.inj hij
    rcases Nat.lt_trichotomy (m i) (m j) with hlt | heq | hgt
    · exact absurd (hord i hi j hj hlt hsame) (by omega)
    · have hst : st i hi = st j hj := some.inj ((hm i hi).symm.trans (heq ▸ hm j hj))
      have hact := (htak i hi).action.symm.trans (hst ▸ (htak j hj).action)
      injection hact
    · exact absurd (hord j hj i hi hgt hsame.symm) (by omega)
  have hmaps : ∀ i ∈ accepted config c, ((h.take (m i)).countP (removes config), k i) ∈
      range (h.countP (removes config) + 1) ×ˢ Icc 1 config.maxFanOut := by
    intro i hi
    have hcnt := (List.take_sublist (m i) h).countP_le (p := removes config)
    simp only [mem_product, mem_range, mem_Icc]
    exact ⟨by omega, hpos i hi, hle i hi⟩
  calc (accepted config c).card
      ≤ (range (h.countP (removes config) + 1) ×ˢ Icc 1 config.maxFanOut).card :=
        card_le_card_of_injOn _ hmaps hinj
    _ = (h.countP (removes config) + 1) * config.maxFanOut := by simp

/-! ## Two runs -/

def oneCall : FlowConfig :=
  { FlowConfig.default with maxFanOut := 1, maxFanOut_lt := by decide }

/-- Two callers race. -/
def race : List (Action GuardRequest) :=
  List.flatten [
    [.spawn (.recordInvocation "mailer"), .spawn (.recordInvocation "calendar")],
    [.run 0 .done, .run 1 .done, .run 1 .done, .run 0 .done], turns 1 4]

/-- The second caller comes after the hash has expired. -/
def lateCaller : List (Action GuardRequest) :=
  List.flatten [[.spawn (.recordInvocation "mailer")], turns 0 6,
    [.spawn (.pass 661000 661000000000), .run 1 .done, .spawn (.recordInvocation "calendar")],
    turns 2 6]

/-- Does no command fail in the step, and is the counter small? -/
def counts (st : Step (guardSystem config)) : Bool :=
  isDone st.action && decide (State.total st.before.state + 1 < 2 ^ 32)
where
  isDone : Action GuardRequest → Bool
    | .run _ .done => true
    | .run _ _ => false
    | _ => true

theorem counts_of_eval (heval : counts st = true) : Counts config st := by
  simp only [counts, and_eq_true, decide_eq_true_eq] at heval
  refine ⟨fun i o hact => ?_, fun i _ => heval.2⟩
  have hdone := heval.1
  rw [hact] at hdone
  cases o with
  | done => rfl
  | _ => cases hdone

theorem race_accepts_one :
    ∃ (h : List (Step (guardSystem oneCall))) (c : _), Runs ⟨freshFlow, []⟩ h c ∧
      h.all counts = true ∧ c.answer 1 = some (.ok (.ok ())) ∧ (accepted oneCall c).card ≤ 1 := by
  obtain ⟨h, c, hru, hcnt, hrem, hans⟩ := exists_runs
    (⟨freshFlow, []⟩ : Config (guardSystem oneCall)) race
    (fun h c => h.all counts = true ∧ h.countP (removes oneCall) = 0 ∧
      c.answer 1 = some (.ok (.ok ())))
    (by decide +kernel)
  have hle := accepted_le oneCall freshFlow rfl h c hru fun st hst =>
    counts_of_eval (List.all_eq_true.1 hcnt st hst)
  rw [hrem] at hle
  exact ⟨h, c, hru, hcnt, hans, hle⟩

/-- **A flow whose hash has expired counts anew.** One call is allowed, and two are accepted. -/
theorem counted_anew : ∃ (h : List (Step (guardSystem oneCall))) (c : _), Runs ⟨freshFlow, []⟩ h c ∧
      h.all counts = true ∧ oneCall.maxFanOut < (accepted oneCall c).card :=
  exists_runs _ lateCaller _ (by decide +kernel)

end Nasiko.Flow
