import Nasiko.Concurrency.Alone
import Nasiko.Flow.Guard

/-!
# Nested calls

One caller at a time drives a flow: it starts the flow, checks before it calls an agent, records the
call, and records the return of the agent that was called last. `Progress` is what the caller could
write down about this: the agents at work, innermost last, and how many calls and tokens there were.

As long as the hash does not expire, it says the same (`Tracks`), and a check refuses an agent
exactly when it is at work or a limit is reached: `nested_flow`. When the hash has expired, the
guard has forgotten the agents at work: `slow_agent_forgotten`.
-/

namespace Nasiko.Flow

open Concurrency Program List Option State Int Command

/-! ## The driver of a flow -/

/-- What has happened in a flow. -/
structure Progress where
  /-- The agents at work, the root first. -/
  stack : List Str
  invocations : Nat
  tokens : Nat
  startedAt : Int

/-- The names in a row, with commas between them. -/
def joined (stack : List Str) : Str := [','].intercalate stack

/-- What the hash should say. -/
def Progress.hash (p : Progress) : Hash :=
  ⟨some (p.stack.length - 1 : Nat), some p.invocations, some p.tokens, some (joined p.stack),
    some p.startedAt⟩

def Progress.addTokens (p : Progress) (n : Nat) : Progress :=
  if State.isI64 n && State.isI64 (p.tokens + n) then { p with tokens := p.tokens + n } else p

/-- Time passes, and the clock is not set back. A server counts no times beyond `2 ^ 73`
nanoseconds. -/
def Elapses (s s' : State) : Prop :=
  ∃ millis utc, s.utc ≤ utc ∧ utc < 2 ^ 73 ∧ s' = s.pass millis utc

/-- Time passes, and the hash does not expire. -/
def Stays (s s' : State) : Prop := Elapses s s' ∧ s'.hash = s.hash

/-- The program of the guard ends, with no failure of Redis. -/
abbrev Ends (drift : State → State → Prop) {α : Type} (s : State) (p : Prog α) (a : α)
    (s' : State) : Prop :=
  Finishes State.answer drift s p (.ok a) s'

variable (config : FlowConfig)

/-- The clock of the server is in its range, and no key is overdue. -/
structure Ready (s : State) : Prop where
  begin : -2 ^ 73 ≤ s.utc
  range : s.utc < 2 ^ 73
  live : ∀ t, s.expiresAt = some t → s.redisNow ≤ t

/-- One caller at a time has driven the flow to the state, with this progress. -/
inductive Driven (drift : State → State → Prop) (root : Str) : State → Progress → Prop where
  | start {s s' : State} {startedAt : Int} : Ready s →
    Ends drift s (initFlow config root) () s' → s'.hash.startedAt = some startedAt →
    Driven drift root s' ⟨[root], 0, 0, startedAt⟩
  | checked {s s' : State} {p : Progress} {t : Str} {r : Except FlowRejection Unit} :
    Driven drift root s p → Ends drift s (check config t) r s' → Driven drift root s' p
  | called {s s₁ s' : State} {p : Progress} {t : Str} {r : Except FlowRejection Unit} :
    Driven drift root s p → IsName t → Ends drift s (check config t) (.ok ()) s₁ →
    Ends drift s₁ (recordInvocation config t) r s' →
    Driven drift root s' { p with stack := p.stack ++ [t], invocations := p.invocations + 1 }
  | returned {s s' : State} {p : Progress} {stack : List Str} {t : Str} :
    Driven drift root s p → p.stack = stack ++ [t] → stack ≠ [] → Ends drift s recordReturn () s' →
    Driven drift root s' { p with stack := stack }
  | spent {s s' : State} {p : Progress} {n : Nat} {r : Except FlowRejection Nat} :
    Driven drift root s p → Ends drift s (recordTokens config n) r s' →
    Driven drift root s' (p.addTokens n)

/-! ## Names in a row -/

variable {stack : List Str} {total secs : Int} {root : Str}

theorem joined_append (hstk : stack ≠ []) (t : Str) :
    joined (stack ++ [t]) = joined stack ++ ',' :: t := by
  induction stack with
  | nil => exact absurd rfl hstk
  | cons a stack ih =>
    cases stack with
    | nil => simp [joined]
    | cons b stack =>
      have ih := ih (cons_ne_nil b stack)
      simp only [joined, cons_append, intercalate_cons_cons] at ih ⊢
      rw [ih]
      simp

theorem extend_joined (hstk : ∀ t ∈ stack, IsName t) (t : Str) :
    extend (joined stack) t = joined (stack ++ [t]) := by
  cases stack with
  | nil => simp [joined, extend]
  | cons a stack =>
    rw [joined_append (cons_ne_nil a stack), extend, if_neg]
    intro hemp
    have hpre : a <+: joined (a :: stack) := by
      cases stack with
      | nil => simp [joined]
      | cons b stack =>
        rw [joined, intercalate_cons_cons]
        exact prefix_append_of_prefix (prefix_append a _)
    rw [isEmpty_iff.1 hemp] at hpre
    exact (hstk a mem_cons_self).nonempty (prefix_nil.1 hpre)

theorem frames_joined (hstk : ∀ t ∈ stack, IsName t) : frames (joined stack) = stack := by
  induction stack using reverseRecOn with
  | nil => rfl
  | append_singleton stack t ih =>
    have hrest : ∀ a ∈ stack, IsName a := fun a ha => hstk a (mem_append_left [t] ha)
    rw [← extend_joined hrest, frames_extend _ (hstk t (by simp)), ih hrest]

/-! ## Commands, one by one -/

/-- The state has the hash, which is not due to expire, and the flow has started. -/
structure Holds (hash : Hash) (startedAt : Int) (s : State) : Prop where
  hash_eq : s.hash = hash
  begin : -2 ^ 73 ≤ startedAt
  clock : startedAt ≤ s.utc
  range : s.utc < 2 ^ 73
  live : ∀ t, s.expiresAt = some t → s.redisNow ≤ t

variable {config} {s s' : State} {hash : Hash} {startedAt : Int} {t : Str} {α β : Type} {r : β}
  {bits n default : Nat} {f : Counter} {chain : Str} {delays : List (Nat × Int)}

section

variable (hh : Holds hash startedAt s) {k : Unit → Prog β}

include hh

theorem Holds.stay (hsta : Stays s s') : Holds hash startedAt s' := by
  obtain ⟨⟨millis, utc, hutc, hrng, rfl⟩, hha⟩ := hsta
  have hclo : (s.pass millis utc).utc = utc := by
    unfold State.pass
    split <;> rfl
  refine ⟨hha.trans hh.hash_eq, hh.begin, ?_, ?_, ?_⟩
  · rw [hclo]
    exact hh.clock.trans hutc
  · rw [hclo]
    exact hrng
  · intro t ht
    unfold State.pass at ht ⊢
    split at ht
    · cases ht
    · rename_i hdue
      rw [if_neg hdue]
      have ht : s.expiresAt = some t := ht
      rw [ht] at hdue
      simp only [any_some, decide_eq_true_eq, not_lt] at hdue
      exact hdue

theorem Holds.write (hash' : Hash) : Holds hash' startedAt { s with hash := hash' } :=
  { hh with hash_eq := rfl }

theorem Holds.of_call {c : Command} {k : Except RedisError (Reply c) → Prog β}
    (h : Ends Stays s (.call c k) r s') :
    ∃ s₁, Holds hash startedAt s₁ ∧ Ends Stays (s₁.answer c).2 (k (s₁.answer c).1) r s' := by
  obtain ⟨s₁, hsta, h⟩ := h
  exact ⟨s₁, hh.stay hsta, h⟩

theorem Holds.of_withConnection {unavailable : β} {q : Prog β}
    (h : Ends Stays s (withConnection unavailable q) r s') :
    ∃ s₁, Holds hash startedAt s₁ ∧ Ends Stays s₁ q r s' :=
  hh.of_call h

theorem Holds.of_readCounter {k : Nat → Prog β}
    (hn : hash.counter f = some (n : Int)) (hbits : n < 2 ^ bits)
    (h : Ends Stays s (readCounter bits f >>= k) r s') :
    ∃ s₁, Holds hash startedAt s₁ ∧ Ends Stays s₁ (k n) r s' := by
  obtain ⟨s₁, hh, h⟩ := hh.of_call h
  simp only [State.answer, hh.hash_eq, hn] at h
  change Ends Stays s₁ (k (asRead bits (some (n : Int)))) r s' at h
  rw [asRead, if_pos ⟨natCast_nonneg _, by exact_mod_cast hbits⟩] at h
  exact ⟨s₁, hh, h⟩

theorem Holds.of_readChain {k : Str → Prog β}
    (hch : hash.callChain = some chain) (h : Ends Stays s (readChain >>= k) r s') :
    ∃ s₁, Holds hash startedAt s₁ ∧ Ends Stays s₁ (k chain) r s' := by
  obtain ⟨s₁, hh, h⟩ := hh.of_call h
  simp only [State.answer, hh.hash_eq, hch] at h
  exact ⟨s₁, hh, h⟩

theorem Holds.of_readStartedAt {k : Option Int → Prog β}
    (h : Ends Stays s (readStartedAt >>= k) r s') :
    ∃ s₁, Holds hash startedAt s₁ ∧ Ends Stays s₁ (k hash.startedAt) r s' := by
  obtain ⟨s₁, hh, h⟩ := hh.of_call h
  simp only [State.answer, hh.hash_eq] at h
  exact ⟨s₁, hh, h⟩

theorem Holds.of_increment {n : Int} {k : Nat → Prog β} (htot : (hash.counter f).getD 0 + n = total)
    (hfi : (State.isI64 n && State.isI64 total) = true)
    (h : Ends Stays s (increment bits f n default >>= k) r s') :
    ∃ s₁, Holds (hash.setCounter total f) startedAt s₁ ∧
      Ends Stays s₁ (k (asUnsigned bits total)) r s' := by
  obtain ⟨s₁, hh, h⟩ := hh.of_call h
  have hincr : s₁.incr f n = total := by rw [State.incr, State.count, hh.hash_eq, htot]
  simp only [State.answer, hincr, hfi, hh.hash_eq] at h
  exact ⟨_, hh.write _, h⟩

theorem Holds.of_overflow {n : Int} {k : Nat → Prog β}
    (hfi : ¬ (State.isI64 n && State.isI64 ((hash.counter f).getD 0 + n)) = true)
    (h : Ends Stays s (increment bits f n default >>= k) r s') :
    ∃ s₁, Holds hash startedAt s₁ ∧ Ends Stays s₁ (k default) r s' := by
  obtain ⟨s₁, hh, h⟩ := hh.of_call h
  have hincr : s₁.incr f n = (hash.counter f).getD 0 + n := by
    rw [State.incr, State.count, hh.hash_eq]
  simp only [State.answer, hincr, hfi] at h
  exact ⟨s₁, hh, h⟩

theorem Holds.of_decrement (htot : hash.depth.getD 0 + -1 = total) (hfi : State.isI64 total = true)
    (h : Ends Stays s (ignore (perform (hincrby .depth (-1))) >>= k) r s') :
    ∃ s₁, Holds (hash.setCounter total .depth) startedAt s₁ ∧ Ends Stays s₁ (k ()) r s' := by
  obtain ⟨s₁, hh, h⟩ := hh.of_call h
  have hincr : s₁.incr .depth (-1) = total := by
    rw [State.incr, State.count, hh.hash_eq]
    exact htot
  have hone : (State.isI64 (-1) && State.isI64 total) = true := by rw [hfi]; rfl
  simp only [State.answer, hincr, hone, hh.hash_eq] at h
  exact ⟨_, hh.write _, h⟩

theorem Holds.of_writeChain
    (h : Ends Stays s (ignore (perform (hsetChain chain)) >>= k) r s') :
    ∃ s₁, Holds { hash with callChain := some chain } startedAt s₁ ∧ Ends Stays s₁ (k ()) r s' := by
  obtain ⟨s₁, hh, h⟩ := hh.of_call h
  simp only [State.answer, hh.hash_eq] at h
  exact ⟨_, hh.write _, h⟩

theorem Holds.expire (hsecs : 0 < secs) : Holds hash startedAt (s.answer (.expire secs)).2 := by
  rw [State.answer]
  split
  · rw [State.expire]
    split
    · exact hh
    · rw [if_neg (not_le.2 hsecs)]
      refine { hh with live := ?_ }
      rintro t ⟨⟩
      exact le_add_of_nonneg_right (by omega)
  · exact hh

theorem Holds.of_expire (hsecs : 0 < secs)
    (h : Ends Stays s (ignore (perform (Command.expire secs)) >>= k) r s') :
    ∃ s₁, Holds hash startedAt s₁ ∧ Ends Stays s₁ (k ()) r s' := by
  obtain ⟨s₁, hh, h⟩ := hh.of_call h
  refine ⟨_, hh.expire hsecs, ?_⟩
  cases hrep : (s₁.answer (.expire secs)).1 with
  | ok a | error e =>
    rw [hrep] at h
    exact h

end

/-! ## The hash of a flow -/

/-- The hash says what has happened, and the limits are kept. -/
structure Tracks (config : FlowConfig) (s : State) (p : Progress) : Prop where
  holds : Holds p.hash p.startedAt s
  names : ∀ t ∈ p.stack, IsName t
  nonempty : p.stack ≠ []
  depth_le : p.stack.length - 1 ≤ config.maxDepth
  invocations_le : p.invocations ≤ config.maxFanOut
  tokens_lt : p.tokens < 2 ^ 63

variable {p : Progress}
  {q : Prog α} {r : Except FlowRejection Unit} {drift : State → State → Prop} {a : α}

/-- The agent is at work, or a limit is reached. -/
def Refuses (config : FlowConfig) (p : Progress) (t : Str) (utc : Int) : Prop :=
  t ∈ p.stack ∨ config.maxDepth ≤ p.stack.length - 1 ∨ config.maxFanOut ≤ p.invocations ∨
    config.maxFlowTokens ≤ p.tokens ∨ config.flowTimeoutSecs < (utc - p.startedAt) / 1000000000

theorem Holds.elapsedSecs_eq (hh : Holds hash startedAt s) :
    (elapsedSecs s.utc startedAt : Int) = (s.utc - startedAt) / 1000000000 := by
  have hbegin := hh.begin
  have hclo := hh.clock
  have hrng := hh.range
  rw [elapsedSecs, asUnsigned, tdiv_eq_ediv_of_nonneg (by omega)]
  omega

theorem Tracks.of_verdict (htr : Tracks config s p)
    (h : Ends Stays s (verdict config t (p.stack.length - 1) (joined p.stack) p.invocations p.tokens
      (some p.startedAt)) r s') :
    Tracks config s' p ∧ (r ≠ .ok () ↔ Refuses config p t s'.utc) := by
  rcases verdict_cases config t (p.stack.length - 1) (joined p.stack) p.invocations p.tokens
    (some p.startedAt) with ⟨e, hv, href⟩ | ⟨hv, hdep, hcyc, hfan, htok⟩
  · rw [hv] at h
    obtain ⟨hr, rfl⟩ := h
    cases hr
    rw [frames_joined htr.names] at href
    refine ⟨htr, fun _ => ?_, fun _ => by simp⟩
    unfold Refuses
    tauto
  rw [hv] at h
  rw [frames_joined htr.names] at hcyc
  -- Only now is the clock read, so the time is that of the end.
  obtain ⟨s₁, hsta, h⟩ := h
  have hh₁ := htr.holds.stay hsta
  have help := hh₁.elapsedSecs_eq
  change Ends Stays s₁
    (if elapsedSecs s₁.utc p.startedAt > config.flowTimeoutSecs then _ else _) r s'
    at h
  split at h
  · rename_i hlate
    obtain ⟨hr, rfl⟩ := h
    cases hr
    refine ⟨{ htr with holds := hh₁ }, fun _ => .inr (.inr (.inr (.inr ?_))), fun _ => by simp⟩
    rw [← help]
    exact_mod_cast hlate
  · rename_i hlate
    obtain ⟨hr, rfl⟩ := h
    cases hr
    refine ⟨{ htr with holds := hh₁ }, fun hne => absurd rfl hne, ?_⟩
    rintro (h | h | h | h | h)
    · exact absurd h hcyc
    all_goals omega

/-- **A check refuses an agent that is at work, and any agent when a limit is reached.** -/
theorem Tracks.of_check (htr : Tracks config s p) (h : Ends Stays s (check config t) r s') :
    Tracks config s' p ∧ (r ≠ .ok () ↔ Refuses config p t s'.utc) := by
  have hdep := htr.depth_le.trans_lt config.maxDepth_lt
  have hfan := htr.invocations_le.trans_lt config.maxFanOut_lt
  have htok := htr.tokens_lt
  obtain ⟨s₁, hh, h⟩ := htr.holds.of_withConnection h
  obtain ⟨s₂, hh, h⟩ := hh.of_readCounter rfl hdep h
  obtain ⟨s₃, hh, h⟩ := hh.of_readChain rfl h
  obtain ⟨s₄, hh, h⟩ := hh.of_readCounter rfl hfan h
  obtain ⟨s₅, hh, h⟩ := hh.of_readCounter rfl (show p.tokens < 2 ^ 64 by omega) h
  obtain ⟨s₆, hh, h⟩ := hh.of_readStartedAt h
  exact Tracks.of_verdict { htr with holds := hh } h

/-! ## The other operations -/

theorem isI64_of_nat (hn : n < 2 ^ 63) : isI64 n = true := by
  simp only [isI64, Bool.and_eq_true, decide_eq_true_eq]
  omega

theorem asUnsigned_of_nat (hn : n < 2 ^ bits) : asUnsigned bits n = n := by
  have hlt : (n : Int) < 2 ^ bits := by exact_mod_cast hn
  rw [asUnsigned, emod_eq_of_lt (natCast_nonneg n) hlt, toNat_natCast]

theorem Tracks.of_recordInvocation (htr : Tracks config s p)
    (hcfg : 0 < asI64 config.flowStateTtlSecs) (ht : IsName t) {utc : Int}
    (hchk : ¬ Refuses config p t utc) (h : Ends Stays s (recordInvocation config t) r s') :
    r = .ok () ∧
      Tracks config s' { p with stack := p.stack ++ [t], invocations := p.invocations + 1 } := by
  simp only [Refuses, not_or, not_le] at hchk
  obtain ⟨-, hdep, hfan, -, -⟩ := hchk
  have hmax := config.maxDepth_lt
  have hmaxFan := config.maxFanOut_lt
  have hpos : 0 < p.stack.length := length_pos_iff.2 htr.nonempty
  obtain ⟨s₁, hh, h⟩ := htr.holds.of_withConnection h
  obtain ⟨s₂, hh, h⟩ := hh.of_increment
    (show (p.invocations : Int) + 1 = ((p.invocations + 1 : Nat) : Int) by rfl)
    (by rw [isI64_of_nat (by omega)]; rfl) h
  rw [asUnsigned_of_nat (by omega)] at h
  rw [if_neg (by omega)] at h
  obtain ⟨s₃, hh, h⟩ := hh.of_increment
    (show ((p.stack.length - 1 : Nat) : Int) + 1 = (p.stack.length : Int) by omega)
    (by rw [isI64_of_nat (by omega)]; rfl) h
  rw [asUnsigned_of_nat (by omega)] at h
  obtain ⟨s₄, hh, h⟩ := hh.of_readChain rfl h
  obtain ⟨s₅, hh, h⟩ := hh.of_writeChain h
  obtain ⟨s₆, hh, h⟩ := hh.of_expire hcfg h
  rw [if_neg (by omega)] at h
  obtain ⟨hr, rfl⟩ := h
  cases hr
  refine ⟨rfl, ?_, ?_, by simp, ?_, hfan, htr.tokens_lt⟩
  · have hha : Hash.mk (some (p.stack.length : Int)) (some ((p.invocations + 1 : Nat) : Int))
        (some p.tokens) (some (extend (joined p.stack) t)) (some p.startedAt) =
        Progress.hash { p with stack := p.stack ++ [t], invocations := p.invocations + 1 } := by
      simp [Progress.hash, extend_joined htr.names]
    rw [← hha]
    exact hh
  · intro a ha
    rcases mem_append.1 ha with ha | ha
    · exact htr.names a ha
    · rwa [mem_singleton.1 ha]
  · simp only [length_append, length_singleton]
    omega

theorem Tracks.of_recordReturn (htr : Tracks config s p) (hstk : p.stack = stack ++ [t])
    (hne : stack ≠ []) (h : Ends Stays s recordReturn () s') :
    Tracks config s' { p with stack := stack } := by
  have hpos : 0 < stack.length := length_pos_iff.2 hne
  have hlength : p.stack.length = stack.length + 1 := by rw [hstk]; simp
  have hdep := htr.depth_le
  have hmax := config.maxDepth_lt
  have hnm : ∀ a ∈ stack, IsName a := fun a ha =>
    htr.names a (hstk ▸ mem_append_left [t] ha)
  have hlast : IsName t := htr.names t (by simp [hstk])
  obtain ⟨s₁, hh, h⟩ := htr.holds.of_withConnection h
  obtain ⟨s₂, hh, h⟩ := hh.of_decrement
    (show ((p.stack.length - 1 : Nat) : Int) + -1 = ((stack.length - 1 : Nat) : Int) by omega)
    (isI64_of_nat (by omega)) h
  obtain ⟨s₃, hh, h⟩ := hh.of_readChain rfl h
  obtain ⟨s₄, hh, hr, rfl⟩ := hh.of_call h
  refine ⟨?_, hnm, hne, by simp only; omega, htr.invocations_le, htr.tokens_lt⟩
  have hch : shorten (joined p.stack) = joined stack := by
    rw [hstk, ← extend_joined hnm, shorten_extend _ hlast.noComma]
  simp only [State.answer, hh.hash_eq, hch]
  exact hh.write _

theorem Tracks.of_recordTokens {r : Except FlowRejection Nat} (htr : Tracks config s p)
    (h : Ends Stays s (recordTokens config n) r s') : Tracks config s' (p.addTokens n) := by
  obtain ⟨s₁, hh, h⟩ := htr.holds.of_withConnection h
  have htot : (p.hash.counter .totalTokensUsed).getD 0 + (n : Int) = ((p.tokens + n : Nat) : Int) :=
    rfl
  rw [Progress.addTokens]
  split
  · rename_i hfi
    obtain ⟨s₂, hh, h⟩ := hh.of_increment htot (by exact_mod_cast hfi) h
    have hs : s' = s₂ := by
      split at h <;> exact h.2
    subst hs
    refine { htr with holds := hh, tokens_lt := ?_ }
    simp only [isI64, Bool.and_eq_true, decide_eq_true_eq] at hfi
    change p.tokens + n < 2 ^ 63
    omega
  · rename_i hfi
    have hfi : ¬ (isI64 n && isI64 ((p.hash.counter .totalTokensUsed).getD 0 + n)) = true := hfi
    obtain ⟨s₂, hh, h⟩ := hh.of_overflow hfi h
    have hs : s' = s₂ := by
      split at h <;> exact h.2
    subst hs
    exact { htr with holds := hh }

theorem tracks_initFlow (hcfg : 0 < asI64 config.flowStateTtlSecs) (hroot : IsName root)
    (hrea : Ready s) (h : Ends Stays s (initFlow config root) () s')
    (hst : s'.hash.startedAt = some startedAt) :
    Tracks config s' ⟨[root], 0, 0, startedAt⟩ := by
  have hh : Holds s.hash s.utc s := ⟨rfl, hrea.begin, le_rfl, hrea.range, hrea.live⟩
  obtain ⟨s₁, hh, h⟩ := hh.of_withConnection h
  obtain ⟨s₂, hh₂, h⟩ := hh.of_call h
  -- The flow starts when the clock is read.
  have hh : Holds s₂.hash s₂.utc s₂ :=
    ⟨rfl, hh₂.begin.trans hh₂.clock, le_rfl, hh₂.range, hh₂.live⟩
  obtain ⟨s₃, hh, h⟩ := hh.of_call h
  have hh := hh.write ⟨some 0, some 0, some 0, some root, some s₂.utc⟩
  obtain ⟨s₄, hh, h⟩ := hh.of_call h
  have hh := hh.expire hcfg
  obtain rfl : s' = (s₄.answer (.expire (asI64 config.flowStateTtlSecs))).2 := by
    cases hrep : (s₄.answer (.expire (asI64 config.flowStateTtlSecs))).1 with
    | ok a | error e =>
      rw [hrep] at h
      exact h.2
  rw [hh.hash_eq] at hst
  cases hst
  have hha : Progress.hash ⟨[root], 0, 0, s₂.utc⟩ =
      ⟨some 0, some 0, some 0, some root, some s₂.utc⟩ := by simp [Progress.hash, joined]
  refine ⟨hha ▸ hh, ?_, by simp, by simp, by simp, by simp⟩
  intro a ha
  rwa [mem_singleton.1 ha]

theorem Driven.tracks (hcfg : 0 < asI64 config.flowStateTtlSecs) (hroot : IsName root)
    (hdri : Driven config Stays root s p) : Tracks config s p ∧ p.stack.head? = some root := by
  induction hdri with
  | start hrea h hst => exact ⟨tracks_initFlow hcfg hroot hrea h hst, rfl⟩
  | checked _ h ih => exact ⟨(ih.1.of_check h).1, ih.2⟩
  | @called s s₁ s' p t r _ ht hchk h ih =>
    obtain ⟨htr, hver⟩ := ih.1.of_check hchk
    refine ⟨(htr.of_recordInvocation hcfg ht (fun hr => hver.2 hr rfl) h).2, ?_⟩
    rw [head?_append, ih.2]
    rfl
  | @returned s s' p stack t _ hstk hne h ih =>
    refine ⟨ih.1.of_recordReturn hstk hne h, ?_⟩
    have hhead := ih.2
    rw [hstk] at hhead
    cases stack with
    | nil => exact absurd rfl hne
    | cons a stack => exact hhead
  | @spent s s' p n r _ h ih =>
    refine ⟨ih.1.of_recordTokens h, ?_⟩
    rw [Progress.addTokens]
    split <;> exact ih.2

theorem Holds.stays (hh : Holds hash startedAt s) : Stays s s := by
  have hpass : s.pass 0 s.utc = s := by
    rw [State.pass, if_neg]
    · rw [wait]
      simp
    · intro hdue
      obtain ⟨t, ht, hlt⟩ := (any_eq_true _ _).1 hdue
      have hlive := hh.live t ht
      simp only [decide_eq_true_eq] at hlt
      omega
  exact ⟨⟨0, s.utc, le_rfl, hh.range, hpass.symm⟩, rfl⟩

theorem ends_of_reads (hsta : Stays s s) (hq : Calls reads q)
    (h : q.eval (fun c => (s.answer c).1) = .ok a) : Ends Stays s q a s := by
  induction q with
  | ret b =>
    cases h
    exact ⟨rfl, rfl⟩
  | fail e => cases h
  | call c k ih =>
    have hsame : (s.answer c).2 = s := by
      cases c <;> first | rfl | cases hq.1
    refine ⟨s, hsta, ?_⟩
    rw [hsame]
    exact ih _ (hq.2 _) h

theorem Tracks.exists_check (htr : Tracks config s p) {t : Str} :
    ∃ r s', Ends Stays s (check config t) r s' := by
  obtain ⟨depth, chain, invocations, tokens, hchk⟩ : ∃ depth chain invocations tokens,
      (check config t).eval (fun c => (s.answer c).1) = (verdict config t depth chain invocations
        tokens s.hash.startedAt).eval fun c => (s.answer c).1 := by
    obtain ⟨⟨depth, invocations, tokens, chain, startedAt⟩, _⟩ := s
    cases depth <;> cases invocations <;> cases tokens <;> cases chain <;> exact ⟨_, _, _, _, rfl⟩
  have hver : ∃ r, (verdict config t depth chain invocations tokens s.hash.startedAt).eval
      (fun c => (s.answer c).1) = .ok r := by
    rcases verdict_cases config t depth chain invocations tokens s.hash.startedAt with
      ⟨e, hv, -⟩ | ⟨hv, -⟩
    all_goals rw [hv]
    · exact ⟨_, rfl⟩
    cases s.hash.startedAt with
    | none => exact ⟨_, rfl⟩
    | some started =>
      change ∃ r,
        (if elapsedSecs s.utc started > config.flowTimeoutSecs then _ else _ : Prog _).eval
        _ = .ok r
      split <;> exact ⟨_, rfl⟩
  obtain ⟨r, hr⟩ := hver
  exact ⟨r, s, ends_of_reads htr.holds.stays (calls_check config t) (hchk.trans hr)⟩

/-! ## The result -/

/-- **One caller at a time keeps the hash right, and a check refuses what it should.** The agents
have names without commas, calls are recorded after a check that they passed, and the hash does not
expire. Then the stored chain is the agents at work, from the root on, the depth is their number
less one, and a check ends and refuses an agent if and only if it is at work or a limit is reached:
of the depth, the calls, the tokens, or of the time in whole seconds, which has to be exceeded. -/
theorem nested_flow (config : FlowConfig) (hconfig : 0 < asI64 config.flowStateTtlSecs) (root : Str)
    (hroot : IsName root) (s : State) (p : Progress) (hdriven : Driven config Stays root s p) :
    (s.hash.callChain = some (joined p.stack) ∧ frames (joined p.stack) = p.stack ∧
      p.stack.head? = some root ∧ s.hash.depth = some ((p.stack.length : Int) - 1)) ∧
    ∀ t, (∃ r s', Ends Stays s (check config t) r s') ∧ ∀ r s', Ends Stays s (check config t) r s' →
        (r ≠ .ok () ↔ t ∈ p.stack ∨ config.maxDepth ≤ p.stack.length - 1 ∨
          config.maxFanOut ≤ p.invocations ∨ config.maxFlowTokens ≤ p.tokens ∨
          config.flowTimeoutSecs < (s'.utc - p.startedAt) / 1000000000) := by
  obtain ⟨htr, hhead⟩ := hdriven.tracks hconfig hroot
  have hpos : 0 < p.stack.length := length_pos_iff.2 htr.nonempty
  refine ⟨⟨?_, frames_joined htr.names, hhead, ?_⟩, fun t => ⟨htr.exists_check, ?_⟩⟩
  · rw [htr.holds.hash_eq]
    rfl
  · rw [htr.holds.hash_eq]
    exact congrArg some (by omega)
  · intro r s' h
    exact (htr.of_check h).2

/-! ## Two flows -/

/-- Run a program on its own, with some time before each command. Without `expiry` the hash has to
stay. -/
def play (expiry : Bool) : List (Nat × Int) → State → Prog α → Option (α × State)
  | _, s, .ret a => some (a, s)
  | _, _, .fail _ => none
  | delays, s, .call c k =>
    let d := delays.headD (0, s.utc)
    let s₁ := s.pass d.1 d.2
    if s.utc ≤ d.2 ∧ d.2 < 2 ^ 73 ∧ (expiry = true ∨ s₁.hash = s.hash) then
      play expiry delays.tail (s₁.answer c).2 (k (s₁.answer c).1)
    else none

theorem finishes_of_play {expiry : Bool}
    (hdri : ∀ s s', Elapses s s' → expiry = true ∨ s'.hash = s.hash → drift s s')
    (h : play expiry delays s q = some (a, s')) : Ends drift s q a s' := by
  induction q generalizing s delays with
  | ret b =>
    cases h
    exact ⟨rfl, rfl⟩
  | fail e => cases h
  | call c k ih =>
    simp only [play] at h
    split at h
    · rename_i hd
      exact ⟨_, hdri _ _ ⟨_, _, hd.1, hd.2.1, rfl⟩ hd.2.2, ih _ h⟩
    · cases h

theorem ends_elapses (h : play true delays s q = some (a, s')) : Ends Elapses s q a s' :=
  finishes_of_play (fun _ _ hela _ => hela) h

/-- Redis before the flow. -/
def idle : State := ⟨.empty, none, 0, 0⟩

/-- The orchestrator has called an agent. -/
def calling : State :=
  ⟨⟨some 1, some 1, some 0, some "orchestrator,mailer", some 0⟩, some 660000, 0, 0⟩

def callingProgress : Progress := ⟨["orchestrator", "mailer"], 1, 0, 0⟩

theorem isName_mailer : IsName "mailer" := ⟨by decide, by decide⟩

theorem driven_calling (hdri : ∀ s s', Stays s s' → drift s s') :
    Driven .default drift "orchestrator" calling callingProgress := by
  have hplay : ∀ {β : Type} {s s' : State} {q : Prog β} {a : β},
      play false [] s q = some (a, s') → Ends drift s q a s' := fun h =>
    finishes_of_play (fun s s' hela hha =>
      hdri s s' ⟨hela, hha.resolve_left (by decide)⟩) h
  have hst : Driven .default drift "orchestrator" freshFlow ⟨["orchestrator"], 0, 0, 0⟩ :=
    .start ⟨by decide, by decide, by decide⟩ (hplay (s := idle) (by decide +kernel)) rfl
  have hchk : Ends drift freshFlow (check .default "mailer") (.ok ()) freshFlow :=
    hplay (by decide +kernel)
  have hrec : Ends drift freshFlow (recordInvocation .default "mailer") (.ok ()) calling :=
    hplay (by decide +kernel)
  exact .called hst isName_mailer hchk hrec

theorem mailer_refused : Driven .default Stays "orchestrator" calling callingProgress ∧
    ∃ r s', Ends Stays calling (check .default "mailer") r s' ∧ r ≠ .ok () := by
  have hdri := driven_calling fun _ _ h => h
  obtain ⟨⟨r, s', h⟩, hchk⟩ := (nested_flow .default (by decide) "orchestrator"
    ⟨by decide, by decide⟩ calling callingProgress hdri).2 "mailer"
  exact ⟨hdri, r, s', h, (hchk r s' h).2 (.inl (by decide))⟩

/-- Redis when the hash has expired. -/
def forgotten : State := ⟨.empty, none, 661000, 661000000000⟩

/-- **The guard forgets an agent that works for long.** After 661 seconds the hash is gone; a check
then lets an agent be called that is at work, long after the time of the flow is over. -/
theorem slow_agent_forgotten : Driven .default Elapses "orchestrator" forgotten callingProgress ∧
      "mailer".toList ∈ callingProgress.stack ∧ forgotten.hash.callChain = none ∧
      forgotten.hash.depth = none ∧
      Ends Elapses forgotten (check .default "mailer") (.ok ()) forgotten := by
  have hdri := driven_calling fun _ _ h => h.1
  have hlate : play true [(661000, 661000000000)] calling (check .default "mailer") =
      some (.ok (), forgotten) := by decide +kernel
  have haga : play true [] forgotten (check .default "mailer") =
      some (.ok (), forgotten) := by decide +kernel
  exact ⟨.checked hdri (ends_elapses hlate), by decide, rfl, rfl, ends_elapses haga⟩

end Nasiko.Flow
