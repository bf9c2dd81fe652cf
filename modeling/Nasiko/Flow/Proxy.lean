import Nasiko.Flow.Frames
import Nasiko.Text.Uuid

/-!
# Calls through the proxy

A call of an agent from outside goes through the proxy, which asks the guard of the flow, writes the
agent's frame onto the chain, finds out where the agent is, forwards the request, and takes the last
frame off when the agent answers. Between the two there are many ways out: the agent is not known or
not running, it has no endpoint, the body is too long, the session is not the caller's, the agent
does not answer, or the client goes away. None of them takes the frame off: `frame_left`. A call
that turns out to be too deep is refused after its frame was written.

Main result: `unwound`. If no call goes out that way, the depth and the chain are in the end what
they were at the start.
-/

namespace Nasiko.Flow

open Concurrency Program List Option Function Bool Except Caller State Nat Command Config Action

/-! ## The proxy -/

inductive StatusCode where
  | badRequest
  | unauthorized
  | forbidden
  | notFound
  | internalServerError
  | badGateway
  | serviceUnavailable
  | loopDetected
  deriving DecidableEq

inductive ResolveError where
  | notFound
  | notRunning
  | database
  deriving DecidableEq

def ResolveError.status : ResolveError → StatusCode
  | notFound => .notFound
  | notRunning => .serviceUnavailable
  | database => .internalServerError

/-- A call, and what the world outside of Redis has in store for it. -/
structure ProxiedCall where
  agentId : Uuid
  canAccess : Bool
  /-- The record in the catalog, and whether it has an endpoint. -/
  record : Except ResolveError Bool
  /-- The runtime knows an endpoint. -/
  live : Bool
  /-- The body has arrived, and has at most 10 MiB. -/
  bodyFits : Bool
  /-- `ensure_chat_session`. -/
  session : Except StatusCode Unit
  /-- The agent answers. -/
  answers : Bool
  /-- The body of the answer can be read. -/
  readable : Bool

/-- Resolve the agent and forward the request to it. -/
def forward (q : ProxiedCall) : Prog (Except StatusCode Unit) := do
  perform (await .resolve)
  match q.record with
  | .error e => pure (.error e.status)
  | .ok stored => do
    perform (await .endpoint)
    if !q.live && !stored then pure (.error .badGateway)
    else do
      perform (await .body)
      if !q.bodyFits then pure (.error .badRequest)
      else do
        perform (await .session)
        match q.session with
        | .error status => pure (.error status)
        | .ok () => do
          perform (await .register)
          perform (await .send)
          if !q.answers then pure (.error .badGateway)
          else do
            recordReturn
            perform (await .response)
            if q.readable then pure (.ok ()) else pure (.error .badGateway)

variable (config : FlowConfig)

def proxyAgent (q : ProxiedCall) : Prog (Except StatusCode Unit) := do
  perform (await .access)
  if !q.canAccess then pure (.error .notFound)
  else do
    match ← check config (Uuid.toStr q.agentId) with
    | .error _ => pure (.error .loopDetected)
    | .ok () =>
      match ← recordInvocation config (Uuid.toStr q.agentId) with
      | .error _ => pure (.error .loopDetected)
      | .ok () => forward q

/-- A call through the proxy; time passes as well. -/
inductive ProxyRequest where
  | call (q : ProxiedCall)
  | pass (millis : Nat) (utc : Int)

def handleProxy : ProxyRequest → Prog (Except StatusCode Unit)
  | .call q => proxyAgent config q
  | .pass millis utc => do
    perform (pass millis utc)
    pure (.ok ())

abbrev proxySystem := flowSystem (handleProxy config)

/-- The request gets to the agent, and the agent answers. -/
def ProxiedCall.reaches (q : ProxiedCall) : Prop :=
  ∃ stored, q.record = .ok stored ∧ (q.live || stored) = true ∧ q.bodyFits = true ∧
    q.session = .ok () ∧ q.answers = true

/-! ## What has to hold -/

variable {config} {x : Caller} {d : Option Nat} {q : ProxiedCall} {s : State} {n : Int}

def Command.changesFrames : Command → Bool
  | hincrby .depth _ | hsetChain _ => true
  | _ => false

/-- The task changes the depth or the chain in this step. -/
def changedBy (i : Nat) (st : Step (proxySystem config)) : Bool :=
  match st.action with
  | .run j _ => j == i && (st.before.next i).any changesFrames
  | _ => false

/-- How often the task has changed the depth or the chain. A call that goes through does it four
times. -/
def changes (h : List (Step (proxySystem config))) (i : Nat) : Nat := h.countP (changedBy i)

variable (st : Step (proxySystem config))

/-- The task ends in this step, although it has not finished. -/
def Interrupts (i : Nat) : Prop :=
  st.action = .drop i ∨ st.action = .crash ∧ (st.before.next i).isSome = true

/-- A call is interrupted only before it has changed the depth or the chain, or after it has changed
them back. -/
def Spared (h : List (Step (proxySystem config))) : Prop :=
  ∀ m st i, h[m]? = some st → Interrupts st i → changes (h.take m) i = 0 ∨ changes (h.take m) i = 4

/-- The depth; it is 0 if there is none. -/
def State.level (s : State) : Int := s.hash.depth.getD 0

/-- Edits do not overlap, whoever may call the agent reaches it, and no call is too deep when it is
written down. -/
structure Unwinds : Prop extends Tidy st where
  reaches : ∀ q, st.action = .spawn (.call q) → q.canAccess = true → q.reaches
  shallow : ∀ i o, st.action = .run i o → st.before.next i = some (.hincrby .depth 1) →
    0 ≤ State.level st.before.state ∧ State.level st.before.state < config.maxDepth

/-! ## What a call knows -/

def ProxyRequest.start : ProxyRequest → Caller
  | call q => .start (Uuid.toStr q.agentId)
  | pass _ _ => .start []

/-- The call has been refused before it reaches the agent, or it reaches the agent. -/
def ProxyRequest.reaches : ProxyRequest → Prop
  | call q => q.canAccess = true → q.reaches
  | pass _ _ => True

/-- Why a call has ended. -/
def Closed (config : FlowConfig) (q : ProxyRequest) (x : Caller) : Prop :=
  ¬ x.writes ∧ (q.reaches → x.phase.settled ∨ x.offline = true ∨
    x.phase = .pushed ∧ ∃ n, x.depth = some n ∧ config.maxDepth < n)

theorem closed_of_settled {q : ProxyRequest} (hwr : ¬ x.writes)
    (hset : x.phase.settled) : Closed config q x :=
  ⟨hwr, fun _ => .inl hset⟩

theorem follows_returned {t : Str} (hx : At t d .pushed x) : Follows editing x (do
      recordReturn
      perform (await .response)
      if q.readable then pure (ok ()) else pure (error StatusCode.badGateway))
      fun y _ => Closed config (.call q) y := by
  refine follows_bind.2 ((follows_recordReturn hx).mono fun y r hy => ?_)
  have hview : y.phase.view = none := by
    rcases hy with ⟨hph, -⟩ | hph
    all_goals
      rw [hph]
      rfl
  have hclo : ∀ {z : Caller}, z.phase = y.phase → (y.offline = true → z.offline = true) →
      Closed config (.call q) z := by
    intro z hph hoff
    refine ⟨fun h => h (hph ▸ hview), fun _ => ?_⟩
    rcases hy with ⟨-, hy⟩ | hy
    · exact .inr (.inl (hoff hy))
    · exact .inl (.inr (by rw [hph, hy]; rfl))
  cases r with
  | error e => exact hclo rfl id
  | ok a =>
    refine follows_perform_bind (fun h => h hview) (fun e => hclo rfl fun _ => rfl) fun a => ?_
    split <;> exact hclo rfl id

theorem follows_forward {t : Str} (hx : At t d .pushed x) (hacc : q.canAccess = true) :
    Follows editing x (forward q) fun y _ => Closed config (.call q) y := by
  have hopen : ∀ {y : Caller}, At t d .pushed y → ¬ q.reaches →
      Closed config (.call q) y := fun hy hnot =>
    ⟨hy.not_writes rfl, fun h => absurd (h hacc) hnot⟩
  have herr : ∀ (y : Caller) (_ : RedisError), At t d .pushed y → y.offline = true →
      Closed config (.call q) y := fun y e hy hoff =>
    ⟨hy.not_writes rfl, fun _ => .inr (.inl hoff)⟩
  refine follows_await_bind rfl hx herr fun y hy => ?_
  cases hrec : q.record with
  | error e =>
    refine hopen hy ?_
    rintro ⟨stored, h, -⟩
    exact nomatch hrec.symm.trans h
  | ok stored =>
    refine follows_await_bind rfl hy herr fun y hy => ?_
    split
    · refine hopen hy ?_
      rintro ⟨stored', h, hor, -⟩
      cases hrec.symm.trans h
      simp_all
    · refine follows_await_bind rfl hy herr fun y hy => ?_
      split
      · rename_i hnot
        refine hopen hy ?_
        rintro ⟨-, -, -, hfi, -⟩
        rw [hfi] at hnot
        cases hnot
      · refine follows_await_bind rfl hy herr fun y hy => ?_
        cases hsess : q.session with
        | error status =>
          refine hopen hy ?_
          rintro ⟨-, -, -, -, h, -⟩
          exact nomatch hsess.symm.trans h
        | ok a =>
          refine follows_await_bind rfl hy herr fun y hy => ?_
          refine follows_await_bind rfl hy herr fun y hy => ?_
          split
          · rename_i hnot
            refine hopen hy ?_
            rintro ⟨-, -, -, -, -, hansw⟩
            rw [hansw] at hnot
            cases hnot
          · exact follows_returned hy

theorem follows_handleProxy (config : FlowConfig) (q : ProxyRequest) :
    Follows editing q.start (handleProxy config q) fun x _ => Closed config q x := by
  cases q with
  | pass millis utc =>
    have hpass : editing.allow (ProxyRequest.pass millis utc).start (.pass millis utc) :=
      fun h => h rfl
    refine follows_perform_bind hpass (fun e => ?_) fun a => ?_
    all_goals exact closed_of_settled (fun h => h rfl) (.inl rfl)
  | call q =>
    have hst : At (Uuid.toStr q.agentId) none (.checking none)
      (ProxyRequest.call q).start := ⟨rfl, rfl, rfl⟩
    have hclo : ∀ {y : Caller} {seen : Option (List Str)}, y.phase = .checking seen →
        Closed config (.call q) y := by
      intro y seen hph
      exact closed_of_settled (fun h => h (congrArg Phase.view hph)) (.inl (by rw [hph]; rfl))
    refine follows_await_bind rfl hst (fun y e hy _ => hclo hy.phase) fun y hy => ?_
    split
    · exact hclo hy.phase
    · rename_i hacc
      refine follows_bind.2 ((follows_check config hy).mono fun x r hx => ?_)
      obtain ⟨seen, hche⟩ := hx.phase
      match r with
      | .error _ | .ok (.error _) => exact hclo hche
      | .ok (.ok ()) =>
        obtain ⟨seen, hph, ht⟩ := hx.accepted rfl
        refine follows_bind.2 ((follows_recordInvocation_editing config ht
          ⟨hx.target, rfl, hph⟩).mono fun y r hy => ?_)
        have href : r ≠ .ok (.ok ()) → Closed config (.call q) y := by
          intro hr
          rcases hy.phase with ⟨seen', hph, -⟩ | hph | hph
          · exact hclo hph
          · exact closed_of_settled (fun h => h (congrArg Phase.view hph)) (.inl (by rw [hph]; rfl))
          · have hdeep := (hy.tooDeep hph).resolve_left hr
            exact ⟨fun h => h (congrArg Phase.view hph), fun _ => .inr (.inr ⟨hph, hdeep⟩)⟩
        match r with
        | .error _ | .ok (.error _) => exact href nofun
        | .ok (.ok ()) =>
          exact follows_forward ⟨rfl, rfl, hy.accepted rfl⟩ (by simpa using hacc)

/-! ## The depth -/

section

variable {x : Caller} {cmd : Command} {s s' : State} {r : Except RedisError (Reply cmd)}

theorem answer_hincrby_depth (hn : State.isI64 n = true) (hfi : State.isI64 (s.level + n) = true) :
    s.answer (.hincrby .depth n) = (.ok (s.level + n),
      { s with hash := s.hash.setCounter (s.level + n) .depth }) := by
  have hboth : (State.isI64 n && State.isI64 (s.incr .depth n)) = true := by
    rw [hn]
    exact hfi
  rw [State.answer, if_pos hboth]
  rfl

theorem isI64_of_bounds (hn : 0 ≤ n) (hlt : n < 2 ^ 33) : isI64 n = true := by
  simp only [isI64, and_eq_true, decide_eq_true_eq]
  omega

/-- The commands that change the depth are the ones that say so. -/
theorem level_answer (hal : editing.allow x cmd) (hcmd : ∀ n, cmd ≠ .hincrby .depth n)
    (hliv : Lives s (s.answer cmd).2) : (s.answer cmd).2.level = s.level := by
  cases cmd with
  | hincrby f n =>
    cases f with
    | depth => exact absurd rfl (hcmd n)
    | _ =>
      rw [State.answer]
      split <;> rfl
  | hsetStart root startedAt => cases hal
  | expire secs | pass millis utc => rw [level, level, hash_answer_lives rfl hliv]
  | _ => rfl

theorem raised_after (hal : editing.allow x cmd) (hcmd : ∀ n, cmd ≠ .hincrby .depth n) :
    (editing.after x cmd r).phase.raised = x.phase.raised := by
  have hread : ∀ chain, (x.phase.read chain).raised = x.phase.raised := by
    intro chain
    cases x.phase with
    | checking seen => cases seen <;> rfl
    | _ => rfl
  cases cmd with
  | hgetChain =>
    match r with
    | .error _ | .ok none => exact hread []
    | .ok (some chain) => exact hread chain
  | hincrby f n =>
    cases f with
    | totalInvocations =>
      obtain ⟨-, seen, hph, -⟩ := hal
      rw [hph]
      rfl
    | depth => exact absurd rfl (hcmd n)
    | totalTokensUsed => rfl
  | hsetChain chain =>
    change x.phase.written.raised = x.phase.raised
    cases x.phase <;> rfl
  | _ => rfl

theorem changes_after (hal : editing.allow x cmd) : (editing.after x cmd r).phase.changes =
      x.phase.changes + if cmd.changesFrames = true then 1 else 0 := by
  cases cmd with
  | hgetChain =>
    have hread : ∀ chain, (x.phase.read chain).changes = x.phase.changes := by
      intro chain
      cases x.phase with
      | checking seen => cases seen <;> rfl
      | _ => rfl
    match r with
    | .error _ | .ok none => exact hread []
    | .ok (some chain) => exact hread chain
  | hincrby f n =>
    cases f with
    | totalInvocations =>
      obtain ⟨-, seen, hph, -⟩ := hal
      rw [hph]
      rfl
    | depth =>
      rcases hal with ⟨rfl, hph⟩ | ⟨rfl, hph⟩
      all_goals
        rw [hph]
        rfl
    | totalTokensUsed => cases hal
  | hsetChain chain =>
    have hed : x.phase.edit x.target = some chain := hal
    change x.phase.written.changes = _
    cases hph : x.phase with
    | pushing seen | popping seen => rfl
    | _ =>
      rw [hph] at hed
      cases hed
  | _ => rfl

end

/-- What a call knows all the time. -/
structure Bounded (config : FlowConfig) (q : ProxyRequest) (x : Caller) : Prop where
  named : ',' ∉ x.target
  online : x.offline = false
  shallow : x.phase.raised = true → ∀ n, x.depth = some n → n ≤ config.maxDepth
  reaches : q.reaches

theorem comma_not_mem_toStr {id : Uuid} : ',' ∉ Uuid.toStr id := by
  have hdgt : ∀ d < 16, digitChar d ≠ ',' := by decide
  have hdig : ∀ start count, ',' ∉ Uuid.digits id start count := by
    intro start count hmem
    obtain ⟨k, -, hk⟩ := mem_map.1 hmem
    exact hdgt _ (mod_lt _ (by omega)) hk
  simp only [Uuid.toStr, mem_append, mem_cons, hdig]
  decide

theorem asUnsigned_le {m : Nat} (hn : 0 ≤ n) (hle : n < m) (hm : m < 2 ^ 32) :
    asUnsigned 32 (n + 1) ≤ m := by
  rw [asUnsigned]
  omega

theorem inductive_bounded :
    Inductive (proxySystem config) editing ⟨s, []⟩ ProxyRequest.start
      (fun q x _ => Closed config q x)
      Unwinds fun _ c g =>
        ∀ i x, g i = some x → ∃ q, c.request i = some q ∧ Bounded config q x := by
  refine inductive_task (fun c q c' hmt => ?_)
    fun c i o c' q cmd x r s' hmt hnext hexec hal hx => ?_
  · cases q with
    | call q => exact ⟨comma_not_mem_toStr, rfl, nofun, hmt.reaches q rfl⟩
    | pass millis utc => exact ⟨nofun, rfl, nofun, trivial⟩
  · obtain rfl : o = .done := hmt.done i o rfl
    have hans := answer_of_exec hexec
    refine ⟨hx.named, ?_, fun hrai n hn => ?_, hx.reaches⟩
    · cases cmd with
      | connect | await stage =>
        cases hans
        exact hx.online
      | _ => exact hx.online
    · by_cases hcmd : ∃ k, cmd = .hincrby .depth k
      · obtain ⟨k, rfl⟩ := hcmd
        rcases hal with ⟨rfl, -⟩ | ⟨rfl, -⟩
        · obtain ⟨hnon, hlt⟩ : 0 ≤ level c.state ∧ level c.state < config.maxDepth :=
            hmt.shallow i .done rfl hnext
          have hmax := config.maxDepth_lt
          have hfi : isI64 (level c.state + 1) = true :=
            isI64_of_bounds (by omega) (by omega)
          cases (answer_hincrby_depth rfl hfi).symm.trans hans
          cases hn
          exact asUnsigned_le hnon hlt hmax
        · cases hrai
      · have hne : ∀ k, cmd ≠ .hincrby .depth k := fun k h => hcmd ⟨k, h⟩
        rw [raised_after hal hne] at hrai
        refine hx.shallow hrai n (Eq.trans ?_ hn)
        cases cmd with
        | hgetCounter f =>
          cases f with
          | depth =>
            have hph : x.phase = .checking none := hal
            rw [hph] at hrai
            cases hrai
          | _ => rfl
        | hincrby f k =>
          cases f with
          | depth => exact absurd rfl (hne k)
          | _ => rfl
        | _ => rfl

/-! ## The balance -/

def Caller.holds (x : Caller) : Bool := x.phase.holds

def Caller.raised (x : Caller) : Bool := x.phase.raised

theorem Caller.of_settled (hx : x.phase.settled) : x.holds = false ∧ x.raised = false := by
  rw [holds, raised]
  cases hph : x.phase with
  | checking seen | counted | popped => exact ⟨rfl, rfl⟩
  | _ =>
    rw [hph] at hx
    rcases hx with h | h <;> cases h

/-- The depth and the chain are those at the start, with what the calls have added. -/
structure Balance (s : State) (ts : List Str) (c : Config (proxySystem config))
    (g : Nat → Option Caller) : Prop where
  chain : State.chain c.state = stacked s.chain ts
  named : ∀ t ∈ ts, ',' ∉ t
  frames : ts.length = tally Caller.holds g c.tasks.length
  depth : State.level c.state = s.level + tally Caller.raised g c.tasks.length
  bounded : 0 < tally Caller.raised g c.tasks.length →
    0 ≤ s.level ∧ State.level c.state ≤ config.maxDepth

section

variable {s : State} {ts : List Str} {h : List (Step (proxySystem config))}
  {c c' : Config (proxySystem config)} {g g' : Nat → Option Caller} {st : Step (proxySystem config)}
  {i : Nat} {x y : Caller} {cmd : Command}

section

variable (hbalance : Balance s ts c g)

include hbalance

theorem Balance.kept (hst : c'.state = c.state)
    (htal : ∀ P : Caller → Bool, (∀ x : Caller, x.phase.settled → P x = false) →
      tally P g' c'.tasks.length = tally P g c.tasks.length) : Balance s ts c' g' := by
  have hh := htal holds fun x hx => (of_settled hx).1
  have hrai := htal raised fun x hx => (of_settled hx).2
  refine ⟨hst ▸ hbalance.chain, hbalance.named, hbalance.frames.trans hh.symm, ?_, fun hpos => ?_⟩
  · rw [hst, hrai, hbalance.depth]
  · rw [hst]
    exact hbalance.bounded (hrai ▸ hpos)

theorem Balance.spawn (hst : c'.state = c.state)
    (hlen : c'.tasks.length = c.tasks.length + 1) (hy : y.phase.settled) :
    Balance s ts c' (update g c.tasks.length (some y)) := by
  refine hbalance.kept hst fun P hP => ?_
  rw [hlen, tally_spawn, any_some, hP y hy]
  rfl

theorem Balance.interrupt (hst : c'.state = c.state) (hlen : c'.tasks.length = c.tasks.length)
    (hg : ∀ j, g' j = g j ∨ g' j = none ∧ ∀ x, g j = some x → x.phase.settled) :
    Balance s ts c' g' := by
  refine hbalance.kept hst fun P hP => ?_
  rw [hlen]
  refine tally_congr fun j _ => ?_
  rcases hg j with hsa | ⟨hnone, hset⟩
  · rw [hsa]
  · rw [hnone]
    cases hx : g j with
    | none => rfl
    | some x => exact (hP x (hset x hx)).symm

theorem Balance.turn (hvie : Views c g) (hx : g i = some x)
    (hlt : i < c.tasks.length) (hturn : Turn x c.state c'.state y) (htgt : ',' ∉ x.target) :
    ∃ ts', State.chain c'.state = stacked s.chain ts' ∧ (∀ t ∈ ts', ',' ∉ t) ∧
      ts'.length = tally holds (update g i (some y)) c.tasks.length := by
  have htal := tally_update (P := holds) (g := g) hlt (some y)
  rw [hx, any_some, any_some, ← hbalance.frames] at htal
  have hsa : y.phase.holds = x.phase.holds →
      ts.length = tally holds (update g i (some y)) c.tasks.length := by
    intro hh
    rw [holds, holds, hh] at htal
    omega
  cases hturn with
  | other hchn _ _ hh
  | looked hchn _ _ hh => exact ⟨ts, hchn.trans hbalance.chain, hbalance.named, hsa hh⟩
  | wrote hed hph =>
    have hwr : x.writes := fun h => nomatch (Phase.edit_eq_none.2 h).symm.trans hed
    have hcur := hvie.current i x hx hwr
    cases hold : x.phase with
    | pushing chain =>
      rw [hold] at hed hph hcur
      cases hcur
      refine ⟨x.target :: ts, ?_, ?_, ?_⟩
      · rw [← some.inj hed, hbalance.chain, stacked]
      · exact forall_mem_cons.2 ⟨htgt, hbalance.named⟩
      · rw [holds, holds, hold, hph] at htal
        simpa [Phase.holds, Phase.written] using htal.symm
    | popping chain =>
      rw [hold] at hed hph hcur
      cases hcur
      rw [holds, holds, hold, hph] at htal
      have htal : tally holds (update g i (some y)) c.tasks.length + 1 = ts.length := by
        simpa [Phase.holds, Phase.written] using htal
      cases ts with
      | nil => cases htal
      | cons t ts =>
        refine ⟨ts, ?_, (forall_mem_cons.1 hbalance.named).2, ?_⟩
        · rw [← some.inj hed, hbalance.chain]
          exact shorten_extend _ (forall_mem_cons.1 hbalance.named).1
        · rw [length_cons] at htal
          omega
    | _ =>
      rw [hold] at hed
      cases hed

theorem Balance.level {r : Except RedisError (Reply cmd)} (hx : g i = some x)
    (hlt : i < c.tasks.length) (hal : editing.allow x cmd) (hy : y = editing.after x cmd r)
    (hans : answer c.state cmd = (r, c'.state)) (hliv : Lives c.state c'.state)
    (hsha : cmd = .hincrby .depth 1 → 0 ≤ level c.state ∧ level c.state < config.maxDepth) :
    level c'.state = s.level + tally raised (update g i (some y)) c.tasks.length ∧
      (0 < tally raised (update g i (some y)) c.tasks.length →
        0 ≤ s.level ∧ level c'.state ≤ config.maxDepth) := by
  have htal := tally_update (P := raised) (g := g) hlt (some y)
  rw [hx, any_some, any_some] at htal
  have hdep := hbalance.depth
  have hbou := hbalance.bounded
  have hmax := config.maxDepth_lt
  by_cases hcmd : ∃ k, cmd = .hincrby .depth k
  · obtain ⟨k, rfl⟩ := hcmd
    rcases hal with ⟨rfl, hph⟩ | ⟨rfl, hph⟩
    · -- The call is counted.
      have hxra : x.raised = false := by rw [raised, hph]; rfl
      have hyra : y.raised = true := by rw [hy]; rfl
      rw [hxra, hyra, if_pos rfl, if_neg Bool.false_ne_true] at htal
      obtain ⟨hnon, hless⟩ := hsha rfl
      have hfi : isI64 (level c.state + 1) = true :=
        isI64_of_bounds (by omega) (by omega)
      have hlev : level c'.state = level c.state + 1 := by
        rw [answer_hincrby_depth rfl hfi] at hans
        rw [← (Prod.mk.inj hans).2]
        rfl
      omega
    · -- The call is not counted any more.
      have hxra : x.raised = true := by rw [raised, hph]; rfl
      have hyra : y.raised = false := by rw [hy]; rfl
      rw [hxra, hyra, if_pos rfl, if_neg Bool.false_ne_true] at htal
      have hfi : isI64 (level c.state + (-1)) = true :=
        isI64_of_bounds (by omega) (by omega)
      have hlev : level c'.state = level c.state + (-1) := by
        rw [answer_hincrby_depth rfl hfi] at hans
        rw [← (Prod.mk.inj hans).2]
        rfl
      omega
  · have hne : ∀ k, cmd ≠ .hincrby .depth k := fun k h => hcmd ⟨k, h⟩
    have hlev : State.level c'.state = State.level c.state := by
      have hlev := level_answer (s := c.state) hal hne
      rw [hans] at hlev
      exact hlev hliv
    have hrai : y.raised = x.raised := by
      rw [hy]
      exact raised_after hal hne
    have hsa : tally raised (update g i (some y)) c.tasks.length =
        tally raised g c.tasks.length := by
      rw [hrai] at htal
      omega
    rw [hlev, hsa]
    exact ⟨hdep, hbou⟩

end

end

/-! ## All runs -/

section

variable {s : State} {h : List (Step (proxySystem config))} {c : Config (proxySystem config)}
  {g : Nat → Option Caller} {st : Step (proxySystem config)} {i : Nat}

theorem changes_snoc (h : List (Step (proxySystem config))) (st : Step (proxySystem config))
    (i : Nat) : changes (h ++ [st]) i = changes h i + if changedBy i st = true then 1 else 0 := by
  rw [changes, countP_append, countP_singleton]
  rfl

/-- What a call has changed in the run is what it knows to have changed. -/
structure Tracked (h : List (Step (proxySystem config))) (c : Config (proxySystem config))
    (g : Nat → Option Caller) : Prop where
  known : ∀ i x, g i = some x → changes h i = x.phase.changes
  fresh : ∀ i, c.tasks.length ≤ i → changes h i = 0

theorem Tracked.kept {a : Action ProxyRequest} {c' : Config (proxySystem config)}
    {g' : Nat → Option Caller} (htra : Tracked h c g) (hact : ∀ i o, a ≠ .run i o)
    (hlen : c.tasks.length ≤ c'.tasks.length)
    (hg : ∀ j y, g' j = some y → g j = some y ∨ c.tasks.length ≤ j ∧ y.phase.changes = 0) :
    Tracked (h ++ [⟨c, a, c'⟩]) c' g' := by
  have hsa : ∀ j, changes (h ++ [⟨c, a, c'⟩]) j = changes h j := by
    intro j
    rw [changes_snoc]
    cases a with
    | run i o => exact absurd rfl (hact i o)
    | _ => rfl
  constructor
  · intro j y hy
    rw [hsa]
    rcases hg j y hy with hy | ⟨hle, hzero⟩
    · exact htra.known j y hy
    · rw [htra.fresh j hle, hzero]
  · intro j hj
    rw [hsa]
    exact htra.fresh j (le_trans hlen hj)

theorem inductive_tracked {Meets : Step (proxySystem config) → Prop} :
    Inductive (proxySystem config) editing ⟨s, []⟩ ProxyRequest.start
      (fun q x _ => Closed config q x) Meets Tracked := by
  constructor
  case spawn =>
    intro h c g q c' hru hc' hmt hkn hg
    subst hc'
    refine hg.kept nofun (by simp) fun j y hy => ?_
    rcases update_some hy with ⟨hj, rfl⟩ | ⟨hj, hy⟩
    · exact .inr ⟨hj.ge, by cases q <;> rfl⟩
    · exact .inl hy
  case run =>
    intro h c g i o q cmd k x r s' c' hru hta hexec hc' hx hal hmt hkn hg
    have hnext := next_of_getElem? hta
    have hlt := (List.getElem?_eq_some_iff.1 hta).1
    -- Only the task that runs counts.
    have hoth : ∀ j, j ≠ i → changes (h ++ [⟨c, .run i o, c'⟩]) j = changes h j := by
      intro j hj
      have hcha : changedBy j ⟨c, .run i o, c'⟩ = false := by
        change (i == j && _) = false
        rw [beq_false_of_ne (Ne.symm hj), Bool.false_and]
      rw [changes_snoc, hcha]
      rfl
    constructor
    · intro j y hy
      rcases update_some hy with ⟨hj, rfl⟩ | ⟨hj, hy⟩
      · have hcha : changedBy i ⟨c, .run i o, c'⟩ = cmd.changesFrames := by
          change (i == i && (c.next i).any changesFrames) = _
          rw [beq_self_eq_true, Bool.true_and, hnext, any_some]
        rw [hj, changes_snoc, hcha, hg.known i x hx]
        exact (changes_after hal).symm
      · rw [hoth j hj]
        exact hg.known j y hy
    · intro j hj
      rw [hc', length_set] at hj
      rw [hoth j (by omega)]
      exact hg.fresh j hj
  case drop =>
    intro h c g i q cmd k c' hru hta hc' hmt hkn hg
    subst hc'
    exact hg.kept nofun (by simp) fun j y hy => .inl (update_none hy).2
  case crash =>
    intro h c g c' hru hc' hmt hkn hg
    subst hc'
    exact hg.kept nofun (by simp) fun j y hy => .inl (of_crash hy).2

theorem Spared.snoc (hspa : Spared (h ++ [st])) :
    Spared h ∧ ∀ i, Interrupts st i → changes h i = 0 ∨ changes h i = 4 := by
  constructor
  · intro m st' i hst hinte
    have hle : m ≤ h.length := le_of_lt (List.getElem?_eq_some_iff.1 hst).1
    have hspa := hspa m st' i (getElem?_snoc hst st) hinte
    rwa [take_append_of_le_length hle] at hspa
  · intro i hinte
    have hspa := hspa h.length st i getElem?_concat_length hinte
    rwa [take_left] at hspa

theorem inductive_balance :
    Inductive (proxySystem config) editing ⟨s, []⟩ ProxyRequest.start
      (fun q x _ => Closed config q x) Unwinds fun h c g => ((Views c g ∧
        ∀ i x, g i = some x → ∃ q, c.request i = some q ∧ Bounded config q x) ∧ Tracked h c g) ∧
          (Spared h → ∃ ts, Balance s ts c g) := by
  have hvie : Inductive (proxySystem config) editing ⟨s, []⟩ ProxyRequest.start
      (fun q x _ => Closed config q x) Tidy fun _ c g => Views c g :=
    inductive_views (fun q y r h => h.1) fun q h => h (by cases q <;> rfl)
  have hbase := ((hvie.of_meets fun st (hst : Unwinds st) => hst.toTidy).and
    inductive_bounded).and inductive_tracked
  constructor
  case spawn =>
    intro h c g q c' hru hc' hmt hkn hg
    refine ⟨hbase.spawn h c g q c' hru hc' hmt hkn hg.1, fun hspa => ?_⟩
    obtain ⟨ts, hbalance⟩ := hg.2 hspa.snoc.1
    subst hc'
    exact ⟨ts, hbalance.spawn rfl (by simp) (.inl (by cases q <;> rfl))⟩
  case run =>
    intro h c g i o q cmd k x r s' c' hru hta hexec hc' hx hal hmt hkn hg
    refine ⟨hbase.run h c g i o q cmd k x r s' c' hru hta hexec hc' hx hal hmt hkn hg.1,
      fun hspa => ?_⟩
    obtain ⟨ts, hbalance⟩ := hg.2 hspa.snoc.1
    obtain ⟨q', -, hbou⟩ := hg.1.1.2 i x hx
    have hlt := (List.getElem?_eq_some_iff.1 hta).1
    have hturn := hmt.turn hexec (congrArg state hc') hal
    obtain rfl : o = .done := hmt.done i o rfl
    have hans := answer_of_exec hexec
    have hlen : c'.tasks.length = c.tasks.length := by rw [hc', length_set]
    obtain rfl : c'.state = s' := congrArg state hc'
    obtain ⟨ts', hchn, hnam, hfra⟩ := hbalance.turn hg.1.1.1 hx hlt hturn hbou.named
    obtain ⟨hdep, hle⟩ := hbalance.level hx hlt hal rfl hans hmt.lives fun hcmd =>
      hmt.shallow i .done rfl (hcmd ▸ next_of_getElem? hta)
    exact ⟨ts', hchn, hnam, hlen.symm ▸ hfra, hlen.symm ▸ hdep, hlen.symm ▸ hle⟩
  case drop =>
    intro h c g i q cmd k c' hru hta hc' hmt hkn hg
    refine ⟨hbase.drop h c g i q cmd k c' hru hta hc' hmt hkn hg.1, fun hspa => ?_⟩
    obtain ⟨hspa, hlast⟩ := hspa.snoc
    obtain ⟨ts, hbalance⟩ := hg.2 hspa
    refine ⟨ts, hbalance.interrupt (by rw [hc']; rfl) (by rw [hc', length_set]) fun j => ?_⟩
    by_cases hj : j = i
    · subst hj
      refine .inr ⟨update_self .., fun x hx => ?_⟩
      have hch := hlast j (.inl rfl)
      rwa [hg.1.2.known j x hx] at hch
    · exact .inl (update_of_ne hj ..)
  case crash =>
    intro h c g c' hru hc' hmt hkn hg
    refine ⟨hbase.crash h c g c' hru hc' hmt hkn hg.1, fun hspa => ?_⟩
    obtain ⟨hspa, hlast⟩ := hspa.snoc
    obtain ⟨ts, hbalance⟩ := hg.2 hspa
    refine ⟨ts, hbalance.interrupt (by rw [hc']; rfl) (by rw [hc', length_map]) fun j => ?_⟩
    by_cases hans : (c.answer j).isSome = true
    · exact .inl (if_pos hans)
    · refine .inr ⟨if_neg hans, fun x hx => ?_⟩
      have hrun : (c.next j).isSome = true := by
        by_contra hnone
        obtain ⟨q, r, -, hr, -⟩ := hkn.answered hx (not_isSome_iff_eq_none.1 hnone)
        exact hans (by rw [hr]; rfl)
      have hch := hlast j (.inr ⟨rfl, hrun⟩)
      rwa [hg.1.2.known j x hx] at hch

/-- **Calls that go through leave the flow as it was.** If every call that may call its agent
reaches it and is not interrupted in between, and no call is too deep when it is written down, then
the depth and the chain are what they were once all calls have ended. -/
theorem unwound (hruns : Runs ⟨s, []⟩ h c) (hunwinds : ∀ st ∈ h, Unwinds st) (hspared : Spared h)
    (hended : ∀ i, c.next i = none) :
    level c.state = s.level ∧ chain c.state = s.chain := by
  have hst : Balance s [] (⟨s, []⟩ : Config (proxySystem config)) fun _ => none :=
    ⟨rfl, nofun, rfl, (Int.add_zero _).symm, fun h => absurd h (lt_irrefl 0)⟩
  obtain ⟨g, hkn, ⟨⟨-, hbou⟩, -⟩, hbalance⟩ := inductive_balance.holds
    (follows_handleProxy config) rfl
    ⟨⟨⟨⟨nofun, nofun⟩, nofun⟩, nofun, fun _ _ => rfl⟩, fun _ => ⟨[], hst⟩⟩ hruns hunwinds
  obtain ⟨ts, hbalance⟩ := hbalance hspared
  -- Whoever has ended is settled.
  have hset : ∀ i x, g i = some x → x.phase.settled := by
    intro i x hx
    obtain ⟨q, r, hreq, -, hclo⟩ := hkn.answered hx (hended i)
    obtain ⟨q', hreq', hfact⟩ := hbou i x hx
    cases hreq.symm.trans hreq'
    rcases hclo.2 hfact.reaches with hset | hoff | ⟨hph, n, hn, hdeep⟩
    · exact hset
    · exact nomatch hfact.online.symm.trans hoff
    · have hle := hfact.shallow (by rw [hph]; rfl) n hn
      exact absurd hdeep (not_lt.2 hle)
  have hzero : ∀ {P : Caller → Bool}, (∀ x : Caller, x.phase.settled → P x = false) →
      tally P g c.tasks.length = 0 := by
    intro P hP
    refine tally_eq_zero fun j _ => ?_
    cases hx : g j with
    | none => rfl
    | some x => exact hP x (hset j x hx)
  have hfra := hbalance.frames
  rw [hzero fun x hx => (of_settled hx).1] at hfra
  obtain rfl := length_eq_zero_iff.1 hfra
  refine ⟨?_, hbalance.chain⟩
  rw [hbalance.depth, hzero fun x hx => (of_settled hx).2]
  exact Int.add_zero _

end

/-! ## Two runs -/

def ProxiedCall.reached (q : ProxiedCall) : Bool :=
  found q.record && q.bodyFits && q.session.toBool && q.answers
where
  found : Except ResolveError Bool → Bool
    | .ok stored => q.live || stored
    | .error _ => false

theorem reaches_of_eval (hev : q.reached = true) : q.reaches := by
  simp only [ProxiedCall.reached, and_eq_true] at hev
  obtain ⟨⟨⟨hfd, hfi⟩, hsess⟩, hansw⟩ := hev
  cases hrec : q.record with
  | error e =>
    rw [hrec] at hfd
    cases hfd
  | ok stored =>
    rw [hrec] at hfd
    refine ⟨stored, hrec, hfd, hfi, ?_, hansw⟩
    cases hq : q.session with
    | error status =>
      rw [hq] at hsess
      cases hsess
    | ok a => rfl

/-- Does the step meet what has to hold? -/
def unwinds : Bool :=
  tidy st && decide (0 ≤ State.level st.before.state) &&
    decide (State.level st.before.state < config.maxDepth) && reaches st.action
where
  reaches : Action ProxyRequest → Bool
    | .spawn (.call q) => !q.canAccess || q.reached
    | _ => true

theorem unwinds_of_eval {st : Step (proxySystem config)} (hev : unwinds st = true) :
    Unwinds st := by
  simp only [unwinds, and_eq_true, decide_eq_true_eq] at hev
  obtain ⟨⟨⟨htidy, hnon⟩, hlt⟩, hrea⟩ := hev
  refine ⟨tidy_of_eval htidy, fun q hact hacc => ?_, fun _ _ _ _ => ⟨hnon, hlt⟩⟩
  rw [hact, unwinds.reaches, hacc] at hrea
  exact reaches_of_eval hrea

/-- Are there no interruptions but those that do no harm? -/
def spares (past : List (Step (proxySystem config))) : Action ProxyRequest → Bool
  | .drop i => changes past i == 0 || changes past i == 4
  | .crash => false
  | _ => true

def spared (h : List (Step (proxySystem config))) : Bool :=
  (List.range h.length).all fun m => (h[m]?).all fun st => spares (h.take m) st.action

theorem spared_of_eval {h : List (Step (proxySystem config))} (hev : spared h = true) :
    Spared h := by
  intro m st i hst hinte
  have hm := List.all_eq_true.1 hev m (List.mem_range.2 (List.getElem?_eq_some_iff.1 hst).1)
  rw [hst, all_some] at hm
  rcases hinte with hact | ⟨hact, -⟩
  · rw [hact] at hm
    simpa [spares] using hm
  · rw [hact] at hm
    cases hm

def allEnded (c : Config (proxySystem config)) : Bool :=
  (List.range c.tasks.length).all fun i => (c.next i).isNone

theorem next_of_allEnded {c : Config (proxySystem config)} (hev : allEnded c = true) (i : Nat) :
    c.next i = none := by
  by_cases hi : i < c.tasks.length
  · exact isNone_iff_eq_none.1 (all_eq_true.1 hev i (mem_range.2 hi))
  · rw [Config.next, getElem?_eq_none (not_lt.1 hi), bind_none]

def healthyCall (agentId : Uuid) : ProxiedCall :=
  ⟨agentId, true, .ok true, true, true, .ok (), true, true⟩

def stoppedCall (agentId : Uuid) : ProxiedCall :=
  { healthyCall agentId with record := .error .notRunning }

/-- A client goes away before its call is checked; an agent calls another one while it is at work;
its own client goes away when it has answered. -/
def cascade : List (Action ProxyRequest) :=
  List.flatten [[.spawn (.call (healthyCall 1)), .drop 0, .spawn (.call (healthyCall 2))],
    turns 1 20, [.spawn (.call (healthyCall 3))], turns 2 25, turns 1 4, [.drop 1]]

def stoppedAgent : List (Action ProxyRequest) :=
  .spawn (.call (stoppedCall 1)) :: turns 0 15

theorem cascade_unwound :
    ∃ (h : List (Step (proxySystem .default))) (c : _), Runs ⟨freshFlow, []⟩ h c ∧
      h.all unwinds = true ∧ spared h = true ∧ allEnded c = true ∧ changes h 1 = 4 ∧
      level c.state = 0 ∧ chain c.state = "orchestrator" := by
  obtain ⟨h, c, hru, hunw, hspa, hend, hch⟩ := exists_runs
    (⟨freshFlow, []⟩ : Config (proxySystem .default)) cascade
    (fun h c => h.all unwinds = true ∧ spared h = true ∧ allEnded c = true ∧ changes h 1 = 4)
    (by decide +kernel)
  have hsa := unwound hru (fun st hst => unwinds_of_eval (all_eq_true.1 hunw st hst))
    (spared_of_eval hspa) (next_of_allEnded hend)
  exact ⟨h, c, hru, hunw, hspa, hend, hch, hsa.1, hsa.2⟩

/-- **A call that does not reach its agent leaves its frame in the chain.** -/
theorem frame_left :
    ∃ (h : List (Step (proxySystem .default))) (c : _), Runs ⟨freshFlow, []⟩ h c ∧
      allEnded c = true ∧ c.answer 0 = some (.ok (.error .serviceUnavailable)) ∧
      level c.state ≠ freshFlow.level ∧ chain c.state ≠ freshFlow.chain :=
  exists_runs _ stoppedAgent _ (by decide +kernel)

end Nasiko.Flow
