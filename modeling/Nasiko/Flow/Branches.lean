import Nasiko.Flow.Frames

/-!
# Parallel branches of a flow

Any number of calls run in one flow, each of which asks the guard (`check`), writes its frame onto
the chain (`record_invocation`), calls the agent and takes the last frame off the chain
(`record_return`). The guard reads the chain, changes it and writes it back with single commands,
and it takes off whatever frame is the last one. So two calls may overwrite each other's frames, and
a call may take off the frame of another: `frame_lost`.

If no two edits of the chain overlap, and a call returns only when it is the latest one in progress,
then the chain is the stack of the calls in progress: `Stack`. Main result: `branches_refused`.
-/

namespace Nasiko.Flow

open Concurrency Program List Function Bool Prod State Nat Command Config Phase Action Caller

/-! ## Calls -/

/-- A call of an agent; time passes as well. -/
inductive Branch where
  | call (target : Str)
  | pass (millis : Nat) (utc : Int)
  deriving DecidableEq

variable (config : FlowConfig)

/-- A call of an agent under the guard. The frame is taken off whether or not the call succeeded. -/
def guardedCall (target : Str) : Prog (Except FlowRejection Unit) := do
  match ← check config target with
  | .error rejection => pure (.error rejection)
  | .ok () =>
    match ← recordInvocation config target with
    | .error rejection => pure (.error rejection)
    | .ok () => do
      perform (callAgent target)
      recordReturn
      pure (.ok ())

def handleBranch : Branch → Prog (Except FlowRejection Unit)
  | .call target => guardedCall config target
  | .pass millis utc => do
    perform (pass millis utc)
    pure (.ok ())

abbrev branchSystem := flowSystem (handleBranch config)

variable {config}

/-! ## The calls in progress -/

/-- A call writes the chain twice: when it begins and when it ends. -/
def enter (calls : List Nat) (st : Step (branchSystem config)) : List Nat :=
  match st.action with
  | .run i _ =>
    if (st.before.next i).any setsChain then
      if i ∈ calls then calls.erase i else i :: calls
    else calls
  | _ => calls

/-- The calls that have written their frame and have not taken a frame off yet, the latest one
first. -/
def inProgress (h : List (Step (branchSystem config))) : List Nat := h.foldl enter []

/-- What each step has to meet: edits do not overlap, names fit into the chain, and whoever checks
is not too deep to be told of a cycle. -/
structure Polite (st : Step (branchSystem config)) : Prop extends Tidy st where
  named : ∀ t, st.action = .spawn (.call t) → IsName t
  shallow : ∀ i o, st.action = .run i o → st.before.next i = some (.hgetCounter .depth) →
    asRead 32 (State.hash st.before.state).depth < config.maxDepth

/-- A call that reads the chain to take its frame off is the latest one in progress. -/
def LatestFirst (h : List (Step (branchSystem config))) : Prop :=
  ∀ m st i o, h[m]? = some st → st.action = .run i o → Edits st i → i ∈ inProgress (h.take m) →
    (inProgress (h.take m)).head? = some i

/-- The check of a call reads the chain while another call of the same agent is in progress. -/
structure CallsBack (st : Step (branchSystem config)) (j : Nat) (t : Str) : Prop where
  action : ∃ o, st.action = .run j o
  next : st.before.next j = some .hgetChain
  checks : ¬ Edits st j
  request : st.before.request j = some (.call t)
  inProgress : ∃ i, st.before.next i = some (.callAgent t)

/-! ## What a call knows -/

def startOf : Branch → Caller
  | .call t => .start t
  | .pass _ _ => ⟨[], .popped, none, false⟩

/-- What a call knows all the time. -/
def Fact (config : FlowConfig) : Branch → Caller → Prop
  | .call t, x => x.target = t ∧ IsName t ∧
    ∀ seen n, x.phase = .checking seen → x.depth = some n → n < config.maxDepth
  | .pass _ _, x => x.phase = .popped

/-- What a call knows in the end. -/
def Ended (config : FlowConfig) (q : Branch) (x : Caller)
    (r : Except RedisError (Except FlowRejection Unit)) : Prop :=
  ¬ x.writes ∧ ∀ t seen, q = .call t → x.phase = .checking (some seen) → t ∈ seen →
    (∃ n, x.depth = some n ∧ config.maxDepth ≤ n) ∨ r = .ok (.error (.cycleDetected t seen))

variable {x : Caller} {t chain : Str} {r : Except RedisError (Except FlowRejection Unit)}
  {st : Step (branchSystem config)} {o : Outcome} {j : Nat} {cmd : Command} {s : State}

theorem ended_of_phase {q : Branch} {phase : Phase} (hph : x.phase = phase)
    (hvi : phase.view = none) (hse : ∀ seen, phase ≠ .checking (some seen))
    (r : Except RedisError (Except FlowRejection Unit)) : Ended config q x r :=
  ⟨fun h => h (hph ▸ hvi), fun _ seen _ h => absurd (hph.symm.trans h) (hse seen)⟩

theorem Checked.ended (hx : Checked config t x r) : Ended config (.call t) x r := by
  obtain ⟨seen, hph⟩ := hx.phase
  refine ⟨fun h => h (congrArg view hph), ?_⟩
  rintro u seen' ⟨⟩ hse hmem
  exact hx.cycle seen' hse hmem

theorem Recorded.ended (hx : Recorded config t x r)
    (r' : Except RedisError (Except FlowRejection Unit)) : Ended config (.call t) x r' := by
  rcases hx.phase with ⟨seen, hph, ht⟩ | hph | hph
  · refine ⟨fun h => h (congrArg view hph), ?_⟩
    rintro u seen' ⟨⟩ hse hmem
    cases hph.symm.trans hse
    exact absurd hmem ht
  all_goals exact ended_of_phase hph rfl (fun _ => nofun) _

theorem follows_called (htgt : x.target = t) (hph : x.phase = .pushed) : Follows editing x (do
      perform (callAgent t)
      recordReturn
      pure (Except.ok ())) (Ended config (.call t)) := by
  refine follows_perform_bind ⟨hph, htgt.symm⟩
    (fun e => ended_of_phase hph rfl (fun _ => nofun) _) fun a => ?_
  have hy : Caller.At t x.depth .pushed (editing.after x (.callAgent t) (.ok a)) :=
    ⟨htgt, rfl, hph⟩
  refine follows_bind.2 ((follows_recordReturn hy).mono fun y r hy => ?_)
  have hend : ∀ r', Ended config (.call t) y r' := by
    rcases hy with ⟨hy, -⟩ | hy <;> exact ended_of_phase hy rfl (fun _ => nofun)
  cases r with
  | error e | ok a => exact hend _

theorem follows_handleBranch (config : FlowConfig) (q : Branch) :
    Follows editing (startOf q) (handleBranch config q) (Ended config q) := by
  cases q with
  | pass millis utc =>
    have hpass : editing.allow (startOf (.pass millis utc)) (.pass millis utc) := fun h => h rfl
    refine follows_perform_bind hpass (fun e => ?_) fun a => ?_
    all_goals exact ended_of_phase (rfl : phase _ = .popped) rfl (fun _ => nofun) _
  | call t =>
    refine follows_bind.2 ((follows_check config ⟨rfl, rfl, rfl⟩).mono fun x r hx => ?_)
    match r with
    | .error _ | .ok (.error _) => exact hx.ended
    | .ok (.ok ()) =>
      obtain ⟨seen, hph, ht⟩ := hx.accepted rfl
      refine follows_bind.2 ((follows_recordInvocation_editing config ht
        ⟨hx.target, rfl, hph⟩).mono fun y r hy => ?_)
      match r with
      | .error _ | .ok (.error _) => exact hy.ended _
      | .ok (.ok ()) => exact follows_called hy.target (hy.accepted rfl)

theorem inductive_facts :
    Inductive (branchSystem config) editing ⟨s, []⟩ startOf (Ended config) Polite fun _ c g =>
      ∀ i x, g i = some x → ∃ q, c.request i = some q ∧ Fact config q x := by
  refine inductive_task (fun c q c' hmt => ?_) fun c i o c' q cmd x r s' hmt hnx hec hal hx => ?_
  · cases q with
    | call t => exact ⟨rfl, hmt.named t rfl, nofun⟩
    | pass millis utc => rfl
  · cases q with
    | call t =>
      refine ⟨hx.1, hx.2.1, fun seen n hph hn => ?_⟩
      obtain ⟨seen', hph'⟩ := checking_of_after hph
      -- In the check, only one command tells the depth.
      by_cases hcmd : cmd = .hgetCounter .depth
      · subst hcmd
        obtain rfl : o = .done := hmt.done i o rfl
        cases answer_of_exec hec
        cases hn
        exact hmt.shallow i .done rfl hnx
      · refine hx.2.2 seen' n hph' (Eq.trans ?_ hn)
        cases cmd with
        | hgetCounter f =>
          cases f with
          | depth => exact absurd rfl hcmd
          | _ => rfl
        | hincrby f k =>
          cases f with
          | depth =>
            rcases hal with ⟨-, h⟩ | ⟨-, h⟩ <;> exact nomatch hph'.symm.trans h
          | _ => rfl
        | _ => rfl
    | pass millis utc =>
      exact (Caller.Final.phase_after (.inl hx) hal r).trans hx

/-! ## The chain is a stack -/

theorem mem_frames_stacked {ts : List Str} (hnm : ∀ t ∈ ts, IsName t) (ht : t ∈ ts) :
    t ∈ frames (stacked chain ts) := by
  induction ts with
  | nil => cases ht
  | cons u ts ih =>
    rw [stacked, frames_extend _ (hnm u mem_cons_self), mem_append, mem_singleton]
    rcases mem_cons.1 ht with rfl | ht
    · exact .inr rfl
    · exact .inl (ih (fun u hu => hnm u (mem_cons_of_mem _ hu)) ht)

/-- The chain is the one at the start with the frames of the calls in progress on it. -/
structure Stack (s : State) (calls : List (Nat × Str)) (h : List (Step (branchSystem config)))
    (c : Config (branchSystem config)) (g : Nat → Option Caller) : Prop where
  order : calls.map Prod.fst = inProgress h
  chain : State.chain c.state = stacked s.chain (calls.map Prod.snd)
  named : ∀ t ∈ calls.map Prod.snd, IsName t
  nodup : (calls.map Prod.fst).Nodup
  below : ∀ i ∈ calls.map Prod.fst, i < c.tasks.length
  present : ∀ i x, g i = some x → x.phase.holds = true → (i, x.target) ∈ calls
  absent : ∀ i x, g i = some x → x.phase.holds = false → i ∉ calls.map Prod.fst
  top : ∀ i x chain, g i = some x → x.phase = .popping chain →
    ∃ rest, calls = (i, x.target) :: rest

section

variable {s : State} {calls : List (Nat × Str)} {h : List (Step (branchSystem config))}
  {c c' : Config (branchSystem config)} {g g' : Nat → Option Caller}
  {st : Step (branchSystem config)}

theorem inProgress_snoc (h : List (Step (branchSystem config))) (st : Step (branchSystem config)) :
    inProgress (h ++ [st]) = enter (inProgress h) st := by
  rw [inProgress, foldl_append]
  rfl

/-- A step that changes neither the chain nor what the calls that go on know of it. -/
theorem Stack.kept (hstk : Stack s calls h c g) (hent : enter (inProgress h) st = inProgress h)
    (hch : State.chain c'.state = State.chain c.state) (hlen : c.tasks.length ≤ c'.tasks.length)
    (hg : ∀ i y, g' i = some y → c.tasks.length ≤ i ∧ y.phase.holds = false ∨
      ∃ x, g i = some x ∧ y.target = x.target ∧ y.phase.holds = x.phase.holds)
    (htop : ∀ i y chain, g' i = some y → y.phase = .popping chain →
      ∃ rest, calls = (i, y.target) :: rest) : Stack s calls (h ++ [st]) c' g' where
  order := by rw [inProgress_snoc, hent, hstk.order]
  chain := hch.trans hstk.chain
  named := hstk.named
  nodup := hstk.nodup
  below i hi := lt_of_lt_of_le (hstk.below i hi) hlen
  present i y hy hh := by
    rcases hg i y hy with ⟨-, hnot⟩ | ⟨x, hx, htgt, hsame⟩
    · exact nomatch hnot.symm.trans hh
    · rw [htgt]
      exact hstk.present i x hx (hsame ▸ hh)
  absent i y hy hh := by
    rcases hg i y hy with ⟨hnew, -⟩ | ⟨x, hx, -, hsame⟩
    · exact fun hmem => absurd (hstk.below i hmem) (not_lt.2 hnew)
    · exact hstk.absent i x hx (hsame ▸ hh)
  top := htop

/-- The command that a step runs decides whether a call begins or ends. -/
theorem enter_run {i : Nat} (hnx : c.next i = some cmd) (calls : List Nat) :
    enter calls ⟨c, .run i o, c'⟩ =
      if cmd.setsChain then if i ∈ calls then calls.erase i else i :: calls else calls := by
  change (if (c.next i).any setsChain then _ else _) = _
  rw [hnx, Option.any_some]

variable {i : Nat} {o : Outcome} {x y : Caller} {cmd : Command}

theorem setsChain_eq_true (hal : editing.allow x cmd) (hx : x.writes) : cmd.setsChain = true := by
  obtain ⟨chain, rfl⟩ := (writes_iff hal).1 hx
  rfl

theorem setsChain_eq_false (hal : editing.allow x cmd) (hx : ¬ x.writes) :
    cmd.setsChain = false := by
  cases cmd with
  | hsetChain chain => exact absurd ((writes_iff hal).2 ⟨chain, rfl⟩) hx
  | _ => rfl

/-- When the only call that was about to write has written, nobody is about to take a frame off. -/
theorem not_popping {z : Caller} (halo : ∀ j z, g j = some z → j ≠ i → ¬ z.writes)
    (hvi : y.phase.view = none) (hz : update g i (some y) j = some z) :
    z.phase ≠ .popping chain := by
  intro hpop
  have hwr : z.writes := fun h => nomatch (congrArg view hpop).symm.trans h
  rcases update_some hz with ⟨rfl, rfl⟩ | ⟨hj, hz⟩
  · exact hwr hvi
  · exact halo j z hz hj hwr

theorem Stack.push (hstk : Stack s calls h c g) (hx : g i = some x) (hlt : i < c.tasks.length)
    (hna : IsName x.target) (hnot : x.phase.holds = false)
    (hent : enter (inProgress h) st = i :: inProgress h)
    (hch : State.chain c'.state = extend (State.chain c.state) x.target)
    (hlen : c'.tasks.length = c.tasks.length) (htgt : y.target = x.target)
    (hph : y.phase = .pushed) (halo : ∀ j z, g j = some z → j ≠ i → ¬ z.writes) :
    Stack s ((i, x.target) :: calls) (h ++ [st]) c' (update g i (some y)) where
  order := by rw [inProgress_snoc, hent, map_cons, hstk.order]
  chain := by rw [hch, hstk.chain, map_cons, stacked]
  named t ht := by
    rcases mem_cons.1 ht with rfl | ht
    · exact hna
    · exact hstk.named t ht
  nodup := nodup_cons.2 ⟨hstk.absent i x hx hnot, hstk.nodup⟩
  below j hj := by
    rw [hlen]
    rcases mem_cons.1 hj with rfl | hj
    · exact hlt
    · exact hstk.below j hj
  present j z hz hh := by
    rcases update_some hz with ⟨rfl, rfl⟩ | ⟨hj, hz⟩
    · rw [htgt]
      exact mem_cons_self
    · exact mem_cons_of_mem _ (hstk.present j z hz hh)
  absent j z hz hh := by
    rcases update_some hz with ⟨rfl, rfl⟩ | ⟨hj, hz⟩
    · rw [hph] at hh
      cases hh
    · exact fun hmem => (mem_cons.1 hmem).elim hj (hstk.absent j z hz hh)
  top j z chain hz hpop :=
    absurd hpop (not_popping halo (congrArg view hph) hz)

/-- The latest call in progress takes its frame off. -/
theorem Stack.pop (hstk : Stack s ((i, t) :: calls) h c g)
    (hent : enter (inProgress h) st = (inProgress h).tail)
    (hch : State.chain c'.state = shorten (State.chain c.state))
    (hlen : c'.tasks.length = c.tasks.length) (hph : y.phase = .popped)
    (halo : ∀ j z, g j = some z → j ≠ i → ¬ z.writes) :
    Stack s calls (h ++ [st]) c' (update g i (some y)) where
  order := by rw [inProgress_snoc, hent, ← hstk.order, map_cons, tail_cons]
  chain := by
    rw [hch, hstk.chain]
    exact shorten_extend _ (hstk.named t mem_cons_self).noComma
  named u hu := hstk.named u (mem_cons_of_mem _ hu)
  nodup := (nodup_cons.1 hstk.nodup).2
  below j hj := by
    rw [hlen]
    exact hstk.below j (mem_cons_of_mem _ hj)
  present j z hz hh := by
    rcases update_some hz with ⟨rfl, rfl⟩ | ⟨hj, hz⟩
    · rw [hph] at hh
      cases hh
    · rcases mem_cons.1 (hstk.present j z hz hh) with heq | hmem
      · cases heq
        exact absurd rfl hj
      · exact hmem
  absent j z hz hh := by
    by_cases hj : j = i
    · subst hj
      exact (nodup_cons.1 hstk.nodup).1
    · rw [update_of_ne hj] at hz
      exact fun hmem => hstk.absent j z hz hh (mem_cons_of_mem _ hmem)
  top j z chain hz hpop :=
    absurd hpop (not_popping halo (congrArg view hph) hz)

theorem exists_cons_of_head (hnd : (calls.map fst).Nodup)
    (hhead : (calls.map fst).head? = some i) (hmem : (i, t) ∈ calls) :
    ∃ rest, calls = (i, t) :: rest := by
  cases calls with
  | nil => cases hmem
  | cons f rest =>
    rcases mem_cons.1 hmem with rfl | hmem
    · exact ⟨rest, rfl⟩
    · obtain rfl : f.1 = i := Option.some.inj hhead
      exact absurd (mem_map_of_mem hmem) (nodup_cons.1 hnd).1

theorem Stack.run (hstk : Stack s calls h c g) (hvie : Views c g) (hx : g i = some x)
    (hnx : c.next i = some cmd) (hal : editing.allow x cmd)
    (hturn : Turn x c.state c'.state y) (htgt : y.target = x.target) (hlt : i < c.tasks.length)
    (hlen : c'.tasks.length = c.tasks.length) (hna : x.writes → IsName x.target)
    (hlat : y.writes → i ∈ inProgress h → (inProgress h).head? = some i) :
    ∃ calls', Stack s calls' (h ++ [⟨c, .run i o, c'⟩]) c' (update g i (some y)) := by
  -- What the calls know if this one does not write.
  have hsame : y.phase.holds = x.phase.holds → ∀ j z, update g i (some y) j = some z →
      c.tasks.length ≤ j ∧ z.phase.holds = false ∨
        ∃ x, g j = some x ∧ z.target = x.target ∧ z.phase.holds = x.phase.holds := by
    intro hh j z hz
    rcases update_some hz with ⟨rfl, rfl⟩ | ⟨hj, hz⟩
    · exact .inr ⟨x, hx, htgt, hh⟩
    · exact .inr ⟨z, hz, rfl, rfl⟩
  have hqui : ¬ x.writes → enter (inProgress h) ⟨c, .run i o, c'⟩ = inProgress h := by
    intro hnot
    rw [enter_run hnx, setsChain_eq_false hal hnot]
    rfl
  cases hturn with
  | other hch hnot hnot' hh =>
    refine ⟨calls, hstk.kept (hqui hnot) hch hlen.ge (hsame hh) fun j z chain hz hpop => ?_⟩
    rcases update_some hz with ⟨rfl, rfl⟩ | ⟨hj, hz⟩
    · exact absurd (fun h => nomatch (congrArg view hpop).symm.trans h) hnot'
    · exact hstk.top j z chain hz hpop
  | looked hch hnot hvi hh =>
    refine ⟨calls, hstk.kept (hqui hnot) hch hlen.ge (hsame hh) fun j z chain hz hpop => ?_⟩
    rcases update_some hz with ⟨rfl, rfl⟩ | ⟨hj, hz⟩
    · -- The call is the latest one, so its frame is the last one.
      have hmem : (j, x.target) ∈ calls := by
        refine hstk.present j x hx (hh.symm.trans ?_)
        rw [hpop]
        rfl
      have hhead : (calls.map fst).head? = some j := by
        rw [hstk.order]
        refine hlat (fun h => nomatch hvi.symm.trans h) ?_
        rw [← hstk.order]
        exact mem_map_of_mem hmem
      rw [htgt]
      exact exists_cons_of_head hstk.nodup hhead hmem
    · exact hstk.top j z chain hz hpop
  | wrote hed hph =>
    have hwr : x.writes := fun h => nomatch (edit_eq_none.2 h).symm.trans hed
    have hcur := hvie.current i x hx hwr
    have halo : ∀ j z, g j = some z → j ≠ i → ¬ z.writes :=
      fun j z hz hj hw => hj (hvie.alone i j x z hx hz hwr hw)
    cases hold : x.phase with
    | pushing chain =>
      rw [hold] at hed hph hcur
      cases hcur
      have hnot : x.phase.holds = false := by rw [hold]; rfl
      have hent : enter (inProgress h) ⟨c, .run i o, c'⟩ = i :: inProgress h := by
        rw [enter_run hnx, setsChain_eq_true hal hwr, if_pos rfl, if_neg]
        rw [← hstk.order]
        exact hstk.absent i x hx hnot
      exact ⟨_, hstk.push hx hlt (hna hwr) hnot hent (Option.some.inj hed).symm hlen
        htgt hph halo⟩
    | popping chain =>
      obtain ⟨rest, rfl⟩ := hstk.top i x chain hx hold
      rw [hold] at hed hph hcur
      cases hcur
      have hord : inProgress h = i :: rest.map fst := hstk.order.symm
      have hent : enter (inProgress h) ⟨c, .run i o, c'⟩ = (inProgress h).tail := by
        rw [enter_run hnx, setsChain_eq_true hal hwr, if_pos rfl, hord,
          if_pos mem_cons_self, erase_cons_head, tail_cons]
      exact ⟨_, hstk.pop hent (Option.some.inj hed).symm hlen hph halo⟩
    | _ =>
      rw [hold] at hed
      cases hed

end

/-! ## All runs -/

section

variable {s : State} {h : List (Step (branchSystem config))} {c : Config (branchSystem config)}
  {g : Nat → Option Caller} {st : Step (branchSystem config)}

theorem LatestFirst.snoc (hlat : LatestFirst (h ++ [st])) :
    LatestFirst h ∧ ∀ i o, st.action = .run i o → Edits st i → i ∈ inProgress h →
      (inProgress h).head? = some i := by
  constructor
  · intro m st' i o hst hact hedi hmem
    have hle : m ≤ h.length := le_of_lt (List.getElem?_eq_some_iff.1 hst).1
    have hlat := hlat m st' i o (getElem?_snoc hst st) hact hedi
    rw [take_append_of_le_length hle] at hlat
    exact hlat hmem
  · intro i o hact hedi hmem
    have hlat := hlat h.length st i o getElem?_concat_length hact hedi
    rw [take_left] at hlat
    exact hlat hmem

theorem LatestFirst.take (hlat : LatestFirst h) (n : Nat) : LatestFirst (h.take n) := by
  intro m st i o hst hact hedi
  have hlt : m < n := by
    have hlt := (List.getElem?_eq_some_iff.1 hst).1
    rw [length_take] at hlt
    omega
  rw [getElem?_take_of_lt hlt] at hst
  rw [take_take, min_eq_left (le_of_lt hlt)]
  exact hlat m st i o hst hact hedi

/-- Who calls back has seen its own target in the chain. -/
def Seen (h : List (Step (branchSystem config))) (g : Nat → Option Caller) : Prop :=
  ∀ st ∈ h, ∀ j t x, CallsBack st j t → g j = some x →
    ∃ seen, x.phase = .checking (some seen) ∧ x.target ∈ seen

/-- The chain is the stack of the calls in progress, and who calls back has seen it. -/
def Ordered (s : State) (h : List (Step (branchSystem config))) (c : Config (branchSystem config))
    (g : Nat → Option Caller) : Prop :=
  LatestFirst h → (∃ calls, Stack s calls h c g) ∧ Seen h g

variable {calls : List (Nat × Str)} {i : Nat} {t : Str} {c' : Config (branchSystem config)}

theorem Stack.mem_frames (hstk : Stack s calls h c g)
    (hkn : Knows (branchSystem config) editing (Ended config) g c)
    (hnx : c.next i = some (.callAgent t)) : t ∈ frames (State.chain c.state) := by
  obtain ⟨x, hx, hph, rfl⟩ := hkn.of_next hnx
  rw [hstk.chain]
  have hmem := hstk.present i x hx (by rw [hph]; rfl)
  exact mem_frames_stacked hstk.named (mem_map_of_mem hmem)

theorem CallsBack.seen {r : Except RedisError (Reply cmd)}
    (hba : CallsBack ⟨c, .run i o, c'⟩ j t) (hstk : Stack s calls h c g)
    (hkn : Knows (branchSystem config) editing (Ended config) g c)
    (hkn' : Knows (branchSystem config) editing (Ended config)
      (update g i (some (editing.after x cmd r))) c') (hnx : c.next i = some cmd)
    (hans : answer c.state cmd = (r, c'.state)) (hal : editing.allow x cmd) (htgt : x.target = t) :
    ∃ seen, (editing.after x cmd r).phase = .checking (some seen) ∧ x.target ∈ seen := by
  obtain ⟨o', hact⟩ := hba.action
  cases hact
  obtain rfl : cmd = .hgetChain := Option.some.inj (hnx.symm.trans hba.next)
  have haft : (editing.after x .hgetChain r).phase = x.phase.read (chain c.state) := by
    have haft := phase_after_hgetChain x c.state
    rwa [hans] at haft
  -- A caller in another phase reads the chain for an edit.
  have hedi : (editing.after x .hgetChain r).phase.view ≠ none → False := fun hvi =>
    hba.checks (next_of_writes (fun _ _ _ h => h.1) hkn' (update_self ..) hvi)
  rcases hal with hph | hph | hph
  · obtain ⟨k, hk⟩ := hba.inProgress
    refine ⟨frames (chain c.state), ?_, htgt ▸ hstk.mem_frames hkn hk⟩
    rw [haft, hph]
    rfl
  all_goals
    rw [haft, hph] at hedi
    exact (hedi nofun).elim

theorem Ordered.kept {a : Action Branch} {g' : Nat → Option Caller} (hord : Ordered s h c g)
    (hru : Runs ⟨s, []⟩ h c) (hact : ∀ i o, a ≠ .run i o) (hsta : c'.state = c.state)
    (hlen : c.tasks.length ≤ c'.tasks.length)
    (hg : ∀ j y, g' j = some y → g j = some y ∨ c.tasks.length ≤ j ∧ ∃ q, y = startOf q) :
    Ordered s (h ++ [⟨c, a, c'⟩]) c' g' := by
  intro hlat
  obtain ⟨⟨calls, hstk⟩, hse⟩ := hord hlat.snoc.1
  constructor
  · have hent : enter (inProgress h) ⟨c, a, c'⟩ = inProgress h := by
      cases a with
      | run i o => exact absurd rfl (hact i o)
      | _ => rfl
    refine ⟨calls, hstk.kept hent (by rw [hsta]) hlen (fun j y hy => ?_) fun j y chain hy hph => ?_⟩
    · rcases hg j y hy with hy | ⟨hle, q, rfl⟩
      · exact .inr ⟨y, hy, rfl, rfl⟩
      · exact .inl ⟨hle, by cases q <;> rfl⟩
    · rcases hg j y hy with hy | ⟨hle, q, rfl⟩
      · exact hstk.top j y chain hy hph
      · cases q <;> cases hph
  · intro st hst j t y hba hy
    rcases mem_append.1 hst with hst | hst
    · rcases hg j y hy with hy | ⟨hle, -⟩
      · exact hse st hst j t y hba hy
      · -- A task that is not there yet cannot have called back.
        obtain ⟨m, hm⟩ := getElem?_of_mem hst
        have hreq := hru.request_of_before hm hba.request
        rw [request, getElem?_eq_none hle] at hreq
        cases hreq
    · obtain rfl := mem_singleton.1 hst
      obtain ⟨o, ho⟩ := hba.action
      exact absurd ho (hact j o)

theorem inductive_ordered :
    Inductive (branchSystem config) editing ⟨s, []⟩ startOf (Ended config) Polite fun h c g =>
      (Views c g ∧ ∀ i x, g i = some x → ∃ q, c.request i = some q ∧ Fact config q x) ∧
        Ordered s h c g := by
  have hvie : Inductive (branchSystem config) editing ⟨s, []⟩ startOf (Ended config) Tidy
      fun _ c g => Views c g :=
    inductive_views (fun q y r h => h.1) fun q h => h (by cases q <;> rfl)
  have hbase := (hvie.of_meets fun st (hst : Polite st) => hst.toTidy).and inductive_facts
  constructor
  case spawn =>
    intro h c g q c' hru hc' hmt hkn hg
    refine ⟨hbase.spawn h c g q c' hru hc' hmt hkn hg.1, ?_⟩
    subst hc'
    refine hg.2.kept hru nofun rfl (by simp) fun j y hy => ?_
    rcases update_some hy with ⟨hj, rfl⟩ | ⟨-, hy⟩
    · exact .inr ⟨hj.ge, q, rfl⟩
    · exact .inl hy
  case run =>
    intro h c g i o q cmd k x r s' c' hru hta hec hc' hx hal hmt hkn hg
    refine ⟨hbase.run h c g i o q cmd k x r s' c' hru hta hec hc' hx hal hmt hkn hg.1,
      fun hlat => ?_⟩
    obtain ⟨hlat, hlast⟩ := hlat.snoc
    obtain ⟨⟨calls, hstk⟩, hse⟩ := hg.2 hlat
    obtain ⟨q', hreq, hfa⟩ := hg.1.2 i x hx
    have hnx := next_of_getElem? hta
    have hturn := hmt.turn hec (congrArg state hc') hal
    obtain rfl : o = .done := hmt.done i o rfl
    have hans := answer_of_exec hec
    have hkn' : Knows (branchSystem config) editing (Ended config)
        (update g i (some (editing.after x cmd r))) c' := by
      obtain ⟨y, hy, hfol⟩ := hkn.running i q _ hta
      obtain rfl : x = y := Option.some.inj (hx.symm.trans hy)
      rw [hc']
      exact hkn.run r s' hta hfol
    have hna : x.writes → IsName x.target := by
      intro hwr
      cases q' with
      | call t => exact hfa.1.symm ▸ hfa.2.1
      | pass millis utc => exact absurd (congrArg view hfa) hwr
    obtain rfl : c'.state = s' := congrArg state hc'
    constructor
    · refine hstk.run hg.1.1 hx hnx hal hturn rfl (List.getElem?_eq_some_iff.1 hta).1
        (by rw [hc', length_set]) hna fun hwr => ?_
      exact hlast i .done rfl (next_of_writes (fun _ _ _ h => h.1) hkn' (update_self ..) hwr)
    · intro st hst j t y hba hy
      rcases mem_append.1 hst with hold | hnew
      · rcases update_some hy with ⟨rfl, rfl⟩ | ⟨-, hy⟩
        · obtain ⟨seen, hph, hmem⟩ := hse st hold j t x hba hx
          have haft := Caller.Final.phase_after (.inr ⟨seen, hph, hmem⟩) hal r
          exact ⟨seen, haft.trans hph, hmem⟩
        · exact hse st hold j t y hba hy
      · obtain rfl := mem_singleton.1 hnew
        obtain ⟨o', hact⟩ := hba.action
        cases hact
        rw [update_self] at hy
        cases hy
        have htgt : x.target = t := by
          cases hreq.symm.trans hba.request
          exact hfa.1
        exact hba.seen hstk hkn hkn' hnx hans hal htgt
  case drop =>
    intro h c g i q cmd k c' hru hta hc' hmt hkn hg
    refine ⟨hbase.drop h c g i q cmd k c' hru hta hc' hmt hkn hg.1, ?_⟩
    subst hc'
    exact hg.2.kept hru nofun rfl (by simp) fun j y hy => .inl (update_none hy).2
  case crash =>
    intro h c g c' hru hc' hmt hkn hg
    refine ⟨hbase.crash h c g c' hru hc' hmt hkn hg.1, ?_⟩
    subst hc'
    exact hg.2.kept hru nofun rfl (by simp) fun j y hy => .inl (of_crash hy).2

theorem exists_ordered (hru : Runs ⟨s, []⟩ h c) (hpol : ∀ st ∈ h, Polite st)
    (hlat : LatestFirst h) :
    ∃ g calls, Knows (branchSystem config) editing (Ended config) g c ∧ Views c g ∧
      (∀ i x, g i = some x → ∃ q, c.request i = some q ∧ Fact config q x) ∧
      Stack s calls h c g ∧ Seen h g := by
  have hstr : Stack s [] ([] : List (Step (branchSystem config))) ⟨s, []⟩ fun _ => none :=
    ⟨rfl, rfl, fun t ht => (not_mem_nil ht).elim, .nil, fun i hi => (not_mem_nil hi).elim,
      nofun, nofun, nofun⟩
  obtain ⟨g, hkn, ⟨hvie, hfac⟩, hord⟩ := inductive_ordered.holds (follows_handleBranch config) rfl
    ⟨⟨⟨nofun, nofun⟩, nofun⟩,
      fun _ => ⟨⟨[], hstr⟩, fun st hst => (not_mem_nil hst).elim⟩⟩ hru hpol
  obtain ⟨⟨calls, hstk⟩, hse⟩ := hord hlat
  exact ⟨g, calls, hkn, hvie, hfac, hstk, hse⟩

/-- What `record_return` does to the chain. -/
theorem frame_removed {m : Nat} {b : Str} (hru : Runs ⟨s, []⟩ h c)
    (hpol : ∀ st ∈ h, Polite st) (hlat : LatestFirst h) (hst : h[m]? = some st)
    (hact : st.action = .run i o) (hnx : st.before.next i = some (.hsetChain b))
    (hreq : st.before.request i = some (.call t)) (hmem : i ∈ inProgress (h.take m)) :
    State.chain st.before.state = extend (State.chain st.after.state) t := by
  obtain ⟨hbef, hstep⟩ := hru.take hst
  obtain ⟨g, calls, hkn, hvie, hfac, hstk, -⟩ :=
    exists_ordered hbef (fun u hu => hpol u (mem_of_mem_take hu)) (hlat.take m)
  obtain ⟨x, hx, hal⟩ := hkn.of_next hnx
  have htgt : x.target = t := by
    obtain ⟨q, hq, hfa⟩ := hfac i x hx
    cases hq.symm.trans hreq
    exact hfa.1
  have hed : x.phase.edit x.target = some b := hal
  have hwr : x.writes := (writes_iff hal).2 ⟨b, rfl⟩
  have hcur := hvie.current i x hx hwr
  have haft : chain st.after.state = b := by
    rw [hact] at hstep
    obtain rfl : o = .done := (hpol st (mem_of_getElem? hst)).done i o hact
    obtain ⟨q, cmd, k, r, s', hta, hec, haft⟩ := step_run hstep
    obtain rfl : cmd = .hsetChain b :=
      Option.some.inj ((next_of_getElem? hta).symm.trans hnx)
    cases answer_of_exec hec
    rw [haft]
    rfl
  cases hph : x.phase with
  | popping chain =>
    obtain ⟨rest, rfl⟩ := hstk.top i x chain hx hph
    have hna := hstk.named x.target mem_cons_self
    rw [hph] at hed hcur
    cases hcur
    rw [haft, ← Option.some.inj hed, hstk.chain, map_cons, stacked, htgt]
    rw [shorten_extend _ (htgt ▸ hna.noComma)]
  | pushing chain =>
    rw [← hstk.order] at hmem
    exact absurd hmem (hstk.absent i x hx (by rw [hph]; rfl))
  | _ =>
    rw [hph] at hed
    cases hed

/-- **Calls that take turns are told of cycles.** If the edits of the chain do not overlap and each
call returns before the calls that were in progress when it began, an agent at work is in the chain,
a return takes the call's own frame off the end of the chain, and a call back to an agent at work is
refused. -/
theorem branches_refused (hruns : Runs ⟨s, []⟩ h c) (hpolite : ∀ st ∈ h, Polite st)
    (hlatest : LatestFirst h) :
    (∀ i t, c.next i = some (.callAgent t) → t ∈ frames (State.chain c.state)) ∧
    (∀ m st i o t b, h[m]? = some st → st.action = .run i o →
      st.before.next i = some (.hsetChain b) → st.before.request i = some (.call t) →
      i ∈ inProgress (h.take m) →
      State.chain st.before.state = extend (State.chain st.after.state) t) ∧
    ∀ st ∈ h, ∀ j t, CallsBack st j t → (∀ u, c.next j ≠ some (.callAgent u)) ∧
      ∀ r, c.answer j = some r → ∃ seen, r = .ok (.error (.cycleDetected t seen)) := by
  obtain ⟨g, calls, hkn, -, hfac, hstk, hse⟩ := exists_ordered hruns hpolite hlatest
  refine ⟨fun i t hnx => hstk.mem_frames hkn hnx, fun m st i o t b hst hact hnx hreq =>
    frame_removed hruns hpolite hlatest hst hact hnx hreq, fun st hst j t hba => ⟨?_, ?_⟩⟩
  · intro u hnx
    obtain ⟨x, hx, hph, -⟩ := hkn.of_next hnx
    obtain ⟨seen, hche, -⟩ := hse st hst j t x hba hx
    exact nomatch hph.symm.trans hche
  · intro r hr
    obtain ⟨m, hm⟩ := getElem?_of_mem hst
    have hreq := hruns.request_of_before hm hba.request
    obtain ⟨x, hx, hend⟩ := hkn.exists_of_answer hreq hr
    obtain ⟨seen, hph, hmem⟩ := hse st hst j t x hba hx
    obtain ⟨q, hq, hfa⟩ := hfac j x hx
    cases hq.symm.trans hreq
    rw [hfa.1] at hmem
    rcases hend.2 t seen rfl hph hmem with ⟨n, hn, hdeep⟩ | hr
    · exact absurd (hfa.2.2 _ n hph hn) (not_lt.2 hdeep)
    · exact ⟨seen, hr⟩

end

/-! ## Two runs -/

def polite (st : Step (branchSystem config)) : Bool :=
  tidy st && decide (asRead 32 (State.hash st.before.state).depth < config.maxDepth) &&
    named st.action
where
  named : Action Branch → Bool
    | .spawn (.call t) => decide (IsName t)
    | _ => true

theorem polite_of_eval (hev : polite st = true) : Polite st := by
  simp only [polite, and_eq_true, decide_eq_true_eq] at hev
  refine ⟨tidy_of_eval hev.1.1, fun t hact => ?_, fun _ _ _ _ => hev.1.2⟩
  have hnam := hev.2
  rw [hact] at hnam
  exact of_decide_eq_true hnam

/-- Does the step keep the order of the returns? -/
def returnsLatest (calls : List Nat) (st : Step (branchSystem config)) : Bool :=
  match st.action with
  | .run i _ => !(st.after.next i).any setsChain || !decide (i ∈ calls) || calls.head? == some i
  | _ => true

def latestFirst (calls : List Nat) : List (Step (branchSystem config)) → Bool
  | [] => true
  | st :: rest => returnsLatest calls st && latestFirst (enter calls st) rest

theorem latestFirst_of_eval {h : List (Step (branchSystem config))}
    (hev : latestFirst [] h = true) : LatestFirst h := by
  -- The calls in progress before a step are those that the evaluation has arrived at.
  have hstep : ∀ (rest : List (Step (branchSystem config))) (calls : List Nat),
      latestFirst calls rest = true → ∀ m st, rest[m]? = some st →
        returnsLatest ((rest.take m).foldl enter calls) st = true := by
    intro rest
    induction rest with
    | nil =>
      intro calls _ m st hst
      cases hst
    | cons st' rest ih =>
      intro calls hev m st hst
      obtain ⟨hhead, htail⟩ := and_eq_true_iff.1 hev
      cases m with
      | zero =>
        cases hst
        exact hhead
      | succ m => exact ih (enter calls st') htail m st hst
  intro m st i o hst hact hedi hmem
  obtain ⟨chain, hnx⟩ := hedi
  have hlat := hstep h [] hev m st hst
  rw [returnsLatest, hact] at hlat
  have hmem : i ∈ (h.take m).foldl enter [] := hmem
  simpa [hnx, setsChain, hmem, inProgress] using hlat

def planner : Str := "planner"

def mailer : Str := "mailer"

/-- The planner calls the mailer, which calls the planner back. -/
def callBack : List (Action Branch) :=
  List.flatten [[.spawn (.call planner)], turns 0 13, [.spawn (.call mailer)], turns 1 13,
    [.spawn (.call planner)], turns 2 6, turns 1 5, turns 0 5]

/-- Two calls read the chain before either of them writes it, and the mailer is called again. -/
def overlap : List (Action Branch) :=
  List.flatten [[.spawn (.call planner), .spawn (.call mailer)], turns 0 11, turns 1 13,
    turns 0 2, [.spawn (.call mailer)], turns 2 13]

/-- Does the check of the call read the chain while the agent is at work? -/
def callsBack (j : Nat) (t : Str) (st : Step (branchSystem config)) : Bool :=
  runs st.action && st.before.next j == some .hgetChain && !(st.after.next j).any setsChain &&
    st.before.request j == some (.call t) &&
    (List.range st.before.tasks.length).any fun i => st.before.next i == some (.callAgent t)
where
  runs : Action Branch → Bool
    | .run i _ => i == j
    | _ => false

theorem callsBack_of_eval (hev : callsBack j t st = true) : CallsBack st j t := by
  simp only [callsBack, and_eq_true, beq_iff_eq, any_eq_true] at hev
  obtain ⟨⟨⟨⟨hru, hnx⟩, hedi⟩, hreq⟩, i, -, hi⟩ := hev
  refine ⟨?_, hnx, ?_, hreq, i, hi⟩
  · cases hact : st.action with
    | run k o =>
      rw [hact] at hru
      obtain rfl : k = j := beq_iff_eq.1 hru
      exact ⟨o, rfl⟩
    | _ =>
      rw [hact] at hru
      cases hru
  · rintro ⟨chain, hch⟩
    rw [hch] at hedi
    cases hedi

theorem planner_refused :
    ∃ (h : List (Step (branchSystem .default))) (c : _), Runs ⟨freshFlow, []⟩ h c ∧
      h.all polite = true ∧ latestFirst [] h = true ∧
      ∃ seen, c.answer 2 = some (.ok (.error (.cycleDetected planner seen))) := by
  obtain ⟨h, c, hru, hpol, hlat, ⟨st, hst, hba⟩, hans⟩ := exists_runs
    (⟨freshFlow, []⟩ : Config (branchSystem .default)) callBack
    (fun h c => h.all polite = true ∧ latestFirst [] h = true ∧
      (∃ st ∈ h, callsBack 2 planner st = true) ∧ (c.answer 2).isSome = true)
    (by decide +kernel)
  obtain ⟨r, hr⟩ := Option.isSome_iff_exists.1 hans
  have href := (branches_refused hru (fun st hst => polite_of_eval (all_eq_true.1 hpol st hst))
    (latestFirst_of_eval hlat)).2.2 st hst 2 planner (callsBack_of_eval hba)
  obtain ⟨seen, rfl⟩ := href.2 r hr
  exact ⟨h, c, hru, hpol, hlat, seen, hr⟩

/-- **A frame is lost when two calls overlap.** The mailer is at work and not in the chain, so a
call back to it is let through. -/
theorem frame_lost :
    ∃ (h : List (Step (branchSystem .default))) (c : _) (st : _), Runs ⟨freshFlow, []⟩ h c ∧
      st ∈ h ∧ CallsBack st 2 mailer ∧ mailer ∉ frames (State.chain st.before.state) ∧
      c.next 1 = some (.callAgent mailer) ∧ c.next 2 = some (.callAgent mailer) := by
  obtain ⟨h, c, hru, ⟨st, hst, hba, hlost⟩, hfst, hsec⟩ := exists_runs
    (⟨freshFlow, []⟩ : Config (branchSystem .default)) overlap
    (fun h c => (∃ st ∈ h, callsBack 2 mailer st = true ∧ mailer ∉ frames (chain st.before.state)) ∧
      c.next 1 = some (.callAgent mailer) ∧ c.next 2 = some (.callAgent mailer))
    (by decide +kernel)
  exact ⟨h, c, st, hru, hst, callsBack_of_eval hba, hlost, hfst, hsec⟩

end Nasiko.Flow
