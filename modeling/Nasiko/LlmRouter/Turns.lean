import Nasiko.Concurrency.Inductive
import Nasiko.LlmRouter.Routing

/-!
# The calls of a turn

A user asks something, and the agent calls a model until it has an answer: each time the model wants
to use tools, their results are added and the model is called again. These calls are the turn. Here
is the system that routes the calls of all agents, with a cache of decisions that loses nothing.

What a call may do is said by the protocol `calls`: it looks the decision of its conversation up
once, and writes one only if there was none and its prompt is at a boundary and not small talk. The
model it is served with then depends on what it has found (`Served`, `calls_follows`).
-/

namespace Nasiko.LlmRouter.Turns

open Concurrency Program BoundarySignals

/-! ## Calls -/

/-- A call whose configuration is resolved and whose flow is known. -/
structure Call (F : Type) where
  agentId : Str
  resolved : ResolvedConfig F
  /-- Read only if the agent is not a coding agent. -/
  attribution : FlowAttribution
  signals : RequestSignals
  deriving DecidableEq

section

variable {F : Type} (judge : Judgement F) (cfg : GatewayConfig) (q : Call F)

def Call.boundary : BoundarySignals :=
  if q.resolved.isCodingAgent then
    .forCodingAgent judge q.agentId q.signals.turnOrdinal q.signals.query
      q.signals.isToolContinuation
  else boundarySignalsFor q.attribution

def Call.inputs : RouteInputs :=
  routeInputs cfg q.agentId q.resolved (q.boundary judge) q.signals

/-- The calls share a decision. -/
structure SameKey (q q' : Call F) : Prop where
  agentId : q.agentId = q'.agentId
  convId : (q.boundary judge).convId = (q'.boundary judge).convId

/-- The calls belong to one turn: the same prompt at the same place of one conversation. -/
structure SameTurn (q q' : Call F) : Prop extends SameKey judge q q' where
  query : q.signals.query = q'.signals.query
  turnOrdinal : q.signals.turnOrdinal = q'.signals.turnOrdinal

structure SameSettings (q q' : Call F) : Prop where
  provider : q.resolved.provider = q'.resolved.provider
  model : q.resolved.model = q'.resolved.model
  hasLlmConfig : q.resolved.hasLlmConfig = q'.resolved.hasLlmConfig
  pinnedModel : q.resolved.pinnedModel = q'.resolved.pinnedModel
  tier3Model : q.resolved.tier3Model = q'.resolved.tier3Model
  isCodingAgent : q.resolved.isCodingAgent = q'.resolved.isCodingAgent
  mode : q.attribution.mode = q'.attribution.mode

structure LooksUp : Prop where
  pinnedModel : q.resolved.pinnedModel = none
  hasLlmConfig : q.resolved.hasLlmConfig = true

/-- The prompt is judged to be small talk. -/
def SmallTalk : Prop :=
  ∃ query, (q.inputs judge cfg).boundaryQuery = some query ∧ judge.isSubstantive query = false

/-- A tier is drawn for the prompt if there is no decision. -/
def Draws : Prop :=
  ∃ query, (q.inputs judge cfg).boundaryQuery = some query ∧ judge.isSubstantive query = true

variable {judge cfg} {q q' : Call F}

theorem exists_convId (judge : Judgement F) (q : Call F) :
    ∃ convId, (q.boundary judge).convId = some convId := by
  unfold Call.boundary
  split <;> exact ⟨_, rfl⟩

theorem LooksUp.conversation (h : LooksUp q) :
    (q.inputs judge cfg).conversation = (q.boundary judge).convId := by
  exact if_pos h.hasLlmConfig

theorem LooksUp.of_settings (h : LooksUp q') (hsame : SameSettings q q') : LooksUp q :=
  ⟨hsame.pinnedModel.trans h.pinnedModel, hsame.hasLlmConfig.trans h.hasLlmConfig⟩

theorem SameKey.symm (h : SameKey judge q q') : SameKey judge q' q :=
  ⟨h.agentId.symm, h.convId.symm⟩

theorem SameKey.trans {q'' : Call F} (h : SameKey judge q q') (h' : SameKey judge q' q'') :
    SameKey judge q q'' := ⟨h.agentId.trans h'.agentId, h.convId.trans h'.convId⟩

theorem boundaryQuery_coding (hcod : q.resolved.isCodingAgent = true)
    (htl : q.signals.isToolContinuation = true) : (q.inputs judge cfg).boundaryQuery = none := by
  refine if_neg ?_
  simp [Call.inputs, routeInputs, Call.boundary, hcod, htl, forCodingAgent, isFireableBoundary]

/-- The calls of a turn in a flow are all at a boundary, or none is. -/
theorem boundaryQuery_flow (hcod : q'.resolved.isCodingAgent = false)
    (hturn : SameTurn judge q q') (hsame : SameSettings q q') :
    (q.inputs judge cfg).boundaryQuery = (q'.inputs judge cfg).boundaryQuery := by
  have hcod' : q.resolved.isCodingAgent = false := hsame.isCodingAgent.trans hcod
  simp [RouteInputs.boundaryQuery, Call.inputs, routeInputs, Call.boundary, hcod, hcod',
    boundarySignalsFor, inFlow, isFireableBoundary, hsame.mode, hturn.query]

end

/-! ## The system -/

variable {K F : Type}

/-- What the stores answer, at any time. -/
structure Stores (K : Type) where
  load : Nat → Str → K
  classify : Nat → Str → Option RequestType
  classifyTyped : Nat → Option Nat → Str → Str → RequestType → K → Tier
  modelFor : Nat → Str → Tier → Option Str

/-- The cache of decisions, and the time. -/
structure State where
  decisions : Str → Str → Option CachedDecision
  tick : Nat

namespace State

def put (s : State) (convId agentId : Str) (d : CachedDecision) : State :=
  { s with decisions := fun c a => if c = convId ∧ a = agentId then some d else s.decisions c a }

def reply (stores : Stores K) (s : State) : (c : RouteCommand K F) → c.Reply
  | .cacheGet convId agentId => s.decisions convId agentId
  | .cachePut _ _ _ => ()
  | .observe _ _ _ _ => ()
  | .load provider => stores.load s.tick provider
  | .classify query => stores.classify s.tick query
  | .classifyTyped seed provider query requestType learned =>
    stores.classifyTyped s.tick seed provider query requestType learned
  | .modelFor provider tier => stores.modelFor s.tick provider tier

def after (s : State) : RouteCommand K F → State
  | .cachePut convId agentId d => { s.put convId agentId d with tick := s.tick + 1 }
  | _ => { s with tick := s.tick + 1 }

end State

/-- The routing of all calls. The cache outlives the process. -/
def system (judge : Judgement F) (cfg : GatewayConfig) (stores : Stores K) :
    System (Call F) (RouteCommand K F) RouteCommand.Reply Empty RouteDecision where
  State := State
  exec s _ c o := if o = .done then some (.ok (s.reply stores c), s.after c) else none
  release s _ := s
  crash s := s
  handle q := routeModelWith judge (q.inputs judge cfg)

/-! ## The protocol -/

/-- What a call knows: whether it has found a decision, which one it has written, and what the
registry had for its tier. -/
structure Seen (F : Type) where
  asked : Call F
  looked : Option (Option CachedDecision)
  written : Option CachedDecision
  registered : Option (Option Str)

/-- The decision that the call goes by. -/
def Seen.found (x : Seen F) : Option CachedDecision := x.written <|> x.looked.join

def Seen.start (q : Call F) : Seen F := ⟨q, none, none, none⟩

/-- Only who has found no decision writes one. -/
def calls (K : Type) (judge : Judgement F) (cfg : GatewayConfig) :
    Protocol (RouteCommand K F) RouteCommand.Reply Empty where
  Ctx := Seen F
  allow x
    | .cacheGet convId agentId =>
      LooksUp x.asked ∧ x.looked = none ∧ x.written = none ∧
        (x.asked.boundary judge).convId = some convId ∧ x.asked.agentId = agentId
    | .cachePut convId agentId _ =>
      LooksUp x.asked ∧ Draws judge cfg x.asked ∧ x.looked = some none ∧ x.written = none ∧
        (x.asked.boundary judge).convId = some convId ∧ x.asked.agentId = agentId
    | _ => True
  after x
    | .cacheGet _ _, .ok cached => { x with looked := some cached }
    | .cachePut _ _ d, _ => { x with written := some d }
    | .modelFor _ _, .ok registered => { x with registered := some registered }
    | _, _ => x

inductive Served (judge : Judgement F) (cfg : GatewayConfig) (x : Seen F) : Str → Prop where
  | pinned (model : Str) (hpinned : x.asked.resolved.pinnedModel = some model) :
      Served judge cfg x model
  | unrouted (hpinned : x.asked.resolved.pinnedModel = none)
      (hconfig : x.asked.resolved.hasLlmConfig = false) : Served judge cfg x x.asked.resolved.model
  | found (d : CachedDecision) (hlooks : LooksUp x.asked) (hlooked : x.looked.isSome)
      (hfound : x.found = some d) : Served judge cfg x d.model
  | smallTalk (model : Str) (hlooks : LooksUp x.asked) (hlooked : x.looked = some none)
      (hwritten : x.written = none) (hsmall : SmallTalk judge cfg x.asked)
      (hmodel : x.asked.resolved.tier3Model = some model ∨
        x.asked.resolved.tier3Model = none ∧
          ∃ r, x.registered = some r ∧ model = r.getD x.asked.resolved.model) :
      Served judge cfg x model
  | configured (hlooks : LooksUp x.asked) (hlooked : x.looked = some none)
      (hwritten : x.written = none)
      (hwhy : (x.asked.inputs judge cfg).boundaryQuery = none ∨
        Draws judge cfg x.asked ∧ x.registered = some none) :
      Served judge cfg x x.asked.resolved.model

def Ends (judge : Judgement F) (cfg : GatewayConfig) (q : Call F) (x : Seen F) :
    Except Empty RouteDecision → Prop
  | .ok d => x.asked = q ∧ Served judge cfg x d.model
  | .error _ => True

/-! ### Every call follows it -/

/-- The call has looked for a decision and found none. -/
structure Missed (x : Seen F) : Prop where
  looks : LooksUp x.asked
  looked : x.looked = some none
  written : x.written = none

variable {judge : Judgement F} {cfg : GatewayConfig} {x : Seen F}

theorem follows_smallTalk (hx : Missed x) (hsm : SmallTalk judge cfg x.asked) :
    Follows (calls K judge cfg) x (do
        let model ← smallTalkModel (x.asked.inputs judge cfg)
        pure ⟨model, none, .smallTalk⟩)
      (Ends judge cfg x.asked) := by
  unfold smallTalkModel
  cases htier : (x.asked.inputs judge cfg).tier3Model with
  | some model =>
    exact ⟨rfl, .smallTalk model hx.looks hx.looked hx.written hsm (.inl htier)⟩
  | none =>
    refine follows_bind.2 (follows_perform_bind trivial (fun e => e.elim) fun registered => ?_)
    exact ⟨rfl, .smallTalk _ hx.looks hx.looked hx.written hsm (.inr ⟨htier, registered, rfl, rfl⟩)⟩

theorem follows_draw (hx : Missed x) {convId query : Str}
    (hco : (x.asked.boundary judge).convId = some convId)
    (hq : (x.asked.inputs judge cfg).boundaryQuery = some query)
    (hsub : judge.isSubstantive query = true) :
    Follows (calls K judge cfg) x (classifyAndPin judge (x.asked.inputs judge cfg) convId query)
      (Ends judge cfg x.asked) := by
  have hdra : Draws judge cfg x.asked := ⟨query, hq, hsub⟩
  refine follows_perform_bind trivial (fun e => e.elim) fun learned => ?_
  refine follows_perform_bind trivial (fun e => e.elim) fun classified => ?_
  refine follows_perform_bind trivial (fun e => e.elim) fun tier => ?_
  refine follows_bind.2 ?_
  unfold tierModelFor
  -- The decision is written as soon as there is a model for the tier.
  cases htier : (x.asked.inputs judge cfg).tierModel tier with
  | some model =>
    refine follows_perform_bind ⟨hx.looks, hdra, hx.looked, hx.written, hco, rfl⟩
      (fun e => e.elim) fun _ => ?_
    exact ⟨rfl, .found ⟨model, some tier, _⟩ hx.looks (hx.looked ▸ rfl) rfl⟩
  | none =>
    refine follows_perform.2 ⟨trivial, fun r => ?_⟩
    cases r with
    | error e => exact e.elim
    | ok registered =>
      cases registered with
      | none => exact ⟨rfl, .configured hx.looks hx.looked hx.written (.inr ⟨hdra, rfl⟩)⟩
      | some model =>
        refine follows_perform_bind ⟨hx.looks, hdra, hx.looked, hx.written, hco, rfl⟩
          (fun e => e.elim) fun _ => ?_
        exact ⟨rfl, .found ⟨model, some tier, _⟩ hx.looks (hx.looked ▸ rfl) rfl⟩

theorem follows_miss (hx : Missed x) {convId : Str}
    (hco : (x.asked.boundary judge).convId = some convId) :
    Follows (calls K judge cfg) x (routeMiss judge (x.asked.inputs judge cfg) convId)
      (Ends judge cfg x.asked) := by
  unfold routeMiss
  cases hq : (x.asked.inputs judge cfg).boundaryQuery with
  | none => exact ⟨rfl, .configured hx.looks hx.looked hx.written (.inl hq)⟩
  | some query =>
    dsimp only
    split
    · rename_i hsub
      exact follows_draw hx hco hq hsub
    · rename_i hsm
      exact follows_smallTalk hx ⟨query, hq, Bool.eq_false_iff.2 hsm⟩

theorem follows_hit (hloo : LooksUp x.asked) (hwr : x.written = none) {hit : CachedDecision}
    (hlk : x.looked = some (some hit)) :
    Follows (calls K judge cfg) x (do
        maybeLearn judge (x.asked.inputs judge cfg) hit.tier hit.requestType
        pure ⟨hit.model, hit.tier, .cacheHit⟩)
      (Ends judge cfg x.asked) := by
  have hend : Ends judge cfg x.asked x (.ok ⟨hit.model, hit.tier, .cacheHit⟩) := by
    refine ⟨rfl, .found hit hloo (hlk ▸ rfl) ?_⟩
    rw [Seen.found, hwr, hlk]
    rfl
  refine follows_bind.2 ?_
  unfold maybeLearn
  split
  · split
    · refine follows_perform.2 ⟨trivial, fun r => ?_⟩
      cases r with
      | error e => exact e.elim
      | ok _ => exact hend
    · exact hend
  · exact hend

/-- **Every call follows the protocol.** -/
theorem calls_follows (stores : Stores K) (q : Call F) :
    Follows (calls K judge cfg) (Seen.start q) ((system judge cfg stores).handle q)
      (Ends judge cfg q) := by
  change Follows _ _ (routeModelWith judge (q.inputs judge cfg)) _
  unfold routeModelWith
  cases hpin : (q.inputs judge cfg).pinnedModel with
  | some model => exact ⟨rfl, .pinned model hpin⟩
  | none =>
    cases hcfg : q.resolved.hasLlmConfig with
    | false =>
      have hnone : (q.inputs judge cfg).conversation = none :=
        if_neg (ne_true_of_eq_false hcfg)
      rw [hnone]
      exact ⟨rfl, .unrouted hpin hcfg⟩
    | true =>
      have hloo : LooksUp q := ⟨hpin, hcfg⟩
      obtain ⟨convId, hco⟩ := exists_convId judge q
      rw [hloo.conversation, hco]
      refine follows_perform_bind ⟨hloo, rfl, rfl, hco, rfl⟩ (fun e => e.elim) fun cached => ?_
      cases cached with
      | some hit => exact follows_hit hloo rfl rfl
      | none => exact follows_miss ⟨hloo, rfl, rfl⟩ hco

end Nasiko.LlmRouter.Turns
