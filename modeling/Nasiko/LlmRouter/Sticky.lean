import Nasiko.Concurrency.History
import Nasiko.LlmRouter.Turns

/-!
# The model of a turn

**Theorem (`model_sticky`).** All calls of a turn are served with the same model, in every run in
which

* the calls of an agent in a conversation come one after the other and turn after turn, and the
  calls of a turn go on with the results of tools and have the same settings (`Orderly`);
* small talk does not lead to another model: a coding agent then has no other model than the
  configured one, and for a call of a flow the registry does not change; and if a tier is drawn for
  a call of a flow, there is a model for it (`Registered`).

It is not true in general (`small_talk_forgotten`): the first call of a coding agent that is judged
to be small talk gets the cheapest model, without a decision, and the next call of the turn, which
is not at a boundary, the configured one.

The invariant is `Kept`: a decision that a call goes by is still the one of its conversation, and as
long as the turn of a call that goes by none lasts, there is none. So two calls of a turn go by the
same decision, or both by none.
-/

namespace Nasiko.LlmRouter.Turns

open Concurrency Option Function Config Nat

section

variable {K F : Type} (judge : Judgement F) (cfg : GatewayConfig) (stores : Stores K)
  (cheapest : Str → Option Str)

/-! ## The condition -/

/-- A coding agent has no other model for small talk. -/
def PlainTalk (q : Call F) : Prop :=
  q.resolved.isCodingAgent = true → SmallTalk judge cfg q →
    ∀ model, q.resolved.tier3Model = some model → model = q.resolved.model

structure Orderly (c : Config (system judge cfg stores)) (q : Call F) : Prop where
  /-- The calls before it that share its decision are routed. -/
  alone : ∀ i q', c.request i = some q' → SameKey judge q' q → c.next i = none
  /-- It is the first one of its turn, or goes on with the results of tools. -/
  tools : ∀ i q', c.request i = some q' → SameTurn judge q' q →
    q.signals.isToolContinuation = true ∧ SameSettings q' q
  /-- There is no call of another turn in between. -/
  inTurn : ∀ i j q' q'', i < j → c.request i = some q' → c.request j = some q'' →
    SameTurn judge q' q → SameKey judge q'' q → SameTurn judge q' q''
  cheap : PlainTalk judge cfg q

/-- What the registry may answer to a call. -/
structure Registered (q : Call F) (registered : Option Str) : Prop where
  coding : q.resolved.isCodingAgent = true → SmallTalk judge cfg q →
    registered.getD q.resolved.model = q.resolved.model
  flow : q.resolved.isCodingAgent = false → SmallTalk judge cfg q →
    registered = cheapest q.resolved.provider
  draws : q.resolved.isCodingAgent = false → Draws judge cfg q → registered ≠ none

def Meets (st : Step (system judge cfg stores)) : Prop :=
  match st.action with
  | .spawn q => Orderly judge cfg stores st.before q
  | .run i _ => ∀ q provider tier, st.before.request i = some q →
      st.before.next i = some (.modelFor provider tier) →
      Registered judge cfg cheapest q (stores.modelFor st.before.state.tick provider tier)
  | _ => True

/-! ## The order of the calls -/

/-- The calls that have come so far came in their turn. -/
structure Ordered (c : Config (system judge cfg stores)) : Prop where
  alone : ∀ i j q q', i < j → c.request i = some q → c.request j = some q' →
    SameKey judge q q' → c.next i = none
  tools : ∀ i j q q', i < j → c.request i = some q → c.request j = some q' →
    SameTurn judge q q' → q'.signals.isToolContinuation = true ∧ SameSettings q q'
  inTurn : ∀ i j k q q' q'', i < j → j < k → c.request i = some q → c.request j = some q' →
    c.request k = some q'' → SameTurn judge q q'' → SameKey judge q' q'' → SameTurn judge q q'
  cheap : ∀ i q, c.request i = some q → PlainTalk judge cfg q

variable {judge cfg stores cheapest} {c c' : Config (system judge cfg stores)} {q q' : Call F}
  {s : State} {convId agentId model : Str} {x : Seen F} {d : CachedDecision}

theorem Ordered.spawn (h : Ordered judge cfg stores c) (hq : Orderly judge cfg stores c q)
    (p : Program (RouteCommand K F) _ Empty RouteDecision) :
    Ordered judge cfg stores ⟨c.state, c.tasks ++ [⟨q, .running p⟩]⟩ where
  alone i j q₁ q₂ hij hi hj hkey := by
    obtain ⟨hlt, hi'⟩ := request_append_lt hij hi hj
    rw [next_append hlt]
    rcases request_append_cases hj with ⟨-, hj'⟩ | ⟨-, rfl⟩
    · exact h.alone i j q₁ q₂ hij hi' hj' hkey
    · exact hq.alone i q₁ hi' hkey
  tools i j q₁ q₂ hij hi hj htu := by
    obtain ⟨-, hi'⟩ := request_append_lt hij hi hj
    rcases request_append_cases hj with ⟨-, hj'⟩ | ⟨-, rfl⟩
    · exact h.tools i j q₁ q₂ hij hi' hj' htu
    · exact hq.tools i q₁ hi' htu
  inTurn i j k q₁ q₂ q₃ hij hjk hi hj hk htu hkey := by
    obtain ⟨-, hi'⟩ := request_append_lt hij hi hj
    obtain ⟨-, hj'⟩ := request_append_lt hjk hj hk
    rcases request_append_cases hk with ⟨-, hk'⟩ | ⟨-, rfl⟩
    · exact h.inTurn i j k q₁ q₂ q₃ hij hjk hi' hj' hk' htu hkey
    · exact hq.inTurn i j q₁ q₂ hij hi' hj' htu hkey
  cheap i q₁ hi := by
    rcases request_append_cases hi with ⟨-, hi'⟩ | ⟨-, rfl⟩
    · exact h.cheap i q₁ hi'
    · exact hq.cheap

theorem Ordered.step (h : Ordered judge cfg stores c) (hreq : ∀ j, c'.request j = c.request j)
    (hnx : ∀ j, c.next j = none → c'.next j = none) : Ordered judge cfg stores c' where
  alone i j q q' hij hi hj hkey :=
    hnx i (h.alone i j q q' hij (hreq i ▸ hi) (hreq j ▸ hj) hkey)
  tools i j q q' hij hi hj := h.tools i j q q' hij (hreq i ▸ hi) (hreq j ▸ hj)
  inTurn i j k q q' q'' hij hjk hi hj hk :=
    h.inTurn i j k q q' q'' hij hjk (hreq i ▸ hi) (hreq j ▸ hj) (hreq k ▸ hk)
  cheap i q hi := h.cheap i q (hreq i ▸ hi)

/-! ## What the calls go by -/

/-- The decision of a call's conversation. -/
def decision (judge : Judgement F) (s : State) (q : Call F) : Option CachedDecision :=
  (q.boundary judge).convId.bind fun convId => s.decisions convId q.agentId

theorem decision_eq (hco : (q.boundary judge).convId = some convId) (hag : q.agentId = agentId) :
    decision judge s q = s.decisions convId agentId := by
  rw [decision, hco, bind_some, hag]

theorem decision_congr (s : State) (h : SameKey judge q q') :
    decision judge s q = decision judge s q' := by
  rw [decision, decision, h.convId, h.agentId]

theorem decision_put_self (hco : (q.boundary judge).convId = some convId)
    (hag : q.agentId = agentId) : decision judge (s.put convId agentId d) q = some d := by
  rw [decision_eq hco hag]
  exact if_pos ⟨rfl, rfl⟩

theorem decision_put_ne (hco : (q.boundary judge).convId = some convId)
    (hag : q.agentId = agentId) (hkey : ¬ SameKey judge q' q) :
    decision judge (s.put convId agentId d) q' = decision judge s q' := by
  obtain ⟨convId', hco'⟩ := exists_convId judge q'
  rw [decision_eq hco' rfl, decision_eq hco' rfl]
  refine if_neg ?_
  rintro ⟨rfl, rfl⟩
  exact hkey ⟨hag.symm, hco'.trans hco.symm⟩

/-- The invariant. -/
structure Kept (judge : Judgement F) (cfg : GatewayConfig) (cheapest : Str → Option Str)
    (c : Config (system judge cfg stores)) (g : Nat → Option (Seen F)) : Prop where
  asked : ∀ i x, g i = some x → c.request i = some x.asked
  registered : ∀ i x r, g i = some x → x.registered = some r →
    Registered judge cfg cheapest x.asked r
  /-- The decision that a call goes by is kept. -/
  found : ∀ i x d, g i = some x → x.found = some d → decision judge c.state x.asked = some d
  /-- As long as the turn of a call without a decision lasts, there is none. -/
  missed : ∀ i x, g i = some x → x.looked = some none → x.written = none →
    (∀ j q, i < j → c.request j = some q → SameKey judge x.asked q → SameTurn judge x.asked q) →
    decision judge c.state x.asked = none
  /-- The calls of a turn go by the same decision. -/
  agree : ∀ i j x y, i < j → g i = some x → g j = some y → SameTurn judge x.asked y.asked →
    y.looked.isSome → y.found = x.found

variable {g g' : Nat → Option (Seen F)} {x' : Seen F}

/-- A call that goes by the same decision as before. -/
structure Alike (x x' : Seen F) : Prop where
  asked : x'.asked = x.asked
  looked : x'.looked = x.looked
  written : x'.written = x.written

theorem Alike.found (h : Alike x x') : x'.found = x.found := by
  rw [Seen.found, Seen.found, h.written, h.looked]

/-- A call that has not looked yet, and is the last one. -/
structure Fresh (c : Config (system judge cfg stores)) (g : Nat → Option (Seen F)) (i : Nat)
    (x : Seen F) : Prop where
  asked : c.request i = some x.asked
  looked : x.looked = none
  written : x.written = none
  last : ∀ j, i < j → g j = none

theorem Kept.frame (h : Kept judge cfg cheapest c g)
    (hdec : ∀ q, decision judge c'.state q = decision judge c.state q)
    (hreq : ∀ j q, c.request j = some q → c'.request j = some q)
    (hg : ∀ i x', g' i = some x' → (∃ x, g i = some x ∧ Alike x x') ∨ Fresh c' g' i x')
    (hreg : ∀ i x' r, g' i = some x' → x'.registered = some r →
      Registered judge cfg cheapest x'.asked r) : Kept judge cfg cheapest c' g' where
  asked i x' hx' := by
    rcases hg i x' hx' with ⟨x, hx, hali⟩ | hfr
    · rw [hali.asked]
      exact hreq i _ (h.asked i x hx)
    · exact hfr.asked
  registered := hreg
  found i x' d hx' hfd := by
    rcases hg i x' hx' with ⟨x, hx, hali⟩ | hfr
    · rw [hali.asked, hdec]
      exact h.found i x d hx (hali.found ▸ hfd)
    · rw [Seen.found, hfr.written, hfr.looked] at hfd
      cases hfd
  missed i x' hx' hlk hwr hla := by
    rcases hg i x' hx' with ⟨x, hx, hali⟩ | hfr
    · rw [hali.asked, hdec]
      refine h.missed i x hx (hali.looked ▸ hlk) (hali.written ▸ hwr) fun j q hij hj => ?_
      rw [← hali.asked]
      exact hla j q hij (hreq j q hj)
    · rw [hfr.looked] at hlk
      cases hlk
  agree i j x' y' hij hx' hy' htu hlk := by
    rcases hg j y' hy' with ⟨y, hy, hy₁⟩ | hfr
    · rcases hg i x' hx' with ⟨x, hx, hx₁⟩ | hfr
      · rw [hy₁.found, hx₁.found]
        exact h.agree i j x y hij hx hy (hx₁.asked ▸ hy₁.asked ▸ htu) (hy₁.looked ▸ hlk)
      · rw [hfr.last j hij] at hy'
        cases hy'
    · rw [hfr.looked] at hlk
      cases hlk

/-! ### A call and those before it -/

theorem Missed.found_eq (h : Missed x) : x.found = none := by
  rw [Seen.found, h.written, h.looked]
  rfl

theorem Served.of_looksUp (h : Served judge cfg x model) (hloo : LooksUp x.asked) :
    x.looked.isSome ∧ ((∃ d, x.found = some d ∧ model = d.model) ∨ Missed x) := by
  cases h with
  | pinned model hpin =>
    rw [hloo.pinnedModel] at hpin
    cases hpin
  | unrouted _ hcfg =>
    rw [hloo.hasLlmConfig] at hcfg
    cases hcfg
  | found d _ hlk hfd => exact ⟨hlk, .inl ⟨d, hfd, rfl⟩⟩
  | smallTalk model _ hlk hwr | configured _ hlk hwr =>
    exact ⟨by rw [hlk]; rfl, .inr ⟨hloo, hlk, hwr⟩⟩

/-- A call without a decision is small talk, or it gets the configured model. -/
theorem Served.of_missed (h : Served judge cfg x model) (hmissed : Missed x) :
    SmallTalk judge cfg x.asked ∧ (x.asked.resolved.tier3Model = some model ∨
          x.asked.resolved.tier3Model = none ∧
            ∃ r, x.registered = some r ∧ model = r.getD x.asked.resolved.model) ∨
      model = x.asked.resolved.model ∧ ((x.asked.inputs judge cfg).boundaryQuery = none ∨
          Draws judge cfg x.asked ∧ x.registered = some none) := by
  cases h with
  | pinned model hpin =>
    rw [hmissed.looks.pinnedModel] at hpin
    cases hpin
  | unrouted _ hcfg =>
    rw [hmissed.looks.hasLlmConfig] at hcfg
    cases hcfg
  | found d _ _ hfd =>
    rw [hmissed.found_eq] at hfd
    cases hfd
  | smallTalk model _ _ _ hsm hmod => exact .inl ⟨hsm, hmod⟩
  | configured _ _ _ hwhy => exact .inr ⟨rfl, hwhy⟩

theorem Served.of_not_looksUp (h : Served judge cfg x model) (hloo : ¬ LooksUp x.asked) :
    model = x.asked.resolved.pinnedModel.getD x.asked.resolved.model := by
  cases h with
  | pinned model hpin => rw [hpin, getD_some]
  | unrouted hpin => rw [hpin, getD_none]
  | found d hloo' | smallTalk model hloo' | configured hloo' => exact absurd hloo' hloo

section

variable (hkept : Kept judge cfg cheapest c g) (hordered : Ordered judge cfg stores c)
  (hknows : Knows (system judge cfg stores) (calls K judge cfg) (Ends judge cfg) g c)
  {k : Nat} {x : Seen F} (hx : g k = some x) (hrun : c.next k ≠ none)

include hkept hordered hx hrun

/-- Who is still being routed is the last one with its key. -/
theorem last_of_running {j : Nat} {q : Call F} (hkj : k < j) (hj : c.request j = some q) :
    ¬ SameKey judge x.asked q := fun hkey =>
  hrun (hordered.alone k j x.asked q hkj (hkept.asked k x hx) hj hkey)

include hknows

variable {i : Nat} {y : Seen F}

theorem served_before (hik : i < k) (hy : g i = some y) (htu : SameTurn judge y.asked x.asked) :
    (∃ model, Served judge cfg y model) ∧
      ∀ j q, i < j → c.request j = some q → SameKey judge y.asked q → SameTurn judge y.asked q := by
  have hi := hkept.asked i y hy
  have hk := hkept.asked k x hx
  refine ⟨?_, fun j q hij hj hkey => ?_⟩
  · obtain ⟨q, r, -, -, hends⟩ :=
      hknows.answered hy (hordered.alone i k _ _ hik hi hk htu.toSameKey)
    cases r with
    | ok d => exact ⟨d.model, hends.2⟩
    | error e => exact e.elim
  · rcases lt_trichotomy j k with hjk | rfl | hkj
    · exact hordered.inTurn i j k _ q _ hij hjk hi hj hk htu (hkey.symm.trans htu.toSameKey)
    · rw [hk] at hj
      cases hj
      exact htu
    · exact absurd (htu.toSameKey.symm.trans hkey) (last_of_running hkept hordered hx hrun hkj hj)

/-- There is a decision exactly if the calls of the turn before it go by one. -/
theorem decision_of_turn (hloo : LooksUp x.asked) (hik : i < k) (hy : g i = some y)
    (htu : SameTurn judge y.asked x.asked) : decision judge c.state x.asked = y.found := by
  obtain ⟨⟨model, hserved⟩, hla⟩ :=
    served_before hkept hordered hknows hx hrun hik hy htu
  have hsa := (hordered.tools i k _ _ hik (hkept.asked i y hy) (hkept.asked k x hx) htu).2
  rw [← decision_congr c.state htu.toSameKey]
  obtain ⟨-, ⟨d, hfd, -⟩ | hmissed⟩ := hserved.of_looksUp (hloo.of_settings hsa)
  · rw [hfd]
    exact hkept.found i y d hy hfd
  · rw [hmissed.found_eq]
    exact hkept.missed i y hy hmissed.looked hmissed.written hla

theorem first_of_draws (hloo : LooksUp x.asked) (hdra : Draws judge cfg x.asked)
    (hlk : x.looked = some none) (hwr : x.written = none) (hik : i < k) (hy : g i = some y) :
    ¬ SameTurn judge y.asked x.asked := by
  intro htu
  obtain ⟨⟨model, hserved⟩, -⟩ := served_before hkept hordered hknows hx hrun hik hy htu
  obtain ⟨htl, hsa⟩ :=
    hordered.tools i k _ _ hik (hkept.asked i y hy) (hkept.asked k x hx) htu
  have hno : y.found = none :=
    (hkept.agree i k y x hik hy hx htu (by rw [hlk]; rfl)).symm.trans
      (Missed.found_eq ⟨hloo, hlk, hwr⟩)
  obtain ⟨query, hque, hsub⟩ := hdra
  -- A coding agent is not at a boundary when it goes on with the results of tools.
  have hcod : x.asked.resolved.isCodingAgent = false := by
    by_contra hcod
    rw [boundaryQuery_coding (Bool.not_eq_false _ ▸ hcod) htl] at hque
    cases hque
  rw [← boundaryQuery_flow hcod htu hsa] at hque
  have hcod' := hsa.isCodingAgent.trans hcod
  obtain ⟨-, ⟨d, hfd, -⟩ | hmissed⟩ := hserved.of_looksUp (hloo.of_settings hsa)
  · rw [hno] at hfd
    cases hfd
  · rcases hserved.of_missed hmissed with
      ⟨⟨query', hque', hsm⟩, -⟩ | ⟨-, hno' | ⟨hdra, hreg⟩⟩
    · rw [hque] at hque'
      cases hque'
      rw [hsub] at hsm
      cases hsm
    · rw [hque] at hno'
      cases hno'
    · exact (hkept.registered i y none hy hreg).draws hcod' hdra rfl

/-! ### The steps -/

variable (hreq : ∀ j, c'.request j = c.request j)

include hreq

theorem Kept.get (hloo : LooksUp x.asked) (hwr : x.written = none)
    (hdec : ∀ q, decision judge c'.state q = decision judge c.state q) :
    Kept judge cfg cheapest c'
      (update g k (some { x with looked := some (decision judge c.state x.asked) })) := by
  have hfd : ({ x with looked := some (decision judge c.state x.asked) } : Seen F).found =
      decision judge c.state x.asked := by
    rw [hwr]
    rfl
  constructor
  · intro i y hy
    rw [hreq]
    rcases update_some hy with ⟨rfl, rfl⟩ | ⟨-, hy⟩
    · exact hkept.asked i x hx
    · exact hkept.asked i y hy
  · intro i y r hy hr
    rcases update_some hy with ⟨rfl, rfl⟩ | ⟨-, hy⟩
    · exact hkept.registered i x r hx hr
    · exact hkept.registered i y r hy hr
  · intro i y d hy hd
    rw [hdec]
    rcases update_some hy with ⟨rfl, rfl⟩ | ⟨-, hy⟩
    · exact hfd.symm.trans hd
    · exact hkept.found i y d hy hd
  · intro i y hy hlk hwr' hla
    rw [hdec]
    rcases update_some hy with ⟨rfl, rfl⟩ | ⟨-, hy⟩
    · exact some.inj hlk
    · exact hkept.missed i y hy hlk hwr' fun j q hij hj => hla j q hij (hreq j ▸ hj)
  · intro i j y z hij hy hz htu hlk
    rcases update_some hz with ⟨rfl, rfl⟩ | ⟨-, hz'⟩
    · rcases update_some hy with ⟨rfl, -⟩ | ⟨-, hy⟩
      · omega
      · rw [hfd]
        exact decision_of_turn hkept hordered hknows hx hrun hloo hij hy htu
    · rcases update_some hy with ⟨rfl, rfl⟩ | ⟨-, hy⟩
      · exact absurd htu.toSameKey
          (last_of_running hkept hordered hx hrun hij (hkept.asked j z hz'))
      · exact hkept.agree i j y z hij hy hz' htu hlk

theorem Kept.put (hloo : LooksUp x.asked) (hdra : Draws judge cfg x.asked)
    (hlk : x.looked = some none) (hwr : x.written = none) (d : CachedDecision)
    (hown : decision judge c'.state x.asked = some d) (hoth : ∀ q, ¬ SameKey judge q x.asked →
      decision judge c'.state q = decision judge c.state q) :
    Kept judge cfg cheapest c' (update g k (some { x with written := some d })) := by
  have hla : ∀ {j : Nat} {q : Call F}, k < j → c.request j = some q → ¬ SameKey judge x.asked q :=
    last_of_running hkept hordered hx hrun
  have hfst : ∀ {i : Nat} {y : Seen F}, i < k → g i = some y → ¬ SameTurn judge y.asked x.asked :=
    first_of_draws hkept hordered hknows hx hrun hloo hdra hlk hwr
  -- Nobody goes by a decision for this key yet.
  have hno : decision judge c.state x.asked = none :=
    hkept.missed k x hx hlk hwr fun j q hkj hj hkey => absurd hkey (hla hkj hj)
  constructor
  · intro i y hy
    rw [hreq]
    rcases update_some hy with ⟨rfl, rfl⟩ | ⟨-, hy⟩
    · exact hkept.asked i x hx
    · exact hkept.asked i y hy
  · intro i y r hy hr
    rcases update_some hy with ⟨rfl, rfl⟩ | ⟨-, hy⟩
    · exact hkept.registered i x r hx hr
    · exact hkept.registered i y r hy hr
  · intro i y e hy he
    rcases update_some hy with ⟨rfl, rfl⟩ | ⟨-, hy⟩
    · exact hown.trans he
    · have hkeep := hkept.found i y e hy he
      rw [hoth y.asked fun hkey => ?_]
      · exact hkeep
      · rw [decision_congr c.state hkey, hno] at hkeep
        cases hkeep
  · intro i y hy hlk' hwr' htur
    rcases update_some hy with ⟨rfl, rfl⟩ | ⟨hik, hy⟩
    · cases hwr'
    · rw [hoth y.asked fun hkey => ?_]
      · exact hkept.missed i y hy hlk' hwr' fun j q hij hj => htur j q hij (hreq j ▸ hj)
      · rcases lt_or_gt_of_ne hik with hlt | hgt
        · exact hfst hlt hy (htur k x.asked hlt (hreq k ▸ hkept.asked k x hx) hkey)
        · exact hla hgt (hkept.asked i y hy) hkey.symm
  · intro i j y z hij hy hz htu hlk'
    rcases update_some hz with ⟨rfl, rfl⟩ | ⟨-, hz'⟩
    · rcases update_some hy with ⟨rfl, -⟩ | ⟨-, hy⟩
      · omega
      · exact absurd htu (hfst hij hy)
    · rcases update_some hy with ⟨rfl, rfl⟩ | ⟨-, hy⟩
      · exact absurd htu.toSameKey (hla hij (hkept.asked j z hz'))
      · exact hkept.agree i j y z hij hy hz' htu hlk'

end

/-! ## All runs -/

theorem Kept.run (hkept : Kept judge cfg cheapest c g) {k : Nat} (hx : g k = some x)
    (hali : Alike x x')
    (hreg : ∀ r, x'.registered = some r → Registered judge cfg cheapest x'.asked r)
    (hdec : ∀ q, decision judge c'.state q = decision judge c.state q)
    (hreq : ∀ j, c'.request j = c.request j) :
    Kept judge cfg cheapest c' (update g k (some x')) := by
  refine hkept.frame hdec (fun j q hj => (hreq j).trans hj) (fun i y hy => ?_) fun i y r hy hr => ?_
  · rcases update_some hy with ⟨rfl, rfl⟩ | ⟨-, hy⟩
    · exact .inl ⟨x, hx, hali⟩
    · exact .inl ⟨y, hy, rfl, rfl, rfl⟩
  · rcases update_some hy with ⟨rfl, rfl⟩ | ⟨-, hy⟩
    · exact hreg r hr
    · exact hkept.registered i y r hy hr

variable {c₀ : Config (system judge cfg stores)}

theorem kept_inductive {cheapest : Str → Option Str} :
    Inductive (system judge cfg stores) (calls K judge cfg) c₀ Seen.start (Ends judge cfg)
      (Meets judge cfg stores cheapest)
      fun _ c g => Ordered judge cfg stores c ∧ Kept judge cfg cheapest c g where
  spawn h c g q c' hruns hc' hmt hknows hg := by
    obtain ⟨hordered, hkept⟩ := hg
    subst hc'
    refine ⟨hordered.spawn hmt _, hkept.frame (fun _ => rfl)
      (fun j q hj => request_append _ _ hj) (fun i y hy => ?_) fun i y r hy hr => ?_⟩
    · rcases update_some hy with ⟨rfl, rfl⟩ | ⟨-, hy⟩
      · refine .inr ⟨by simp [request, Seen.start], rfl, rfl, fun j hj => ?_⟩
        rw [update_of_ne (ne_of_gt hj)]
        exact hknows.none_of_length_le (le_of_lt hj)
      · exact .inl ⟨y, hy, rfl, rfl, rfl⟩
    · rcases update_some hy with ⟨rfl, rfl⟩ | ⟨-, hy⟩
      · cases hr
      · exact hkept.registered i y r hy hr
  run h c g i o q cmd k x r s c' hruns htask hexec hc' hx hal hmt hknows hg := by
    obtain ⟨hordered, hkept⟩ := hg
    have hnx : c.next i = some cmd := next_of_getElem? htask
    have hrun : c.next i ≠ none := by rw [hnx]; exact some_ne_none _
    have hreq : ∀ j, c'.request j = c.request j := fun j => hc' ▸ request_set s htask
    have hqui : ∀ j, c.next j = none → c'.next j = none := by
      intro j hj
      rw [hc', next_set_ne (by rintro rfl; exact hrun hj), hj]
    obtain ⟨-, heq⟩ := ite_none_right_eq_some.1 hexec
    cases heq
    refine ⟨hordered.step hreq hqui, ?_⟩
    have hold : ∀ r, x.registered = some r → Registered judge cfg cheapest x.asked r := fun r hr =>
      hkept.registered i x r hx hr
    cases cmd with
    | cacheGet convId agentId =>
      obtain ⟨hloo, -, hwr, hco, hag⟩ := hal
      have hrep : c.state.decisions convId agentId = decision judge c.state x.asked :=
        (decision_eq hco hag).symm
      have hget := hkept.get hordered hknows hx hrun hreq hloo hwr fun q => by rw [hc']; rfl
      rw [← hrep] at hget
      exact hget
    | cachePut convId agentId d =>
      obtain ⟨hloo, hdra, hlk, hwr, hco, hag⟩ := hal
      refine hkept.put hordered hknows hx hrun hreq hloo hdra hlk hwr d ?_ fun q hkey => ?_
      · rw [hc']
        exact decision_put_self hco hag
      · rw [hc']
        exact decision_put_ne hco hag hkey
    | modelFor provider tier =>
      refine hkept.run hx ⟨rfl, rfl, rfl⟩ (fun r hr => ?_) (fun q => by rw [hc']; rfl) hreq
      cases hr
      exact hmt x.asked provider tier (hkept.asked i x hx) hnx
    | _ => exact hkept.run hx ⟨rfl, rfl, rfl⟩ hold (fun q => by rw [hc']; rfl) hreq
  drop h c g i q cmd k c' hruns htask hc' hmt hknows hg := by
    obtain ⟨hordered, hkept⟩ := hg
    have hreq : ∀ j, c'.request j = c.request j := fun j => hc' ▸ request_set _ htask
    refine ⟨hordered.step hreq fun j hj => ?_, hkept.frame (fun q => by rw [hc']; rfl)
      (fun j q hj => (hreq j).trans hj) (fun j y hy => ?_) fun j y r hy hr => ?_⟩
    · rw [hc', next_set_ne _, hj]
      rintro rfl
      rw [next_of_getElem? htask] at hj
      cases hj
    · exact .inl ⟨y, (update_none hy).2, rfl, rfl, rfl⟩
    · exact hkept.registered j y r (update_none hy).2 hr
  crash h c g c' hruns hc' hmt hknows hg := by
    obtain ⟨hordered, hkept⟩ := hg
    have hreq : ∀ j, c'.request j = c.request j := fun j => hc' ▸ request_interrupt _
    refine ⟨hordered.step hreq fun j _ => hc' ▸ next_interrupt _ j,
      hkept.frame (fun q => by rw [hc']; rfl) (fun j q hj => (hreq j).trans hj)
        (fun j y hy => ?_) fun j y r hy hr => ?_⟩
    · exact .inl ⟨y, (of_crash hy).2, rfl, rfl, rfl⟩
    · exact hkept.registered j y r (of_crash hy).2 hr

/-! ## The result -/

section

variable {x y : Seen F} {model model' : Str} (hserved : Served judge cfg x model)
  (hserved' : Served judge cfg y model') (hmissed : Missed x) (hmissed' : Missed y)
  (hreg : ∀ r, x.registered = some r → Registered judge cfg cheapest x.asked r)
  (hreg' : ∀ r, y.registered = some r → Registered judge cfg cheapest y.asked r)

include hserved hmissed hreg

theorem model_of_coding (hcod : x.asked.resolved.isCodingAgent = true)
    (hche : PlainTalk judge cfg x.asked) : model = x.asked.resolved.model := by
  rcases hserved.of_missed hmissed with ⟨hsm, hmod | ⟨-, r, hr, rfl⟩⟩ | ⟨hmod, -⟩
  · exact hche hcod hsm model hmod
  · exact (hreg r hr).coding hcod hsm
  · exact hmod

/-- Without a decision, the model of a call of a flow is small talk, or it has not been at a
boundary. -/
theorem model_of_flow (hcod : x.asked.resolved.isCodingAgent = false) :
    SmallTalk judge cfg x.asked ∧ model = (x.asked.resolved.tier3Model.or
          (cheapest x.asked.resolved.provider)).getD x.asked.resolved.model ∨
      ¬ SmallTalk judge cfg x.asked ∧ model = x.asked.resolved.model := by
  rcases hserved.of_missed hmissed with ⟨hsm, hmod⟩ | ⟨hmod, hwhy⟩
  · refine .inl ⟨hsm, ?_⟩
    rcases hmod with hmod | ⟨hno, r, hr, rfl⟩
    · rw [hmod, some_or, getD_some]
    · rw [hno, none_or, (hreg r hr).flow hcod hsm]
  · refine .inr ⟨?_, hmod⟩
    rintro ⟨query, hque, -⟩
    rcases hwhy with hno | ⟨hdra, hno⟩
    · rw [hno] at hque
      cases hque
    · exact (hreg none hno).draws hcod hdra rfl

include hserved' hmissed' hreg'

/-- Two calls of a turn without a decision get the same model. -/
theorem model_of_missed (htu : SameTurn judge x.asked y.asked)
    (hsa : SameSettings x.asked y.asked) (hche : PlainTalk judge cfg x.asked)
    (hche' : PlainTalk judge cfg y.asked) : model = model' := by
  cases hcod : y.asked.resolved.isCodingAgent with
  | true =>
    have hcod' := hsa.isCodingAgent.trans hcod
    rw [model_of_coding hserved hmissed hreg hcod' hche,
      model_of_coding hserved' hmissed' hreg' hcod hche', hsa.model]
  | false =>
    have hboth : SmallTalk judge cfg x.asked ↔ SmallTalk judge cfg y.asked := by
      rw [SmallTalk, SmallTalk, boundaryQuery_flow hcod htu hsa]
    rcases model_of_flow hserved hmissed hreg (hsa.isCodingAgent.trans hcod) with
      ⟨hsm, rfl⟩ | ⟨hsm, rfl⟩
    · rcases model_of_flow hserved' hmissed' hreg' hcod with ⟨-, rfl⟩ | ⟨hsm', -⟩
      · rw [hsa.tier3Model, hsa.provider, hsa.model]
      · exact absurd (hboth.1 hsm) hsm'
    · rcases model_of_flow hserved' hmissed' hreg' hcod with ⟨hsm', -⟩ | ⟨-, rfl⟩
      · exact absurd (hboth.2 hsm') hsm
      · exact hsa.model

end

/-- **All calls of a turn are served with the same model**, in every run in which the calls of a
conversation come in their turn, small talk does not lead to another model, and there is a model for
the tiers that are drawn in flows. -/
theorem model_sticky (htasks : c₀.tasks = []) {h : List (Step (system judge cfg stores))}
    (hruns : Runs c₀ h c) (hmeets : ∀ st ∈ h, Meets judge cfg stores cheapest st) {i j : Nat}
    (hij : i < j) {q q' : Call F} (hq : c.request i = some q) (hq' : c.request j = some q')
    (hturn : SameTurn judge q q') {d d' : RouteDecision} (hd : c.answer i = some (.ok d))
    (hd' : c.answer j = some (.ok d')) : d.model = d'.model := by
  have hst : Ordered judge cfg stores c₀ ∧ Kept judge cfg cheapest c₀ fun _ => none := by
    have hno : ∀ {i q}, c₀.request i = some q → False := by simp [request, htasks]
    refine ⟨⟨?_, ?_, ?_, ?_⟩, ⟨?_, ?_, ?_, ?_, ?_⟩⟩
    · exact fun i j q q' _ hi => (hno hi).elim
    · exact fun i j q q' _ hi => (hno hi).elim
    · exact fun i j k q q' q'' _ _ hi => (hno hi).elim
    · exact fun i q hi => (hno hi).elim
    all_goals
      intros
      contradiction
  obtain ⟨g, hknows, hordered, hkept⟩ :=
    kept_inductive.holds (calls_follows stores) htasks hst hruns hmeets
  obtain ⟨x, hx, hask, hserved⟩ := hknows.exists_of_answer hq hd
  obtain ⟨y, hy, hask', hserved'⟩ := hknows.exists_of_answer hq' hd'
  subst hask hask'
  obtain ⟨-, hsa⟩ := hordered.tools i j _ _ hij hq hq' hturn
  by_cases hloo : LooksUp y.asked
  · obtain ⟨hlk, hy'⟩ := hserved'.of_looksUp hloo
    have hagr : y.found = x.found := hkept.agree i j x y hij hx hy hturn hlk
    obtain ⟨-, ⟨e, he, hmod⟩ | hmissed⟩ := hserved.of_looksUp (hloo.of_settings hsa)
    · rcases hy' with ⟨e', he', hmod'⟩ | hmissed'
      · rw [hagr, he] at he'
        rw [hmod, hmod', some.inj he']
      · rw [← hagr, hmissed'.found_eq] at he
        cases he
    · rcases hy' with ⟨e', he', -⟩ | hmissed'
      · rw [hagr, hmissed.found_eq] at he'
        cases he'
      · exact model_of_missed hserved hserved' hmissed hmissed' (fun r => hkept.registered i x r hx)
          (fun r => hkept.registered j y r hy) hturn hsa (hordered.cheap i _ hq)
          (hordered.cheap j _ hq')
  · -- Without a look at the cache, the settings decide.
    have hloo' : ¬ LooksUp x.asked := fun h =>
      hloo ⟨hsa.pinnedModel.symm.trans h.pinnedModel, hsa.hasLlmConfig.symm.trans h.hasLlmConfig⟩
    rw [hserved.of_not_looksUp hloo', hserved'.of_not_looksUp hloo, hsa.pinnedModel, hsa.model]

end

/-! ## Samples -/

/-- A greeting is small talk. -/
def sampleJudge : Judgement Int where
  isSubstantive query := query != "hi"
  signal _ := none
  classifyRequestType _ := .general
  turnHash _ ordinal query := toDigits 16 ordinal ++ query

def sampleStores : Stores Unit where
  load _ _ := ()
  classify _ _ := none
  classifyTyped _ _ _ _ _ _ := .tier1
  modelFor _ _ _ := none

/-- A coding agent with a model for each tier. -/
def codingConfig : ResolvedConfig Int :=
  { provider := "openai"
    model := "medium"
    litellmModel := "openai/medium"
    apiKey := "key"
    fallbackModels := []
    temperature := none
    maxTokens := none
    hasLlmConfig := true
    pinnedModel := none
    tier1Model := some "large".toList
    tier2Model := some "medium".toList
    tier3Model := some "small".toList
    platformPaid := true
    customEndpoint := none
    isCodingAgent := true
    compressEnabled := false }

/-- The prompt of a user, and after it the results of a tool as often as given. -/
def sampleMessages (prompt : Str) (results : Nat) : List (Message Int) :=
  ⟨"user", some (.string prompt), none, none⟩ ::
    (List.replicate results
      [⟨"assistant", none,
          some [⟨"call", "function", ⟨"list", "\x7b\x7d"⟩⟩], none⟩,
        ⟨"tool", some (.string "README"), none, some "call"⟩]).flatten

def sampleCall (prompt : Str) (results : Nat) : Call Int :=
  { agentId := "agent"
    resolved := codingConfig
    attribution := ⟨[], none, none, .freeFlowing⟩
    signals := requestSignals (sampleMessages prompt results) }

/-- The routing starts with an empty cache. -/
def sampleStart : Config (system sampleJudge sampleGateway sampleStores) :=
  ⟨⟨fun _ _ => none, 0⟩, []⟩

/-- A prompt, and the results of a tool. -/
def sampleTurn (prompt : Str) (steps : Nat) : List (Action (Call Int)) :=
  .spawn (sampleCall prompt 0) :: Action.turns 0 steps ++
    .spawn (sampleCall prompt 1) :: Action.turns 1 1

instance (judge : Judgement Int) (q q' : Call Int) : Decidable (SameTurn judge q q') :=
  decidable_of_iff (q.agentId = q'.agentId ∧
      (q.boundary judge).convId = (q'.boundary judge).convId ∧
      q.signals.query = q'.signals.query ∧ q.signals.turnOrdinal = q'.signals.turnOrdinal)
    ⟨fun h => ⟨⟨h.1, h.2.1⟩, h.2.2.1, h.2.2.2⟩,
      fun h => ⟨h.agentId, h.convId, h.query, h.turnOrdinal⟩⟩

def asksRegistry : RouteCommand Unit Int → Bool
  | .modelFor _ _ => true
  | _ => false

/-- A step of a run with one turn, that is not small talk, and without the registry. -/
def tame (st : Step (system sampleJudge sampleGateway sampleStores)) : Bool :=
  match st.action with
  | .spawn q =>
    st.before.tasks.all (fun t => t.next.isNone && decide (SameTurn sampleJudge t.request q) &&
      decide (t.request.resolved = q.resolved ∧ t.request.attribution = q.attribution) &&
      q.signals.isToolContinuation) && q.signals.query.all sampleJudge.isSubstantive
  | .run i _ => !(st.before.next i).any asksRegistry
  | _ => true

theorem meets_of_tame {st : Step (system sampleJudge sampleGateway sampleStores)}
    (h : tame st = true) :
    Meets sampleJudge sampleGateway sampleStores (fun _ => none) st := by
  obtain ⟨before, action, after⟩ := st
  cases action with
  | spawn q =>
    simp only [tame, Bool.and_eq_true, List.all_eq_true, decide_eq_true_eq, isNone_iff_eq_none]
      at h
    obtain ⟨hall, hque⟩ := h
    have hbef : ∀ i q', before.request i = some q' → before.next i = none ∧
        SameTurn sampleJudge q' q ∧ q.signals.isToolContinuation = true ∧ SameSettings q' q := by
      intro i q' hi
      obtain ⟨t, ht, rfl⟩ := map_eq_some_iff.1 hi
      obtain ⟨⟨⟨hnx, htu⟩, hres, hatt⟩, htl⟩ := hall t (List.mem_of_getElem? ht)
      refine ⟨by rw [next, ht]; exact hnx, htu, htl, ?_⟩
      exact ⟨by rw [hres], by rw [hres], by rw [hres], by rw [hres],
        by rw [hres], by rw [hres], by rw [hatt]⟩
    refine ⟨fun i q' hi _ => (hbef i q' hi).1, fun i q' hi _ => (hbef i q' hi).2.2,
      fun i j q' q'' _ hi hj _ _ => ?_, fun _ hsm => ?_⟩
    · have h₁ := (hbef i q' hi).2.1
      have h₂ := (hbef j q'' hj).2.1
      exact ⟨h₁.toSameKey.trans h₂.toSameKey.symm, h₁.query.trans h₂.query.symm,
        h₁.turnOrdinal.trans h₂.turnOrdinal.symm⟩
    · obtain ⟨query, hbou, hsm⟩ := hsm
      have hq : q.signals.query = some query := (ite_none_right_eq_some.1 hbou).2
      rw [hq, all_some, hsm] at hque
      cases hque
  | run i o =>
    intro q provider tier _ hnx
    simp only [tame] at h
    rw [show before.next i = _ from hnx] at h
    cases h
  | drop i | crash => trivial

theorem model_sticky_refactor :
    ∃ (h : List (Step (system sampleJudge sampleGateway sampleStores))) (c : _)
      (d d' : RouteDecision), Runs sampleStart h c ∧
      c.request 0 = some (sampleCall "refactor this" 0) ∧
      c.request 1 = some (sampleCall "refactor this" 1) ∧ c.answer 0 = some (.ok d) ∧
      c.answer 1 = some (.ok d') ∧ d.source = .classified ∧ d.model = d'.model := by
  obtain ⟨h, c, hruns, htame, hq, hq', hd, hd'⟩ := exists_runs sampleStart
    (sampleTurn "refactor this" 5) (fun h c => (∀ st ∈ h, tame st = true) ∧
      c.request 0 = some (sampleCall "refactor this" 0) ∧
      c.request 1 = some (sampleCall "refactor this" 1) ∧
      c.answer 0 = some (.ok ⟨"large", some .tier1, .classified⟩) ∧
      c.answer 1 = some (.ok ⟨"large", some .tier1, .cacheHit⟩))
    (by decide +kernel)
  refine ⟨h, c, _, _, hruns, hq, hq', hd, hd', rfl, ?_⟩
  exact model_sticky rfl hruns (fun st hst => meets_of_tame (htame st hst)) zero_lt_one hq hq'
    (by decide +kernel) hd hd'

/-- **The model changes in the middle of a tool loop**: a coding agent is greeted, which is small
talk, and goes on with the results of a tool. -/
theorem small_talk_forgotten :
    ∃ (h : List (Step (system sampleJudge sampleGateway sampleStores))) (c : _),
      Runs sampleStart h c ∧ c.request 0 = some (sampleCall "hi" 0) ∧
      c.request 1 = some (sampleCall "hi" 1) ∧
      SameTurn sampleJudge (sampleCall "hi" 0) (sampleCall "hi" 1) ∧
      (sampleCall "hi" 1).signals.isToolContinuation = true ∧
      c.answer 0 = some (.ok ⟨"small", none, .smallTalk⟩) ∧
      c.answer 1 = some (.ok ⟨"medium", none, .config⟩) :=
  exists_runs sampleStart (sampleTurn "hi" 1) _ (by decide +kernel)

end Nasiko.LlmRouter.Turns
