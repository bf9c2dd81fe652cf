import Nasiko.McpGateway.Quiet
import Nasiko.Result

/-!
# The decision about a call

`ResolvedSession.calledTool` is the tool that a call by a name is decided about: a connector and the
name that the connector knows the tool by. `callAccess` is the decision.

**Theorem (`callDenied_iff`).** A `tools/call` is refused as blocked, whatever the backends and the
humans answer, exactly if the decision is `denied`.
-/

namespace Nasiko.McpGateway

open Concurrency Program Option Except

variable (resolved : ResolvedSession)

def ResolvedSession.calledTool (name : Str) : Option (Uuid × Str) :=
  if isMetaTool name then none
  else
    match routeTool name resolved.servers with
    | .error _ => none
    | .ok (server, original) =>
      match server.kind with
      | .mcp => some (server.connectorId, original)
      | .composio => (resolved.connectorOf name).map fun connectorId => (connectorId, name)

/-- The connector whose prefix the name has, if it is not there because the user has to
authenticate. -/
def ResolvedSession.awaited (name : Str) : Option Uuid :=
  match routeTool name resolved.servers with
  | .error _ => ((unusableReasonForPrefix name resolved.unusableConnectors).filter fun x =>
      x.2.reason = .authRequired).map Prod.fst
  | .ok _ => none

/-- The decision about a call by this name, where there is one. -/
def callAccess (perms : PermissionContext) (name : Str) : Option ToolAccess :=
  match resolved.calledTool name with
  | some (connectorId, original) => some (perms.decide connectorId original)
  | none =>
    match resolved.awaited name with
    | some connectorId => if perms.isConnectorEnabled connectorId then none else some .denied
    | none => none

variable {perms : PermissionContext} {connectorId : Uuid} {name : Str} {resolved : ResolvedSession}

theorem decide_ne_denied_iff : perms.decide connectorId name ≠ .denied ↔
      perms.isConnectorEnabled connectorId = true ∧ perms.getStance connectorId name ≠ .block := by
  rw [PermissionContext.decide]
  cases perms.isConnectorEnabled connectorId with
  | false => simp
  | true => cases perms.getStance connectorId name <;> simp

theorem callAccess_ne_denied_iff : callAccess resolved perms name ≠ some .denied ↔
      (∀ connectorId original, resolved.calledTool name = some (connectorId, original) →
        perms.decide connectorId original ≠ .denied) ∧
      (resolved.calledTool name = none → ∀ connectorId, resolved.awaited name = some connectorId →
        perms.isConnectorEnabled connectorId = true) := by
  rw [callAccess]
  cases resolved.calledTool name with
  | some x =>
    obtain ⟨connectorId, original⟩ := x
    simp
  | none =>
    cases resolved.awaited name with
    | none | some connectorId => simp

/-- A name that is decided about has a backend. -/
theorem calledTool_of_awaited (h : resolved.awaited name = some connectorId) :
    resolved.calledTool name = none := by
  rw [ResolvedSession.awaited] at h
  rw [ResolvedSession.calledTool]
  cases hrt : routeTool name resolved.servers with
  | error e => simp
  | ok x => simp [hrt] at h

/-! ## Calls that are denied -/

/-- The refusal of a tool that is blocked, or whose connector is disabled. -/
def blocked (reqId : Value) (toolName : Str) : Value :=
  errResponse reqId .toolBlocked (blockedMessage toolName)

/-- A call by this name is denied: where the user can reach the connectors, it is refused as
blocked, whatever else the call, the backends and the humans say. -/
def CallDenied (env : Env) (config : Config) (userId : Uuid) (resolved : ResolvedSession)
    (perms : PermissionContext) (name : Str) : Prop :=
  ∀ (respond : Respond) (reqId params : Value) (traceparent verifiedFlowId : Option Str),
    (∀ connectorId, respond (.canAccessConnector userId connectorId) = .ok true) →
    strField params "name" = some name →
    (handleToolsCall env config userId reqId params resolved perms traceparent verifiedFlowId).eval
      respond = .ok (blocked reqId name)

variable {env : Env} {config : Config} {c : Call} {respond : Respond} {arguments : Value}
  {traceparent : Option Str} {decidedName label : Str}
  {userId : Uuid}

theorem splitOnce_meta (h : isMetaTool name = true) : splitOnce name = none := by
  simp only [isMetaTool, Bool.or_eq_true, decide_eq_true_eq] at h
  rcases h with (rfl | rfl) | rfl <;> decide

/-- The tools of the gateway itself are not decided about. -/
theorem callAccess_meta (h : isMetaTool name = true) : callAccess resolved perms name = none := by
  have hawa : resolved.awaited name = none := by
    rw [ResolvedSession.awaited, unusableReasonForPrefix, splitOnce_meta h]
    split <;> rfl
  rw [callAccess, ResolvedSession.calledTool, if_pos h]
  simp only [hawa]

theorem decisionGate_denied (h : c.perms.decide connectorId decidedName = .denied) :
    decisionGate env c connectorId decidedName label =
      pure (some (blocked c.reqId c.toolName)) := by
  rw [decisionGate, h]
  rfl

theorem eval_callRoutedTool_denied
    (hreach : ∀ connectorId, respond (.canAccessConnector c.userId connectorId) = .ok true)
    (hmeta : isMetaTool c.toolName = false)
    (h : callAccess c.resolved c.perms c.toolName = some .denied) :
    (callRoutedTool env config c arguments traceparent).eval respond =
      .ok (blocked c.reqId c.toolName) := by
  rw [callAccess, ResolvedSession.calledTool, if_neg (by simp [hmeta]),
    ResolvedSession.awaited] at h
  rw [callRoutedTool]
  cases hrt : routeTool c.toolName c.resolved.servers with
  | error e =>
    simp only [hrt] at h
    simp only [unroutable]
    generalize (unusableReasonForPrefix c.toolName c.resolved.unusableConnectors).filter _ = found
      at h ⊢
    cases found with
    | none => cases h
    | some x =>
      simp only [map_some] at h
      split at h
      · cases h
      · rename_i hoff
        simp only [if_neg hoff]
        rfl
  | ok x =>
    obtain ⟨server, original⟩ := x
    simp only [hrt] at h
    cases hki : server.kind with
    | mcp =>
      simp only [hki] at h
      simp [unlessRefused, genericGate, hki, hreach, decisionGate_denied (some.inj h)]
    | composio =>
      simp only [hki] at h
      cases hco : c.resolved.connectorOf c.toolName with
      | none => simp [hco] at h
      | some connectorId =>
        simp only [hco, map_some] at h
        simp [unlessRefused, genericGate, composioGate, hki, hco,
          decisionGate_denied (some.inj h)]

theorem errResponse_ne_blocked {reqId : Value} {code : RpcCode} {message : Str}
    (h : codeNumber code ≠ codeNumber .toolBlocked) :
    errResponse reqId code message ≠ blocked reqId name := by
  intro heq
  simp [errResponse, blocked, h] at heq

/-- Without a flow nothing is asked of a human, and nobody answers. -/
theorem eval_decisionGate_silent (env : Env) (label : Str)
    (h : c.perms.decide connectorId decidedName ≠ .denied) (hflow : c.verifiedFlowId = none) :
    ∃ r, (decisionGate env c connectorId decidedName label).eval silent = .ok r ∧
      ∀ refusal, r = some refusal → refusal ≠ blocked c.reqId c.toolName := by
  rw [decisionGate]
  cases hdec : c.perms.decide connectorId decidedName with
  | denied => exact absurd hdec h
  | allowed => exact ⟨none, rfl, by simp⟩
  | ask =>
    refine ⟨_, by
      simp [resolveToolApprovalRetry, resolveContextId, hflow, askWithHitlRequest,
        createToolApprovalId]
      rfl, ?_⟩
    rintro _ ⟨⟩ heq
    simp [errDataResponse, blocked, errResponse] at heq

theorem eval_authCandidates_silent {connectors : List Uuid} :
    (authCandidates c connectors).eval silent = .ok [] := by
  induction connectors with
  | nil => rfl
  | cons connectorId rest ih =>
    rw [authCandidates]
    split
    · exact ih
    · simp [okOrNone, silent, ih]

theorem eval_forward_silent {server : MCPServerConfig} {original : Str} :
    (forward env config c server original arguments traceparent).eval silent =
      .ok (errResponse c.reqId .internalError (failedMessage server original)) := by
  simp only [forward, eval_bind, eval_attempt, eval_perform, silent]
  simp [retryMoved]
  split <;> simp [okOrNone, silent]

theorem eval_afterGates_silent {server : MCPServerConfig} {original : Str} :
    (afterGates env config c server original (.object []) traceparent).eval silent =
      .ok (errResponse c.reqId .internalError (failedMessage server original)) := by
  have htool : filterToolkits env c (.object []) = .ok (.object []) := by
    rw [filterToolkits]
    split <;> rfl
  have hbatch : filterBatch env c (.object []) = pure (.ok (.object [])) := by
    rw [filterBatch]
    split <;> rfl
  simp only [afterGates, htool, hbatch]
  exact eval_forward_silent

theorem unlessRefused_none {rest : Prog Value} : unlessRefused (pure none) rest = rest := rfl

theorem eval_unlessRefused_ne {gate : Prog (Option Value)} {rest : Prog Value} {r : Option Value}
    {v : Value} (hr : gate.eval silent = .ok r) (hne : ∀ refusal, r = some refusal → refusal ≠ v)
    (hrest : rest.eval silent ≠ .ok v) : (unlessRefused gate rest).eval silent ≠ .ok v := by
  refine (eval_bind_of_ok hr).trans_ne ?_
  cases r with
  | some refusal => exact fun heq => hne refusal rfl (ok.inj heq)
  | none => exact hrest

theorem eval_unroutable_silent {e : McpError} (hflow : c.verifiedFlowId = none)
    (h : ∀ x, (unusableReasonForPrefix c.toolName c.resolved.unusableConnectors).filter (fun x =>
      x.2.reason = .authRequired) = some x → c.perms.isConnectorEnabled x.1 = true) :
    ∃ code message, codeNumber code ≠ codeNumber .toolBlocked ∧
      (unroutable env c e).eval silent = .ok (errResponse c.reqId code message) := by
  rw [unroutable]
  generalize (unusableReasonForPrefix c.toolName c.resolved.unusableConnectors).filter _ = found
    at h ⊢
  cases found with
  | some x =>
    simp only [if_pos (h x rfl), handleAuthRequired, resolveContextId, hflow]
    exact ⟨_, _, by decide, rfl⟩
  | none =>
    have hunc : (unconnected c).eval silent = .ok none := by simp [unconnected, okOrNone, silent]
    refine ⟨.invalidParams, e.toStr, by decide, (eval_bind_of_ok hunc).trans ?_⟩
    simp only
    split
    · exact (eval_bind_of_ok eval_authCandidates_silent).trans rfl
    · rfl

theorem eval_callRoutedTool_silent (hmeta : isMetaTool c.toolName = false)
    (hflow : c.verifiedFlowId = none)
    (h : callAccess c.resolved c.perms c.toolName ≠ some .denied) :
    (callRoutedTool env config c (.object []) none).eval silent ≠
      .ok (blocked c.reqId c.toolName) := by
  have hdone : ∀ code message, codeNumber code ≠ codeNumber .toolBlocked →
      (ok (errResponse c.reqId code message) : Except McpError Value) ≠
        .ok (blocked c.reqId c.toolName) :=
    fun code message hcode heq => errResponse_ne_blocked hcode (ok.inj heq)
  obtain ⟨hcal, hawa⟩ := callAccess_ne_denied_iff.1 h
  rw [ResolvedSession.calledTool, if_neg (by simp [hmeta])] at hcal hawa
  rw [ResolvedSession.awaited] at hawa
  rw [callRoutedTool]
  cases hrt : routeTool c.toolName c.resolved.servers with
  | error e =>
    simp only [hrt, forall_const] at hawa
    obtain ⟨code, message, hcode, heval⟩ := eval_unroutable_silent hflow fun x hx =>
      hawa x.1 (by rw [hx]; rfl)
    exact heval.trans_ne (hdone code message hcode)
  | ok x =>
    obtain ⟨server, original⟩ := x
    simp only [hrt] at hcal ⊢
    have hlast : (afterGates env config c server original (.object []) none).eval silent ≠
        .ok (blocked c.reqId c.toolName) := eval_afterGates_silent.trans_ne (hdone _ _ (by decide))
    cases hki : server.kind with
    | mcp =>
      obtain ⟨r, hr, hne⟩ := eval_decisionGate_silent env server.name
        (hcal server.connectorId original (by rw [hki])) hflow
      have hopen : composioGate env c server = pure none := by simp [composioGate, hki]
      rw [hopen, unlessRefused_none]
      exact eval_unlessRefused_ne (by simpa [genericGate, hki, silent] using hr) hne hlast
    | composio =>
      have hopen : genericGate env c server original = pure none := by simp [genericGate, hki]
      rw [hopen, unlessRefused_none]
      cases hco : c.resolved.connectorOf c.toolName with
      | none =>
        have hopen : composioGate env c server = pure none := by simp [composioGate, hki, hco]
        rw [hopen]
        exact hlast
      | some connectorId =>
        obtain ⟨r, hr, hne⟩ := eval_decisionGate_silent env "composio"
          (hcal connectorId c.toolName (by rw [hki, hco]; rfl)) hflow
        exact eval_unlessRefused_ne (by simpa [composioGate, hki, hco] using hr) hne hlast

theorem routedCall_of_name {params : Value} (hname : strField params "name" = some name)
    (hmeta : isMetaTool name = false) :
    routedCall params = some (name, (field params "arguments").getD (.object [])) := by
  simp only [isMetaTool, Bool.or_eq_false_iff, decide_eq_false_iff_not] at hmeta
  obtain ⟨⟨hsearch, hcall⟩, hrecover⟩ := hmeta
  simp only [routedCall, hname, getD_some]
  rw [if_neg hcall, if_neg (not_or.2 ⟨hsearch, hrecover⟩)]

/-- The gateway answers a call of its own tools itself. -/
theorem eval_handleToolsCall_meta (hmeta : isMetaTool name = true) :
    (handleToolsCall env config userId .null (.object [("name", .string name)]) resolved perms
      none none).eval silent ≠ .ok (blocked .null name) := by
  simp only [isMetaTool, Bool.or_eq_true, decide_eq_true_eq] at hmeta
  intro heq
  rcases hmeta with (rfl | rfl) | rfl
  · exact some_ne_none _ (congrArg (field · "result") (ok.inj heq))
  · exact errResponse_ne_blocked (by decide) (ok.inj heq)
  · exact errResponse_ne_blocked (by decide) (ok.inj heq)

/-- **A call is denied exactly if the decision is.** -/
theorem callDenied_iff :
    CallDenied env config userId resolved perms name ↔
      callAccess resolved perms name = some .denied := by
  constructor
  · intro h
    by_contra hacc
    have hans := h silent .null (.object [("name", .string name)]) none none (fun _ => rfl) rfl
    cases hmeta : isMetaTool name with
    | true => exact eval_handleToolsCall_meta hmeta hans
    | false =>
      rw [handleToolsCall_eq (routedCall_of_name rfl hmeta)] at hans
      exact eval_callRoutedTool_silent (c := ⟨userId, .null, name, resolved, perms, none⟩)
        hmeta rfl hacc hans
  · intro h respond reqId params traceparent verifiedFlowId hreach hname
    cases hmeta : isMetaTool name with
    | true =>
      rw [callAccess_meta hmeta] at h
      cases h
    | false =>
      rw [handleToolsCall_eq (routedCall_of_name hname hmeta)]
      exact eval_callRoutedTool_denied
        (c := ⟨userId, reqId, name, resolved, perms, verifiedFlowId⟩) hreach hmeta h

end Nasiko.McpGateway
