import Nasiko.McpGateway.Protocol

/-!
# Which commands a handler uses

A tool runs when a backend is asked to run it, and a human's decision is used when it is looked up
or claimed. The other commands are quiet. Most parts of the handlers use quiet commands only; the
lemmas here say so for every predicate `K` on commands that holds of the quiet ones.
-/

namespace Nasiko.McpGateway

open Concurrency Program

/-- The command neither runs a tool nor uses a decision of a human. -/
def Command.quiet : Command → Bool
  | .callTool _ _ _ _ _ | .hasActiveSessionGrant _ _ _ _ _ | .claimResolvedToolApproval _ _ _ _ _ =>
    false
  | _ => true

variable {K : Command → Prop} {env : Env} {config : Config} {α : Type}

theorem calls_okOrNone {p : Prog (Option α)} (h : Calls K p) : Calls K (okOrNone p) := by
  refine calls_bind (calls_attempt h) fun r => ?_
  cases r <;> exact calls_pure

theorem calls_okOrEmpty {p : Prog (List α)} (h : Calls K p) : Calls K (okOrEmpty p) := by
  refine calls_bind (calls_attempt h) fun r => ?_
  cases r <;> exact calls_pure

/-- The tool that a `tools/call` runs, and its arguments; the meta-tools run none. -/
def routedCall (params : Value) : Option (Str × Value) :=
  let toolName := (strField params "name").getD []
  if toolName = callToolMeta then (parseCallToolTarget (field params "arguments")).toOption
  else if toolName = searchToolsMeta ∨ toolName = recoverCompressedMeta then none
  else some (toolName, (field params "arguments").getD (.object []))

variable {userId agentId connectorId : Uuid} {toolName : Str} {reqId params : Value} {c : Call}
  {resolved : ResolvedSession} {perms : PermissionContext} {traceparent verifiedFlowId : Option Str}
  {arguments : Value}

section

variable (h : ∀ c : Command, c.quiet = true → K c)

include h

/-! ## Requests to a human -/

theorem calls_resolveContextId : Calls K (resolveContextId verifiedFlowId) := by
  cases verifiedFlowId with
  | none => exact calls_pure
  | some traceId =>
    exact calls_bind (calls_okOrNone (calls_perform (h _ rfl))) fun _ => calls_pure

theorem calls_createToolApprovalId :
    Calls K (createToolApprovalId env userId agentId connectorId toolName verifiedFlowId) := by
  refine calls_bind (calls_resolveContextId h) fun contextId => ?_
  cases contextId with
  | none => exact calls_pure
  | some contextId =>
    refine calls_attempt_bind (h _ rfl) fun r => ?_
    cases r <;> exact calls_pure

theorem calls_askWithHitlRequest {label : Str} : Calls K
      (askWithHitlRequest env userId agentId connectorId toolName label reqId verifiedFlowId) :=
  calls_bind (calls_createToolApprovalId h) fun _ => calls_pure

theorem calls_authUrl : Calls K (authUrl userId connectorId) := by
  refine calls_bind (calls_okOrNone (calls_perform (h _ rfl))) fun connector => ?_
  cases connector with
  | none => exact calls_pure
  | some connector => exact calls_ite (calls_okOrNone (calls_perform (h _ rfl))) calls_pure

theorem calls_handleAuthRequired {connectorName : Str} : Calls K
      (handleAuthRequired env userId reqId agentId connectorId connectorName verifiedFlowId) := by
  refine calls_bind (calls_resolveContextId h) fun contextId => ?_
  cases contextId with
  | none => exact calls_pure
  | some contextId =>
    refine calls_bind (calls_authUrl h) fun url => ?_
    refine calls_attempt_bind (h _ rfl) fun r => ?_
    cases r <;> exact calls_pure

theorem calls_detectComposioAuthRequired {response : Value} : Calls K
      (detectComposioAuthRequired env config userId reqId agentId connectorId verifiedFlowId
        response) := by
  refine calls_ite ?_ calls_pure
  refine calls_bind (calls_okOrNone (calls_perform (h _ rfl))) fun connector => ?_
  cases connector with
  | none => exact calls_pure
  | some connector =>
    simp only
    cases connector.authConfigId with
    | none => exact calls_pure
    | some authConfigId =>
      refine calls_attempt_bind (h _ rfl) fun r => ?_
      cases r with
      | error e => exact calls_pure
      | ok status => exact calls_ite calls_pure (calls_handleAuthRequired h)

/-! ## Refusals -/

theorem calls_createApprovalIds {asked : List (Uuid × Str)} :
    Calls K (createApprovalIds env c asked) := by
  induction asked with
  | nil => exact calls_pure
  | cons x rest ih =>
    exact calls_bind (calls_createToolApprovalId h) fun _ =>
      calls_bind ih fun _ => calls_pure

theorem calls_refuseBatch {b : Batch} : Calls K (refuseBatch env c b) :=
  calls_ite (calls_bind (calls_createApprovalIds h) fun _ => calls_pure)
    (calls_ite calls_pure (calls_ite calls_pure calls_pure))

theorem calls_unconnected : Calls K (unconnected c) := by
  refine calls_bind (calls_okOrNone (calls_perform (h _ rfl))) fun connector => ?_
  cases connector with
  | none => exact calls_pure
  | some connector =>
    exact calls_attempt_bind (h _ rfl) fun _ => calls_pure

theorem calls_authCandidates {connectors : List Uuid} : Calls K (authCandidates c connectors) := by
  induction connectors with
  | nil => exact calls_pure
  | cons connectorId rest ih =>
    exact calls_ite ih (calls_bind (calls_okOrNone (calls_perform (h _ rfl))) fun _ =>
      calls_bind ih fun _ => calls_pure)

theorem calls_unroutable {e : McpError} : Calls K (unroutable env c e) := by
  simp only [unroutable]
  split
  · exact calls_ite (calls_handleAuthRequired h) calls_pure
  · refine calls_bind (calls_unconnected h) fun connector => ?_
    cases connector with
    | some connector => exact calls_handleAuthRequired h
    | none =>
      refine calls_ite (calls_bind (calls_authCandidates h) fun candidates => ?_)
        (calls_bind calls_pure fun candidates => ?_)
      all_goals
        split
        · exact calls_handleAuthRequired h
        · exact calls_pure

/-! ## Meta-tools -/

theorem calls_searchTools : Calls K (searchTools env config userId reqId arguments perms) := by
  refine calls_attempt_bind (h _ rfl) fun r => ?_
  cases r with
  | error e => exact calls_pure
  | ok accessible =>
    exact calls_bind (calls_okOrEmpty (calls_perform (h _ rfl))) fun _ => calls_pure

theorem calls_recoverCompressed :
    Calls K (recoverCompressed env userId reqId arguments traceparent) := by
  simp only [recoverCompressed]
  split
  · exact calls_pure
  · split
    · exact calls_pure
    · refine calls_attempt_bind (h _ rfl) fun r => ?_
      rcases r with e | (_ | ⟨content, contentType⟩) <;> exact calls_pure

theorem calls_handleToolsCall (hrt : routedCall params = none) : Calls K
      (handleToolsCall env config userId reqId params resolved perms traceparent
        verifiedFlowId) := by
  simp only [routedCall] at hrt
  simp only [handleToolsCall]
  split at hrt
  · rename_i hca
    rw [if_pos hca]
    cases htgt : parseCallToolTarget (field params "arguments") with
    | error message => exact calls_pure
    | ok x =>
      rw [htgt] at hrt
      cases hrt
  · rename_i hca
    rw [if_neg hca]
    split at hrt
    · split
      · exact calls_searchTools h
      · rename_i hmeta hsea
        rw [if_pos (hmeta.resolve_left hsea)]
        exact calls_recoverCompressed h
    · cases hrt

end

theorem handleToolsCall_eq {name : Str} (hrt : routedCall params = some (name, arguments)) :
    handleToolsCall env config userId reqId params resolved perms traceparent verifiedFlowId =
      callRoutedTool env config ⟨userId, reqId, name, resolved, perms, verifiedFlowId⟩ arguments
        traceparent := by
  simp only [routedCall] at hrt
  simp only [handleToolsCall]
  split at hrt
  · rename_i hca
    rw [if_pos hca]
    cases htgt : parseCallToolTarget (field params "arguments") with
    | error message =>
      rw [htgt] at hrt
      cases hrt
    | ok x =>
      rw [htgt] at hrt
      cases hrt
      rfl
  · rename_i hca
    rw [if_neg hca]
    split at hrt
    · cases hrt
    · rename_i hmeta
      rw [not_or] at hmeta
      rw [if_neg hmeta.1, if_neg hmeta.2]
      cases hrt
      rfl

end Nasiko.McpGateway
