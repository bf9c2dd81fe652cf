import Nasiko.McpGateway.Protocol

/-!
# What the raw `traceparent` decides

The trace id in the raw header is only a claim of the caller. For calls without a verified flow it
is not forwarded to any backend, and no request to a human is opened for it. One meta-tool reads it
all the same: `recover_compressed` looks for the elided content in the flow that the header names.

`raw_trace_ignored_iff` compares a request under two headers. The answers and the requests to the
backends are the same in every world, unless the request recovers content and the headers name
different flows.
-/

namespace Nasiko.McpGateway

open Concurrency Program Option

def Command.reachesBackend : Command → Bool
  | .listTools _ _ | .callTool _ _ _ _ _ | .composioConnect _ _ | .checkConnectionStatus _ _
  | .refreshEndpoint _ => true
  | _ => false

/-- What the database, the caches and the backends answer, given what has been asked before. -/
abbrev World := List Command → Respond

/-- What is seen of a request: its answer, and what the backends are asked. -/
def seenOf {α : Type} (world : World) (p : Prog α) : Except McpError α × List Command :=
  ((p.play world []).1, (p.play world []).2.filter Command.reachesBackend)

def paramsOf (body : Value) : Value := (field body "params").getD (.object [])

def argumentsOf (params : Value) : Value := (field params "arguments").getD (.object [])

/-- The request asks to recover content, by a handle that can be read. -/
structure Recovers (env : Env) (body : Value) : Prop where
  id : (field body "id").isSome = true
  method : methodOf body = toolsCall
  tool : (strField (paramsOf body) "name").getD [] = recoverCompressedMeta
  handle : ((strField (argumentsOf (paramsOf body)) "handle").bind
    (parseRecoveryHandle env)).isSome = true

variable {env : Env} {config : Config} {userId agentId : Uuid} {body : Value} {tp tp' : Option Str}
  {reqId arguments : Value}

/-! ## The header is not read -/

theorem callRoutedTool_unverified {c : Call} (h : c.verifiedFlowId = none) :
    callRoutedTool env config c arguments tp = callRoutedTool env config c arguments tp' := by
  unfold callRoutedTool afterGates
  rw [h]
  rfl

theorem recoverCompressed_congr
    (h : ((strField arguments "handle").bind (parseRecoveryHandle env)).isSome = true →
      tp.bind flowIdOf = tp'.bind flowIdOf) :
    recoverCompressed env userId reqId arguments tp =
      recoverCompressed env userId reqId arguments tp' := by
  unfold recoverCompressed
  cases hhan : (strField arguments "handle").bind (parseRecoveryHandle env) with
  | none => rfl
  | some handle =>
    rw [hhan] at h
    rw [h rfl]

theorem handleToolsCall_congr {params : Value} {resolved : ResolvedSession}
    {perms : PermissionContext} (h : (strField params "name").getD [] = recoverCompressedMeta →
      ((strField (argumentsOf params) "handle").bind (parseRecoveryHandle env)).isSome = true →
        tp.bind flowIdOf = tp'.bind flowIdOf) :
    handleToolsCall env config userId reqId params resolved perms tp none =
      handleToolsCall env config userId reqId params resolved perms tp' none := by
  simp only [handleToolsCall]
  by_cases hcall : (strField params "name").getD [] = callToolMeta
  · rw [if_pos hcall, if_pos hcall]
    rcases parseCallToolTarget (field params "arguments") with message | ⟨name, arguments⟩
    · rfl
    · exact callRoutedTool_unverified rfl
  · rw [if_neg hcall, if_neg hcall]
    refine if_congr Iff.rfl rfl ?_
    by_cases hrec : (strField params "name").getD [] = recoverCompressedMeta
    · rw [if_pos hrec, if_pos hrec]
      exact recoverCompressed_congr (h hrec)
    · rw [if_neg hrec, if_neg hrec]
      exact callRoutedTool_unverified rfl

theorem method_of_implements (himp : implements (methodOf body) = true)
    (hpi : methodOf body ≠ "ping") (hinit : methodOf body ≠ "initialize")
    (hlist : methodOf body ≠ toolsList) : methodOf body = toolsCall := by
  simp only [implements, Bool.or_eq_true, decide_eq_true_eq] at himp
  rcases himp with ((h | h) | h) | h
  · exact absurd h hinit
  · exact absurd h hpi
  · exact absurd h hlist
  · exact h

/-- The handler is the same, unless content is to be recovered from different flows. -/
theorem handleRequest_congr (h : Recovers env body → tp.bind flowIdOf = tp'.bind flowIdOf) :
    handleRequest env config userId agentId body tp none =
      handleRequest env config userId agentId body tp' none := by
  simp only [handleRequest]
  cases hid : field body "id" with
  | none => rfl
  | some reqId =>
    by_cases himp : implements (methodOf body) = true
    case neg => simp only [himp, Bool.not_false, if_true]
    simp only [himp]
    by_cases hpi : methodOf body = "ping"
    case pos => rw [if_pos hpi, if_pos hpi]
    rw [if_neg hpi, if_neg hpi]
    refine bind_congr fun perms => ?_
    rcases perms with e | perms
    · rfl
    refine bind_congr fun resolved => ?_
    rcases resolved with e | resolved
    · rfl
    by_cases hinit : methodOf body = "initialize"
    case pos => simp only [if_pos hinit]
    simp only [if_neg hinit]
    refine bind_congr fun signed => ?_
    by_cases hlist : methodOf body = toolsList
    case pos => simp only [if_pos hlist]; rfl
    simp only [if_neg hlist]
    have hcall := method_of_implements himp hpi hinit hlist
    have hsame : handleToolsCall env config userId reqId (paramsOf body) signed perms tp none =
        handleToolsCall env config userId reqId (paramsOf body) signed perms tp' none :=
      handleToolsCall_congr fun htool hhan =>
        h ⟨by rw [hid]; rfl, hcall, htool, hhan⟩
    exact congrArg (fun p => p >>= fun answer => pure (some answer)) hsame

/-! ## The header is read -/

/-- There is content for every handle, and it tells the flow. -/
def tellsFlow : Respond
  | .loadPermissionContext agentId => .ok ⟨agentId, [], [], []⟩
  | .resolveSession _ => .ok ⟨[], [], [], []⟩
  | .compressionOriginal _ _ flowId => .ok (some (flowId, []))
  | c => silent c

/-- What a caller then gets. -/
def toldFlow (reqId : Value) : Option Str → Value
  | none => errResponse reqId .invalidParams
      "recover_compressed is only available inside a flow"
  | some flowId => okResponse reqId (.object
      [("_meta", .object [("content_type", .string [])]),
        ("content", .array [.object [("text", .string flowId),
          ("type", .string "text")]])])

theorem eval_recoverCompressed
    (h : ((strField arguments "handle").bind (parseRecoveryHandle env)).isSome = true) :
    (recoverCompressed env userId reqId arguments tp).eval tellsFlow =
      .ok (toldFlow reqId (tp.bind flowIdOf)) := by
  obtain ⟨handle, hhan⟩ := isSome_iff_exists.1 h
  simp only [recoverCompressed, hhan]
  cases tp.bind flowIdOf with
  | none | some flowId => rfl

theorem eval_handleRequest_recovers (hid : field body "id" = some reqId) (h : Recovers env body) :
    (handleRequest env config userId agentId body tp none).eval tellsFlow =
      .ok (some (toldFlow reqId (tp.bind flowIdOf))) := by
  have htool : (handleToolsCall env config userId reqId (paramsOf body) ⟨[], [], [], []⟩
      ⟨agentId, [], [], []⟩ tp none).eval tellsFlow = .ok (toldFlow reqId (tp.bind flowIdOf)) := by
    simp only [handleToolsCall, h.tool]
    exact eval_recoverCompressed h.handle
  simp only [handleRequest, hid, h.method]
  change (handleToolsCall env config userId reqId (paramsOf body) ⟨[], [], [], []⟩
    ⟨agentId, [], [], []⟩ tp none >>= fun answer => pure (some answer)).eval tellsFlow = _
  rw [eval_bind, htool]
  rfl

theorem toldFlow_injective : Function.Injective (toldFlow reqId) := by
  intro f f' heq
  cases f <;> cases f' <;> simp_all [toldFlow, okResponse, errResponse]

/-! ## Both directions -/

/-- **Without a verified flow the raw header makes no difference**, to the answer or to any backend,
exactly if the request does not recover content or the two headers name the same flow. -/
theorem raw_trace_ignored_iff (env : Env) (config : Config) (userId agentId : Uuid) (body : Value)
    (tp tp' : Option Str) :
    (∀ world, seenOf world (handleRequest env config userId agentId body tp none) =
      seenOf world (handleRequest env config userId agentId body tp' none)) ↔
    ¬ (Recovers env body ∧ tp.bind flowIdOf ≠ tp'.bind flowIdOf) := by
  constructor
  · rintro hsame ⟨hrec, hflow⟩
    obtain ⟨reqId, hid⟩ := isSome_iff_exists.1 hrec.id
    have heq := (Prod.mk.inj (hsame fun _ => tellsFlow)).1
    rw [play_fst, play_fst, eval_handleRequest_recovers hid hrec,
      eval_handleRequest_recovers hid hrec] at heq
    exact hflow (toldFlow_injective (some.inj (Except.ok.inj heq)))
  · intro h world
    rw [handleRequest_congr fun hrec => not_not.1 fun hflow => h ⟨hrec, hflow⟩]

/-! ### A conversation named by its trace id -/

def originalHandle : Uuid := 0xe0e0e0e0e0e0e0e0e0e0e0e0e0e0e0e0#128

/-- Something elided from a conversation of user 1. -/
def storedOriginal : World := fun _ c => match c with
  | .loadPermissionContext agentId => .ok ⟨agentId, [], [], []⟩
  | .resolveSession _ => .ok ⟨[], [], [], []⟩
  | .compressionOriginal handle ownerId flowId =>
    if handle = originalHandle ∧ ownerId = 1 ∧ flowId = "0123456789abcdef0123456789abcdef" then
      .ok (some ("the payroll table", "text/plain"))
    else .ok none
  | c => silent c

def recoverRequest : Value := .object
  [("id", .number "1"), ("method", .string toolsCall),
    ("params", .object [("name", .string recoverCompressedMeta),
      ("arguments", .object [("handle",
        .string "nasiko://c/e0e0e0e0-e0e0-e0e0-e0e0-e0e0e0e0e0e0")])])]

def traceOfConversation : Str := "00-0123456789abcdef0123456789abcdef-0123456789abcdef-01"

def traceOfNothing : Str := "00-f123456789abcdef0123456789abcdef-0123456789abcdef-01"

def searchOff : Config := ⟨.none, 10, 10, [], false⟩

/-- The header alone decides whether the content of the conversation is returned. -/
theorem raw_trace_selects_conversation :
    (seenOf storedOriginal (handleRequest (sample []) searchOff 1 7 recoverRequest
      (some traceOfConversation) none)).1 = .ok (some (okResponse (.number "1") (.object
        [("_meta", .object [("content_type", .string "text/plain")]),
          ("content", .array [.object [("text", .string "the payroll table"),
            ("type", .string "text")]])]))) ∧
    (seenOf storedOriginal (handleRequest (sample []) searchOff 1 7 recoverRequest
      (some traceOfConversation) none)).1 ≠
    (seenOf storedOriginal (handleRequest (sample []) searchOff 1 7 recoverRequest
      (some traceOfNothing) none)).1 :=
  ⟨rfl, by decide +kernel⟩

end Nasiko.McpGateway
