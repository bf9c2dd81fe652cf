import Nasiko.McpGateway.Access

/-!
# Listing and calling

The agent calls a tool by the name under which it was listed. Two things should then hold: the
router finds the backend that reported the tool, and the tool is not denied.

A name with a prefix leads back to its backend. A bare name, of a system backend or of Composio,
does so only if it does not look like a name with a prefix and no other backend comes first
(`names_route_back_iff`). The tools of Composio are listed without a look at the permissions, so one
can be listed and then denied; `listed_not_denied_iff` says which tools these are.
-/

namespace Nasiko.McpGateway

open Concurrency Program List Except MCPServerConfig

def IsFirst {α : Type} (p : α → Bool) (l : List α) (a : α) : Prop :=
  p a = true ∧ ∃ before after, l = before ++ a :: after ∧ ∀ b ∈ before, p b = false

theorem find?_eq_some_iff_isFirst {α : Type} {p : α → Bool} {l : List α} {a : α} :
    l.find? p = some a ↔ IsFirst p l a := by
  rw [find?_eq_some_iff_append]
  simp [IsFirst]

/-! ## What is listed -/

variable {env : Env} {respond : Respond} {userId : Uuid}
  {servers : List MCPServerConfig} {connectedToolkits : List Str} {perms : PermissionContext}
  {traceparent : Option Str}

/-- What the active backends answer when they are asked for their tools. -/
def answers (respond : Respond) (servers : List MCPServerConfig)
    (traceparent : Option Str) : List (MCPServerConfig × Except McpError (List Value)) :=
  (servers.filter MCPServerConfig.active).map fun s => (s, respond (.listTools s traceparent))

/-- A list that is in the cache was made from what the backends answer. -/
def CacheFresh (env : Env) (respond : Respond) (userId : Uuid)
    (servers : List MCPServerConfig) (connectedToolkits : List Str) (perms : PermissionContext)
    (traceparent : Option Str) : Prop :=
  ∀ tools, respond (.manifestGet (manifestKey env userId servers connectedToolkits perms.hash)) =
    .ok (some tools) → tools = mergeTools perms (answers respond servers traceparent)

theorem eval_listAll (ss : List MCPServerConfig) : (listAll traceparent ss).eval respond =
    .ok (ss.map fun s => (s, respond (.listTools s traceparent))) := by
  induction ss with
  | nil => rfl
  | cons s ss ih => simp [listAll, ih]

theorem eval_aggregateTools
    (hcac : CacheFresh env respond userId servers connectedToolkits perms traceparent) :
    (aggregateTools env userId servers connectedToolkits perms traceparent).eval respond =
      .ok (mergeTools perms (answers respond servers traceparent)) := by
  have hmiss : (listAll traceparent (servers.filter active) >>= fun results => do
      let _ ← attempt (perform (Command.manifestSet
        (manifestKey env userId servers connectedToolkits perms.hash) (mergeTools perms results)))
      pure (mergeTools perms results) : Prog (List Value)).eval respond =
      .ok (mergeTools perms (answers respond servers traceparent)) := by
    simp [eval_listAll, answers]
  simp only [aggregateTools, okOrNone, eval_bind, eval_attempt, eval_perform]
  cases hget :
    respond (.manifestGet (manifestKey env userId servers connectedToolkits perms.hash)) with
  | error e => exact hmiss
  | ok cached =>
    cases cached with
    | none => exact hmiss
    | some tools => rw [← hcac tools hget]; rfl

theorem mem_mergeTools {results : List (MCPServerConfig × Except McpError (List Value))}
    {out : Value} : out ∈ mergeTools perms results ↔
      ∃ s tool, (s, tool) ∈ reported results ∧ listTool perms s tool = some out := by
  simp [mergeTools]

theorem mem_of_reported {s : MCPServerConfig} {tool : Value}
    (h : (s, tool) ∈ reported (answers respond servers traceparent)) :
    s ∈ servers ∧ s.active = true := by
  obtain ⟨⟨s', r⟩, hmem, hs⟩ := mem_flatMap.1 h
  obtain ⟨s'', hs'', heq⟩ := mem_map.1 hmem
  obtain ⟨rfl, rfl⟩ := Prod.mk.inj heq
  cases hr : respond (.listTools s'' traceparent) with
  | error e => simp [hr] at hs
  | ok tools =>
    simp only [hr, mem_map] at hs
    obtain ⟨t, -, rfl, -⟩ := hs
    exact mem_filter.1 hs''

theorem field_setField {v old x : Value} {key : Str} (h : field v key = some old) :
    field (setField key x v) key = some x := by
  cases v with
  | object fields =>
    simp only [field, setField] at h ⊢
    induction fields with
    | nil => cases h
    | cons e fields ih =>
      rw [Entries.get?_cons] at h
      rw [map_cons, Entries.get?_cons]
      by_cases hkey : e.1 = key
      · simp [hkey]
      · rw [if_neg hkey] at h
        simpa [hkey] using ih h
  | _ => cases h

variable {tool : Value} {original name : Str} {s : MCPServerConfig}

theorem nameOf_setField (h : nameOf tool = some original) :
    nameOf (setField "name" (.string name) tool) = some name := by
  obtain ⟨old, hold, -⟩ := Option.bind_eq_some_iff.1 h
  rw [nameOf, strField, field_setField hold]
  rfl

/-- The backend lists a tool that it knows by this name. -/
def Lists (perms : PermissionContext) (s : MCPServerConfig) (original : Str) : Prop :=
  match s.kind with
  | .composio => "COMPOSIO_".toList.isPrefixOf original = false
  | .mcp => (s.system = true → original ∈ s.toolNames) ∧
      perms.decide s.connectorId original ≠ .denied

/-- The name under which it lists the tool. -/
def shownName (s : MCPServerConfig) (original : Str) : Str :=
  match s.kind with
  | .composio => original
  | .mcp => listedName s original

section

variable (hname : nameOf tool = some original)

include hname

theorem composioTool_named :
    composioTool tool = if "COMPOSIO_".toList.isPrefixOf original then none else some tool := by
  rw [composioTool, hname]

theorem genericTool_named : genericTool perms s tool =
      if s.system = true ∧ original ∉ s.toolNames then none
      else if perms.decide s.connectorId original = .denied then none
      else if s.system = true then some tool
      else some (setField "name" (.string (listedName s original)) tool) := by
  simp [genericTool, hname]

theorem listTool_of_lists (h : Lists perms s original) :
    ∃ out, listTool perms s tool = some out ∧ nameOf out = some (shownName s original) := by
  rw [Lists] at h
  rw [listTool, shownName]
  cases hki : s.kind with
  | composio =>
    rw [hki] at h
    rw [composioTool_named hname, if_neg (Bool.eq_false_iff.1 h)]
    exact ⟨tool, rfl, hname⟩
  | mcp =>
    rw [hki] at h
    obtain ⟨hcat, hdec⟩ := h
    rw [if_neg (by decide), if_pos (decide_ne_denied_iff.1 hdec).1, genericTool_named hname,
      if_neg (by tauto), if_neg hdec]
    by_cases hsys : s.system = true
    · exact ⟨tool, if_pos hsys, by rw [hname, listedName, if_pos hsys]⟩
    · exact ⟨_, if_neg hsys, nameOf_setField hname⟩

end

theorem lists_of_listTool {out : Value} (hls : listTool perms s tool = some out)
    (hname : nameOf out = some name) :
    ∃ original, nameOf tool = some original ∧ Lists perms s original ∧
      name = shownName s original := by
  rw [listTool] at hls
  simp only [Lists, shownName]
  cases hki : s.kind with
  | composio =>
    rw [if_pos hki] at hls
    cases hto : nameOf tool with
    | none =>
      rw [composioTool, hto] at hls
      cases hls
      rw [hto] at hname
      cases hname
    | some original =>
      rw [composioTool_named hto] at hls
      by_cases hmeta : "COMPOSIO_".toList.isPrefixOf original = true
      · rw [if_pos hmeta] at hls
        cases hls
      · rw [if_neg hmeta] at hls
        cases hls
        exact ⟨original, rfl, Bool.eq_false_iff.2 hmeta, Option.some.inj (hname.symm.trans hto)⟩
  | mcp =>
    rw [if_neg (by rw [hki]; decide)] at hls
    by_cases hen : perms.isConnectorEnabled s.connectorId = true
    · rw [if_pos hen] at hls
      cases hto : nameOf tool with
      | none =>
        rw [genericTool, hto] at hls
        cases hls
      | some original =>
        rw [genericTool_named hto] at hls
        split at hls
        · cases hls
        · split at hls
          · cases hls
          · rename_i hdec
            refine ⟨original, rfl, ⟨by tauto, hdec⟩, ?_⟩
            split at hls
            · rename_i hsys
              cases hls
              rw [listedName, if_pos hsys]
              exact Option.some.inj (hname.symm.trans hto)
            · cases hls
              exact Option.some.inj (hname.symm.trans (nameOf_setField hto))
    · rw [if_neg hen] at hls
      cases hls

theorem shownName_of_bare (hba : s.kind = .mcp → s.system = true) :
    shownName s original = original := by
  rw [shownName]
  cases hki : s.kind with
  | composio => rfl
  | mcp => rw [listedName, if_pos (hba hki)]

/-! ## Routing a listed name -/

theorem routeTool_prefixed
    (h : IsFirst (fun s' => s'.hasPrefix (connectorPrefix s.connectorId)) servers s) :
    routeTool (connectorPrefix s.connectorId ++ separator ++ original) servers =
      .ok (s, original) := by
  rw [routeTool, splitOnce_prefix]
  simp only
  rw [find?_eq_some_iff_isFirst.2 h]

/-- A bare name leads to a backend under the same name only without the separator. -/
theorem routeTool_bare_iff : routeTool name servers = .ok (s, name) ↔
    ¬ separator <:+: name ∧ (IsFirst (fun s' => s'.ownsName name) servers s ∨
      (∀ s' ∈ servers, s'.ownsName name = false) ∧
        IsFirst (fun s' => s'.isComposio) servers s) := by
  rw [← splitOnce_eq_none_iff, ← find?_eq_some_iff_isFirst, ← find?_eq_some_iff_isFirst, routeTool]
  cases hspl : splitOnce name with
  | some ab =>
    obtain ⟨pre, rest⟩ := ab
    have hne := splitOnce_ne hspl
    cases hfind : servers.find? fun s' => s'.hasPrefix pre with
    | none => simp [hfind]
    | some s' => simp [hfind, hne]
  | none =>
    cases hown : servers.find? fun s' => s'.ownsName name with
    | some s' =>
      have hmem := mem_of_find?_eq_some hown
      have howns := find?_some hown
      simp only [ok.injEq, Prod.mk.injEq, and_true, true_and, Option.some.injEq]
      refine ⟨Or.inl, fun h => h.resolve_right fun hno => ?_⟩
      rw [hno.1 s' hmem] at howns
      cases howns
    | none =>
      have hno : ∀ s' ∈ servers, s'.ownsName name = false := by
        simpa using find?_eq_none.1 hown
      cases hcom : servers.find? fun s' => s'.isComposio with
      | some s' => simpa using fun _ => hno
      | none => simp

/-- A bare name leads back to its backend. -/
def BareNameClear (servers : List MCPServerConfig) (s : MCPServerConfig) (name : Str) : Prop :=
  ¬ separator <:+: name ∧
    if s.system then IsFirst (fun s' => s'.ownsName name) servers s
    else (∀ s' ∈ servers, s'.ownsName name = false) ∧ IsFirst (fun s' => s'.isComposio) servers s

theorem routeTool_eq_iff_bareNameClear :
    routeTool name servers = .ok (s, name) ↔ BareNameClear servers s name := by
  rw [routeTool_bare_iff, BareNameClear]
  by_cases hsys : s.system = true
  · -- A system backend is no Composio session.
    rw [if_pos hsys, or_iff_left]
    rintro ⟨-, hfst, -⟩
    simp only [isComposio, Bool.and_eq_true, decide_eq_true_eq] at hfst
    have hki : s.kind = .composio := hfst.1
    exact absurd hsys (by simp [(s.composioPlain hki).2])
  · rw [if_neg hsys, or_iff_right]
    rintro ⟨howns, -⟩
    simp only [ownsName, Bool.and_eq_true] at howns
    exact hsys howns.1.1

theorem isFirst_hasPrefix (hdis : (servers.map fun s => connectorPrefix s.connectorId).Nodup)
    (hmem : s ∈ servers) (hact : s.active = true) (hki : s.kind = .mcp) :
    IsFirst (fun s' => s'.hasPrefix (connectorPrefix s.connectorId)) servers s := by
  obtain ⟨before, after, rfl⟩ := append_of_mem hmem
  refine ⟨by simp [hasPrefix, hact, hki], before, after, rfl, fun b hb => ?_⟩
  rw [map_append, nodup_append] at hdis
  have hne := hdis.2.2 _ (mem_map_of_mem hb) _ mem_cons_self
  simp [hasPrefix, hne]

/-- **Listed names lead back** to the backend that reported the tool and to the name it has there,
if no two connectors share a prefix, exactly if every bare name that is listed is clear. -/
theorem names_route_back_iff
    (hdistinct : (servers.map fun s => connectorPrefix s.connectorId).Nodup)
    (hcache : CacheFresh env respond userId servers connectedToolkits perms traceparent) :
    (∀ tools, (aggregateTools env userId servers connectedToolkits perms traceparent).eval respond =
        .ok tools → ∀ out ∈ tools, ∀ s tool,
      (s, tool) ∈ reported (answers respond servers traceparent) →
        listTool perms s tool = some out →
      ∀ name, nameOf out = some name →
        ∃ original, nameOf tool = some original ∧ routeTool name servers = .ok (s, original)) ↔
      ∀ s tool name, (s, tool) ∈ reported (answers respond servers traceparent) →
        nameOf tool = some name → Lists perms s name → (s.kind = .mcp → s.system = true) →
        BareNameClear servers s name := by
  rw [eval_aggregateTools hcache]
  constructor
  · intro h s tool name hrep hname hlis hba
    obtain ⟨out, hls, hout⟩ := listTool_of_lists hname hlis
    rw [shownName_of_bare hba] at hout
    obtain ⟨original, hori, hrt⟩ := h _ rfl out (mem_mergeTools.2 ⟨s, tool, hrep, hls⟩)
      s tool hrep hls name hout
    obtain rfl := Option.some.inj (hname.symm.trans hori)
    exact routeTool_eq_iff_bareNameClear.1 hrt
  · rintro h tools - out - s tool hrep hls name hname
    obtain ⟨hmem, hact⟩ := mem_of_reported hrep
    obtain ⟨original, hori, hlis, rfl⟩ := lists_of_listTool hls hname
    refine ⟨original, hori, ?_⟩
    by_cases hba : s.kind = .mcp → s.system = true
    · rw [shownName_of_bare hba]
      exact routeTool_eq_iff_bareNameClear.2 (h s tool original hrep hori hlis hba)
    · push Not at hba
      obtain ⟨hki, hsys⟩ := hba
      rw [shownName, hki]
      simp only [listedName, if_neg hsys]
      exact routeTool_prefixed (isFirst_hasPrefix hdistinct hmem hact hki)

/-! ### Two sets of backends -/

/-- As `silent`, with backends that report tools. -/
def reporting (tools : MCPServerConfig → List Value) : Respond
  | .listTools s _ => .ok (tools s)
  | c => silent c

def toolNamed (name : Str) : Value := .object [("name", .string name)]

def workspaceId : Uuid := 0xa0a0a0a0a0a0a0a0a0a0a0a0a0a0a0a0#128

def gmailId : Uuid := 0xc0c0c0c0c0c0c0c0c0c0c0c0c0c0c0c0#128

def mapsId : Uuid := 0xd0d0d0d0d0d0d0d0d0d0d0d0d0d0d0d0#128

/-- The platform's own backend. -/
def workspace (toolNames : List Str) : MCPServerConfig where
  connectorId := workspaceId
  kind := .mcp
  name := "workspace"
  url := "http://127.0.0.1:8000/workspace"
  headers := []
  trusted := true
  system := true
  toolNames := toolNames
  instructions := none
  composioPlain := by rintro ⟨⟩

def generic (connectorId : Uuid) : MCPServerConfig where
  connectorId := connectorId
  kind := .mcp
  name := "generic"
  url := "https://mcp.example.com"
  headers := []
  trusted := false
  system := false
  toolNames := []
  instructions := none
  composioPlain := by rintro ⟨⟩

def composioSession : MCPServerConfig where
  connectorId := 0
  kind := .composio
  name := "composio"
  url := "https://backend.composio.dev/mcp"
  headers := []
  trusted := false
  system := false
  toolNames := []
  instructions := none
  composioPlain := fun _ => ⟨rfl, rfl⟩

/-- A user with a workspace that has one tool, and with mail behind Composio. -/
def mailSession : ResolvedSession :=
  ⟨[workspace ["echo"], composioSession], ["gmail"], [("gmail", gmailId)], []⟩

def mailTools (s : MCPServerConfig) : List Value :=
  if s.system then [toolNamed "echo"] else [toolNamed "GMAIL_SEND_EMAIL"]

/-- The hash in the key of the cache is that of the backends. -/
def mailEnv : Env := sample [(String.toList (
    "[[[\"00000000-0000-0000-0000-000000000000\",\"https://backend.composio.de" ++
    "v/mcp\",\"\"],[\"a0a0a0a0-a0a0-a0a0-a0a0-a0a0a0a0a0a0\",\"http://127.0.0.1:8" ++
    "000/workspace\",\"\"]],[\"gmail\"]]"), "e3b4966cc633ff25")]

/-- An agent that may use the given connectors. -/
def enabling (connectors : List Uuid) (rules : List PermissionRule) : PermissionContext :=
  ⟨1, connectors, rules, []⟩

/-- A workspace with one tool, and a generic backend that has a tool with the separator in its
name. -/
def twoBackends : List MCPServerConfig := [workspace ["echo"], generic notesId]

def twoBackendsTools (s : MCPServerConfig) : List Value :=
  if s.system then [toolNamed "echo"] else [toolNamed "read__all"]

/-- The hash in the key of the cache. -/
def twoBackendsEnv : Env := sample [(String.toList (
    "[[[\"a0a0a0a0-a0a0-a0a0-a0a0-a0a0a0a0a0a0\",\"http://127.0.0.1:8000/works" ++
    "pace\",\"\"],[\"b0b0b0b0-b0b0-b0b0-b0b0-b0b0b0b0b0b0\",\"https://mcp.example" ++
    ".com\",\"\"]],[]]"), "b969b5331bf111b3")]

theorem two_backends_route_back :
    (∀ tools, (aggregateTools twoBackendsEnv 1 twoBackends [] (enabling [workspaceId, notesId] [])
        none).eval (reporting twoBackendsTools) = .ok tools → ∀ out ∈ tools, ∀ s tool,
      (s, tool) ∈ reported (answers (reporting twoBackendsTools) twoBackends none) →
      listTool (enabling [workspaceId, notesId] []) s tool = some out →
      ∀ name, nameOf out = some name →
        ∃ original, nameOf tool = some original ∧ routeTool name twoBackends = .ok (s, original)) ∧
    (mergeTools (enabling [workspaceId, notesId] [])
      (answers (reporting twoBackendsTools) twoBackends none)).length = 2 := by
  refine ⟨(names_route_back_iff (by decide +kernel) fun tools h => by cases h).2 ?_,
    by decide +kernel⟩
  intro s tool name hrep hname _ hba
  have hall : reported (answers (reporting twoBackendsTools) twoBackends none) =
      [(workspace ["echo"], toolNamed "echo"), (generic notesId, toolNamed "read__all")] := rfl
  rw [hall, mem_pair] at hrep
  rcases hrep with heq | heq
  · cases heq
    obtain rfl : "echo" = name := Option.some.inj hname
    exact routeTool_eq_iff_bareNameClear.1 rfl
  · cases heq
    exact absurd (hba rfl) (by decide)

/-- A workspace with a tool whose name has the separator. -/
def saveFile : List MCPServerConfig := [workspace ["save__file"]]

def saveFileTools (_ : MCPServerConfig) : List Value := [toolNamed "save__file"]

def saveFileEnv : Env := sample [(String.toList (
    "[[[\"a0a0a0a0-a0a0-a0a0-a0a0-a0a0a0a0a0a0\",\"http://127.0.0.1:8000/works" ++
    "pace\",\"\"]],[]]"), "addf08cae0b9c658")]

/-- The tool `save__file` of the workspace is listed under its bare name. The router takes it for
the tool `file` of a connector `save`, and there is none. -/
theorem bare_name_with_separator_lost :
    (saveFile.map fun s => connectorPrefix s.connectorId).Nodup ∧
    ∃ tools, (aggregateTools saveFileEnv 1 saveFile [] (enabling [workspaceId] []) none).eval
        (reporting saveFileTools) = .ok tools ∧
      ∃ out ∈ tools, nameOf out = some "save__file".toList ∧
        ∀ s original, routeTool "save__file" saveFile ≠ .ok (s, original) := by
  refine ⟨by decide, _, eval_aggregateTools fun tools h => (by cases h),
    toolNamed "save__file", ?_, rfl, ?_⟩
  · exact mem_singleton.2 rfl
  · intro s original h
    cases h

/-! ## Calling what is listed -/

/-- **No tool that is listed is denied** when it is called by that name, exactly if every tool of
Composio that is listed leads to a connector that is enabled and does not block it, and so does
every name that leads to another tool than its own. -/
theorem listed_not_denied_iff {env : Env} {config : Config} {respond : Respond} {userId : Uuid}
    {resolved : ResolvedSession} {perms : PermissionContext} {traceparent : Option Str}
    (hcache : CacheFresh env respond userId resolved.servers resolved.connectedToolkits perms
      traceparent) :
    (∀ tools, (aggregateTools env userId resolved.servers resolved.connectedToolkits perms
        traceparent).eval respond = .ok tools → ∀ out ∈ tools, ∀ name, nameOf out = some name →
      ¬ CallDenied env config userId resolved perms name) ↔
    ∀ s tool original, (s, tool) ∈ reported (answers respond resolved.servers traceparent) →
      nameOf tool = some original → Lists perms s original →
      (∀ connectorId called,
        resolved.calledTool (shownName s original) = some (connectorId, called) →
        s.kind = .composio ∨ (connectorId, called) ≠ (s.connectorId, original) →
        perms.isConnectorEnabled connectorId = true ∧ perms.getStance connectorId called ≠ .block) ∧
      ∀ connectorId, resolved.awaited (shownName s original) = some connectorId →
        perms.isConnectorEnabled connectorId = true := by
  rw [eval_aggregateTools hcache]
  simp only [callDenied_iff]
  constructor
  · intro h s tool original hrep hname hlis
    obtain ⟨out, hls, hout⟩ := listTool_of_lists hname hlis
    obtain ⟨hcal, hawa⟩ := callAccess_ne_denied_iff.1
      (h _ rfl out (mem_mergeTools.2 ⟨s, tool, hrep, hls⟩) _ hout)
    exact ⟨fun connectorId called hc _ => decide_ne_denied_iff.1 (hcal connectorId called hc),
      fun connectorId ha => hawa (calledTool_of_awaited ha) connectorId ha⟩
  · rintro h tools htl out hout name hname
    obtain rfl := ok.inj htl
    obtain ⟨s, tool, hrep, hls⟩ := mem_mergeTools.1 hout
    obtain ⟨original, hori, hlis, rfl⟩ := lists_of_listTool hls hname
    obtain ⟨hoth, hawa⟩ := h s tool original hrep hori hlis
    refine callAccess_ne_denied_iff.2 ⟨fun connectorId called hc => ?_, fun _ => hawa⟩
    by_cases hown : s.kind = .composio ∨ (connectorId, called) ≠ (s.connectorId, original)
    · exact decide_ne_denied_iff.2 (hoth connectorId called hc hown)
    · -- The list has asked for this decision.
      push Not at hown
      obtain ⟨hki, heq⟩ := hown
      cases heq
      rw [Lists] at hlis
      cases hmcp : s.kind with
      | composio => exact absurd hmcp hki
      | mcp =>
        rw [hmcp] at hlis
        exact hlis.2

def noSearch : Config := ⟨.none, 10, 5, [], true⟩

/-- Mail is listed for an agent that may use it, and a call is not denied. -/
theorem mail_listed_not_denied :
    ¬ CallDenied mailEnv noSearch 1 mailSession (enabling [workspaceId, gmailId] [])
      "GMAIL_SEND_EMAIL" := by
  have hfr : CacheFresh mailEnv (reporting mailTools) 1 mailSession.servers
      mailSession.connectedToolkits (enabling [workspaceId, gmailId] []) none := by
    intro tools h
    cases h
  refine (listed_not_denied_iff hfr).2 ?_ _ (eval_aggregateTools hfr)
    (toolNamed "GMAIL_SEND_EMAIL") (mem_cons_of_mem _ (mem_singleton.2 rfl)) _ rfl
  intro s tool original hrep hname _
  have hall : reported (answers (reporting mailTools) mailSession.servers none) =
      [(workspace ["echo"], toolNamed "echo"),
        (composioSession, toolNamed "GMAIL_SEND_EMAIL")] := rfl
  rw [hall, mem_pair] at hrep
  rcases hrep with heq | heq
  · cases heq
    obtain rfl : "echo" = original := Option.some.inj hname
    refine ⟨fun connectorId called hcal _ => ?_, nofun⟩
    cases hcal
    decide
  · cases heq
    obtain rfl : "GMAIL_SEND_EMAIL" = original := Option.some.inj hname
    refine ⟨fun connectorId called hcal _ => ?_, nofun⟩
    cases hcal
    decide

/-- Mail is listed for an agent that may not use it, and a call is denied. -/
theorem composio_tool_listed_then_denied :
    ∃ tools, (aggregateTools mailEnv 1 mailSession.servers mailSession.connectedToolkits
        (enabling [workspaceId] []) none).eval (reporting mailTools) = .ok tools ∧
      ∃ out ∈ tools, nameOf out = some "GMAIL_SEND_EMAIL".toList ∧
        CallDenied mailEnv noSearch 1 mailSession (enabling [workspaceId] [])
          "GMAIL_SEND_EMAIL" := by
  refine ⟨_, eval_aggregateTools fun tools h => (by cases h), toolNamed "GMAIL_SEND_EMAIL",
    ?_, rfl, callDenied_iff.2 (by decide)⟩
  exact mem_cons_of_mem _ (mem_singleton.2 rfl)

end Nasiko.McpGateway
