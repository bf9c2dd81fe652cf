import Nasiko.Json.Basic

/-!
# An agent is a tool

The reasoning loop offers every agent to the model as a tool, under a name that is made from the
name of the agent: `-`, space, `.` and `/` become `_`. A call is looked up by that name.

**Theorem (`delegates_iff`).** Among agents with different names, every call of the tool of an agent
that is not refused goes to this agent, if and only if the names are still different when those
characters are replaced.

The set of tools has one entry for a name, so of two agents with one tool name one is never called
(`underscore_called`).
-/

namespace Nasiko.ReactAgent

open Option List

structure AgentInfo where
  id : Str
  name : Str
  endpoint : Str
  deriving DecidableEq

structure ToolCall where
  name : Str
  arguments : Str

def toolName (agentName : Str) : Str :=
  "call_agent_" ++ agentName.map fun c => if c ∈ ['-', ' ', '.', '/'] then '_' else c

/-- The tools in the order in which they are added to the set. -/
def buildTools (agents : List AgentInfo) : List (Str × AgentInfo) :=
  agents.map fun agent => (toolName agent.name, agent)

/-- The set of tools is not part of the crate. It finds a tool for every name that one was added
with, and finds a tool that was added with the name. -/
structure Keyed (get : List (Str × AgentInfo) → Str → Option AgentInfo) : Prop where
  mem : ∀ tools name agent, get tools name = some agent → (name, agent) ∈ tools
  found : ∀ tools name agent, (name, agent) ∈ tools → get tools name ≠ none

/-- What the loop meets outside, with the state that it has there. -/
structure Outside (S : Type) where
  /-- The policy and the guard may refuse a call. -/
  blocked : S → ToolCall → Bool × S
  /-- The agent is called, and may wait for a human. -/
  call : S → AgentInfo → Str → Bool × S

section

variable (get : List (Str × AgentInfo) → Str → Option AgentInfo) {S : Type} (out : Outside S)

/-- The loop over the tool calls of a turn: the calls that are not refused, each with the agent that
it is delegated to. A pause ends the run. -/
def callTools (tools : List (Str × AgentInfo)) : S → List ToolCall → List (Str × Option AgentInfo)
  | _, [] => []
  | s, tc :: calls =>
    match out.blocked s tc with
    | (true, s) => callTools tools s calls
    | (false, s) =>
      match get tools tc.name with
      | none => (tc.name, none) :: callTools tools s calls
      | some agent =>
        match out.call s agent tc.arguments with
        | (true, _) => [(tc.name, some agent)]
        | (false, s) => (tc.name, some agent) :: callTools tools s calls

/-- Every call of the tool of an agent goes to this agent. -/
def Delegates (agents : List AgentInfo) : Prop :=
  ∀ (S : Type) (out : Outside S) (s : S) (calls : List ToolCall), ∀ agent ∈ agents,
    ∀ d ∈ callTools get out (buildTools agents) s calls, d.1 = toolName agent.name →
      d.2 = some agent

variable {get out} {agents : List AgentInfo}

theorem eq_get_of_mem_callTools {tools : List (Str × AgentInfo)} {s : S} {calls : List ToolCall}
    {d : Str × Option AgentInfo} (h : d ∈ callTools get out tools s calls) :
      d.2 = get tools d.1 := by
  induction calls generalizing s with
  | nil => cases h
  | cons tc calls ih =>
    rw [callTools] at h
    split at h
    · exact ih h
    · split at h
      · rcases mem_cons.1 h with rfl | h
        · next hget => exact hget.symm
        · exact ih h
      · next agent hget =>
        split at h
        · obtain rfl := mem_singleton.1 h
          exact hget.symm
        · rcases mem_cons.1 h with rfl | h
          · exact hget.symm
          · exact ih h

theorem delegates_iff_get :
    Delegates get agents ↔ ∀ agent ∈ agents, get (buildTools agents) (toolName agent.name) =
      some agent := by
  constructor
  · intro h agent hmem
    -- Nothing is refused, and the tool of the agent is called alone.
    let out : Outside Unit := ⟨fun s _ => (false, s), fun s _ _ => (true, s)⟩
    have hcall : (toolName agent.name, get (buildTools agents) (toolName agent.name)) ∈
        callTools get out (buildTools agents) () [⟨toolName agent.name, []⟩] := by
      simp only [callTools, out]
      split <;> simp_all
    exact h Unit out () _ agent hmem _ hcall rfl
  · intro h S out s calls agent hmem d hd hname
    rw [eq_get_of_mem_callTools hd, hname, h agent hmem]

/-- **Every call of the tool of an agent goes to this agent, if and only if the tools have different
names.** -/
theorem delegates_iff (hget : Keyed get) (hnames : agents.Pairwise fun a b => a.name ≠ b.name) :
    Delegates get agents ↔ agents.Pairwise fun a b => toolName a.name ≠ toolName b.name := by
  rw [delegates_iff_get]
  constructor
  · intro h
    refine hnames.imp_of_mem fun {a b} ha hb hne heq => hne ?_
    have hab := (h a ha).symm.trans (heq ▸ h b hb)
    rw [some.inj hab]
  · intro hpai agent hmem
    have hadd : (toolName agent.name, agent) ∈ buildTools agents := mem_map_of_mem hmem
    obtain ⟨found, hfd⟩ := ne_none_iff_exists'.1 (hget.found _ _ _ hadd)
    obtain ⟨found', hmem', heq⟩ := mem_map.1 (hget.mem _ _ _ hfd)
    obtain ⟨hname, rfl⟩ := Prod.mk.inj heq
    have hnd : (agents.map fun a => toolName a.name).Nodup := pairwise_map.2 hpai
    rw [hfd, inj_on_of_nodup_map hnd hmem' hmem hname]

end

/-! ## Samples -/

def lastAdded (tools : List (Str × AgentInfo)) (name : Str) : Option AgentInfo :=
  (tools.reverse.find? (·.1 = name)).map Prod.snd

theorem keyed_lastAdded : Keyed lastAdded where
  mem tools name agent h := by
    obtain ⟨⟨n, a⟩, hfind, rfl⟩ := map_eq_some_iff.1 h
    have hname : n = name := by simpa using find?_some hfind
    exact hname ▸ mem_reverse.1 (mem_of_find?_eq_some hfind)
  found tools name agent h hnone := by
    rw [lastAdded, map_eq_none_iff, find?_eq_none] at hnone
    exact hnone _ (mem_reverse.2 h) (by simp)

def dash : AgentInfo := ⟨"1", "data-bot", "http://one"⟩

def underscore : AgentInfo := ⟨"2", "data_bot", "http://two"⟩

def other : AgentInfo := ⟨"3", "mail-bot", "http://three"⟩

theorem delegates_iff_other : Delegates lastAdded [dash, other] :=
  (delegates_iff keyed_lastAdded (by decide)).2 (by decide)

/-- **The tool of one agent calls another one**, whose name has a `_` in place of the `-`. -/
theorem underscore_called : dash.name ≠ underscore.name ∧
      callTools lastAdded (⟨fun s _ => (false, s), fun s _ _ => (false, s)⟩ : Outside Unit)
        (buildTools [dash, underscore]) () [⟨toolName dash.name, "hello"⟩] =
      [(toolName dash.name, some underscore)] := by
  decide

end Nasiko.ReactAgent
