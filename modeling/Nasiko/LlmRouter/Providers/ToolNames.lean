import Nasiko.LlmRouter.Config
import Nasiko.LlmRouter.Providers.BedrockConverse
import Nasiko.Json.Integers

/-!
# The names of tools at Bedrock

Bedrock wants names of letters, digits and underscores that begin with a letter. A name is changed
to such a name in the request, and the names in the reply are changed back with a map from the
changed names to the original ones.

**Theorem (`handedOn_iff`).** The tools of a request have different names. Every call that Bedrock
makes under the name of a tool is handed on as a call of this tool, if and only if the changed names
are different as well.

If two tools have the same changed name, the map has one of them, or none, and a call under that
name is handed on in one way only. If the names stay different, the entry of a name is that of its
tool, and a name that has not been changed has no entry.
-/

namespace Nasiko.LlmRouter.Providers.BedrockConverse

open List Function ToolBlocks

/-! ## The map -/

def sanitizeToolName (name : Str) : Str :=
  let out := name.map fun ch => if ch.isAlphanum || ch = '_' then ch else '_'
  if (out.head?.map Char.isAlpha).getD false then out else 't' :: out

variable {N F : Type}

def insertName (map : Str → Option Str) (t : ToolDef N) : Str → Option Str :=
  let sanitized := sanitizeToolName t.function.name
  if sanitized ≠ t.function.name then Function.update map sanitized (some t.function.name) else map

def buildToolNameMap (tools : List (ToolDef N)) : Str → Option Str :=
  tools.foldl insertName fun _ => none

/-- The map that comes with the request to Bedrock. -/
def requestNameMap (req : ChatRequest N F) : Str → Option Str :=
  match req.tools with
  | some tools => buildToolNameMap tools
  | none => fun _ => none

/-- The names under which Bedrock knows the tools. -/
def sanitizedNames (tools : List (ToolDef N)) : List Str :=
  tools.map fun t => sanitizeToolName t.function.name

variable {map : Str → Option Str} {tools : List (ToolDef N)} {t : ToolDef N} {key : Str}

theorem insertName_of_ne (h : sanitizeToolName t.function.name ≠ key) :
    insertName map t key = map key := by
  unfold insertName
  split
  · exact update_of_ne (Ne.symm h) _ _
  · rfl

/-- Tools that Bedrock knows by other names do not matter for a name. -/
theorem foldl_insertName_of_ne (h : ∀ t ∈ tools, sanitizeToolName t.function.name ≠ key) :
    tools.foldl insertName map key = map key := by
  induction tools generalizing map with
  | nil => rfl
  | cons t tools ih =>
    rw [foldl_cons, ih fun u hu => h u (mem_cons_of_mem t hu), insertName_of_ne (h t mem_cons_self)]

/-- The name of a tool is found again, if Bedrock knows no other tool by the same name. -/
theorem unsanitize_buildToolNameMap (hnd : (sanitizedNames tools).Nodup) (ht : t ∈ tools) :
    unsanitizeToolName (sanitizeToolName t.function.name) (buildToolNameMap tools) =
      t.function.name := by
  obtain ⟨before, after, rfl⟩ := append_of_mem ht
  rw [sanitizedNames, map_append, map_cons, nodup_append] at hnd
  obtain ⟨-, hcons, hdis⟩ := hnd
  have hbef : ∀ u ∈ before,
      sanitizeToolName u.function.name ≠ sanitizeToolName t.function.name := fun u hu =>
    hdis _ (mem_map_of_mem hu) _ mem_cons_self
  have haft : ∀ u ∈ after,
      sanitizeToolName u.function.name ≠ sanitizeToolName t.function.name := fun u hu heq =>
    (nodup_cons.1 hcons).1 (heq ▸ mem_map_of_mem hu)
  rw [unsanitizeToolName, buildToolNameMap, foldl_append, foldl_cons, foldl_insertName_of_ne haft]
  by_cases hna : sanitizeToolName t.function.name = t.function.name
  · rw [insertName, if_neg (not_not.2 hna), foldl_insertName_of_ne hbef]
    exact hna
  · rw [insertName, if_pos hna, update_self]
    rfl

/-! ## The calls of a reply -/

section

variable [SerdeJson N F] [AsI64 N]

/-- The calls of a reply in one piece, as Bedrock makes them. -/
def toolUses (body : Json N) : List (Json N) :=
  match (body.get "output").bind fun o => o.get "message" with
  | some message => (contentBlocks message).filterMap fun b => b.get "toolUse"
  | none => []

/-- The name of a call, as Bedrock gives it. -/
def toolUseName (tu : Json N) : Option Str := (tu.get "name").bind Json.asStr

def callNames (resp : ChatResponse N) : List Str :=
  resp.choices.flatMap fun c => (c.message.toolCalls.getD []).map fun call => call.function.name

variable {nameMap : Str → Option Str} {model : Str}

theorem callNames_fromConverseResponse {uuid : Nat → Str} {body : Json N} {now : Int}
    {resp : ChatResponse N} (h : fromConverseResponse uuid nameMap body model now = .ok resp) :
    callNames resp = (toolUses body).map fun tu =>
      unsanitizeToolName ((toolUseName tu).getD []) nameMap := by
  unfold fromConverseResponse at h
  unfold toolUses
  split at h
  · cases h
  · rename_i message hmsg
    cases h
    simp only [hmsg, callNames, flatMap_singleton]
    split
    · rename_i hemp
      rw [List.isEmpty_iff, List.map_eq_nil_iff] at hemp
      rw [hemp]
      rfl
    · rw [Option.getD_some, map_map]
      rfl

/-! ## The calls of a stream -/

def eventName (eventType : Str) (event : Json N) : Option Str :=
  if eventType = "contentBlockStart" then
    ((event.get "start").bind fun s => s.get "toolUse").bind toolUseName
  else none

variable (N) in
/-- The names of the calls that the frames begin, as far as they are read. -/
def announced : List (Except Str EventStreamFrame) → List Str
  | [] => []
  | .error _ :: _ => []
  | .ok frame :: rest =>
    if frame.isException then []
    else
      match (SerdeJson.fromStr frame.payload : Option (Json N)) with
      | none => announced rest
      | some event => (eventName frame.eventType event).toList ++ announced rest

def chunkNames (chunk : ChatChunk) : List Str :=
  chunk.choices.flatMap fun c => (c.delta.toolCalls.getD []).filterMap fun d => d.name

def itemNames : Except ProviderError ChatChunk → List Str
  | .ok chunk => chunkNames chunk
  | .error _ => []

def streamNames (items : List (Except ProviderError ChatChunk)) : List Str :=
  items.flatMap itemNames

theorem streamNames_ok (chunks : List ChatChunk) :
    streamNames (chunks.map .ok) = chunks.flatMap chunkNames := by
  rw [streamNames, flatMap_map]
  rfl

theorem names_fragment {block : Int} {part : Str} {s : StreamState} :
    (blocksDo model (fragment block part) s).2.flatMap chunkNames = [] := by
  unfold blocksDo fragment
  split <;> rfl

theorem names_stop {block : Int} {s : StreamState} :
    (blocksDo model (stop block) s).2.flatMap chunkNames = [] := by
  unfold blocksDo stop
  split
  · split <;> rfl
  · rfl

theorem names_onBlockStart {event : Json N} {s : StreamState} :
    (onBlockStart nameMap model event s).2.flatMap chunkNames =
      ((((event.get "start").bind fun st => st.get "toolUse").bind
        toolUseName).toList.map fun n => unsanitizeToolName n nameMap) := by
  unfold onBlockStart
  cases hst : (event.get "start").bind fun st => st.get "toolUse" with
  | none => rfl
  | some start =>
    simp only [toolUseName, Option.bind_some]
    cases (start.get "name").bind Json.asStr <;> rfl

theorem names_onBlockDelta {event : Json N} {s : StreamState} :
    (onBlockDelta model event s).2.flatMap chunkNames = [] := by
  unfold onBlockDelta
  cases event.get "delta" with
  | none => rfl
  | some delta =>
    dsimp only
    cases deltaText delta with
    | some text => rfl
    | none =>
      cases deltaInput delta with
      | some input => exact names_fragment
      | none => rfl

theorem names_onEvent (uuid : Nat → Str) (nameMap : Str → Option Str) (model eventType : Str)
    (event : Json N) (s : StreamState) :
    (onEvent uuid nameMap model eventType event s).2.flatMap chunkNames =
      (eventName eventType event).toList.map fun n => unsanitizeToolName n nameMap := by
  unfold onEvent eventName
  by_cases hst : eventType = "messageStart"
  · subst hst
    rfl
  · rw [if_neg hst]
    split
    · exact names_onBlockStart
    · split
      · exact names_onBlockDelta
      · split
        · exact names_stop
        · split
          · rfl
          · split <;> rfl

theorem names_terminal (model : Str) (s : StreamState) :
    (terminal model s).flatMap chunkNames = [] := by
  unfold terminal
  cases s.finish <;> cases s.usage <;> rfl

theorem names_streamFrom (uuid : Nat → Str) (nameMap : Str → Option Str) (model : Str)
    (frames : List (Except Str EventStreamFrame)) (s : StreamState) :
    streamNames (streamFrom N uuid nameMap model frames s) =
      (announced N frames).map fun n => unsanitizeToolName n nameMap := by
  induction frames generalizing s with
  | nil => rw [streamFrom, streamNames_ok, names_terminal, announced, map_nil]
  | cons item rest ih =>
    cases item with
    | error e => rfl
    | ok frame =>
      rw [streamFrom, announced]
      split
      · rfl
      · cases hevent : (SerdeJson.fromStr frame.payload : Option (Json N)) with
        | none => exact ih s
        | some event =>
          rw [streamNames, flatMap_append, ← streamNames, ← streamNames, streamNames_ok,
            names_onEvent, ih, map_append]

/-! ## Handing on -/

/-- A call under the name `raw` is handed on as a call of the tool `name`, in every reply. -/
structure HandedOn (N : Type) {F : Type} [SerdeJson N F] [AsI64 N] (nameMap : Str → Option Str)
    (raw name : Str) : Prop where
  whole : ∀ (uuid : Nat → Str) (body : Json N) (model : Str) (now : Int) (resp : ChatResponse N),
    fromConverseResponse uuid nameMap body model now = .ok resp → ∀ i : Nat,
      ((toolUses body)[i]?).bind toolUseName = some raw → (callNames resp)[i]? = some name
  streamed : ∀ (uuid : Nat → Str) (model : Str) (frames : List (Except Str EventStreamFrame))
    (i : Nat), (announced N frames)[i]? = some raw →
      (streamNames (converseEventStream N uuid nameMap model frames))[i]? = some name

theorem handedOn_of_unsanitize {raw name : Str} (h : unsanitizeToolName raw nameMap = name) :
    HandedOn N nameMap raw name where
  whole uuid body model now resp hresp i hi := by
    obtain ⟨tu, htu, hna⟩ := Option.bind_eq_some_iff.1 hi
    rw [callNames_fromConverseResponse hresp, getElem?_map, htu, Option.map_some, hna,
      Option.getD_some, h]
  streamed uuid model frames i hi := by
    rw [converseEventStream, names_streamFrom, getElem?_map, hi, Option.map_some, h]

def oneCall (raw : Str) : Json N :=
  .object [("output", .object [("message", .object [("content",
    .array [.object [("toolUse", .object [("name", .string raw)])]])])])]

theorem unsanitize_of_handedOn {raw name : Str} (h : HandedOn N nameMap raw name) :
    unsanitizeToolName raw nameMap = name := by
  obtain ⟨resp, hresp⟩ : ∃ resp,
      fromConverseResponse (fun _ => []) nameMap (oneCall raw : Json N) [] 0 = .ok resp := ⟨_, rfl⟩
  have hna := h.whole _ _ _ _ _ hresp 0 rfl
  rw [callNames_fromConverseResponse hresp] at hna
  exact Option.some.inj hna

variable (N) in
/-- Every call under the name of a tool of the request is handed on as a call of this tool. -/
def HandsOnCalls (req : ChatRequest N F) : Prop :=
  ∀ t ∈ req.tools.getD [],
    HandedOn N (requestNameMap req) (sanitizeToolName t.function.name) t.function.name

/-- **Calls are handed on as calls of their tools if and only if the changed names are
different.** -/
theorem handedOn_iff (req : ChatRequest N F)
    (hnames : ((req.tools.getD []).map fun t => t.function.name).Nodup) :
    HandsOnCalls N req ↔ (sanitizedNames (req.tools.getD [])).Nodup := by
  cases htl : req.tools with
  | none => simp [HandsOnCalls, htl, sanitizedNames]
  | some tools =>
    rw [htl] at hnames
    have hmap : requestNameMap req = buildToolNameMap tools := by rw [requestNameMap, htl]
    simp only [HandsOnCalls, htl, hmap]
    constructor
    · intro h
      have hinj : ∀ n ∈ tools.map (fun t => t.function.name),
          ∀ n' ∈ tools.map (fun t => t.function.name),
          sanitizeToolName n = sanitizeToolName n' → n = n' := by
        intro n hn n' hn' heq
        obtain ⟨t, ht, rfl⟩ := mem_map.1 hn
        obtain ⟨t', ht', rfl⟩ := mem_map.1 hn'
        rw [← unsanitize_of_handedOn (h t ht), ← unsanitize_of_handedOn (h t' ht'), heq]
      have hsan := hnames.map_on hinj
      rwa [map_map] at hsan
    · intro h t ht
      exact handedOn_of_unsanitize (unsanitize_buildToolNameMap h ht)

end

/-! ## Tools that share a changed name -/

def twoTools (first second : Str) : ChatRequest Int Int :=
  { model := none
    messages := []
    tools := some [⟨"function", ⟨first, none, none⟩, []⟩,
      ⟨"function", ⟨second, none, none⟩, []⟩]
    toolChoice := none
    temperature := none
    maxTokens := none
    stream := none
    extra := [] }

/-- With `get-x` and `get_y`, `get_x` in a reply stands for `get-x`. -/
theorem handedOn_iff_apart : HandsOnCalls Int (twoTools "get-x" "get_y") :=
  (handedOn_iff _ (by decide)).2 (by decide)

/-- With `get-x` and `get_x`, a call of `get_x` is handed on as a call of `get-x`. -/
theorem not_handedOn_together :
    (((twoTools "get-x" "get_x").tools.getD []).map fun t => t.function.name).Nodup ∧
      ¬ HandsOnCalls Int (twoTools "get-x" "get_x") := by
  refine ⟨by decide, fun h => ?_⟩
  have hna := unsanitize_of_handedOn (h ⟨"function", ⟨"get_x", none, none⟩, []⟩
    (mem_cons_of_mem _ mem_cons_self))
  exact absurd hna (by decide)

end Nasiko.LlmRouter.Providers.BedrockConverse
