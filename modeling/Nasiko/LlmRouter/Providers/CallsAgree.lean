import Nasiko.Json.Integers
import Nasiko.LlmRouter.Providers.Anthropic
import Nasiko.LlmRouter.Providers.BedrockConverse
import Nasiko.LlmRouter.Providers.ToolCalls

/-!
# The tool calls of a reply in chunks and in one piece

The clients of Anthropic and Bedrock pass the fragments of the input of a tool call on as they come.
For a reply in one piece they write the input as JSON themselves.

**Theorem (`tool_calls_agree`).** For every well-formed stream and the reply it is a stream of, the
chunks, put together, have the same calls as the translation of the reply: the same ids and names,
in the same order, and arguments that are read as the same JSON. The arguments are the same texts if
the fragments spell what the client would write, and they are `{}` for a call without input.

For each client it is shown what an event does to the blocks (`onEvent_blocks`), and from it what
the whole stream does; the rest is about the blocks alone (`calls_fold`).
-/

namespace Nasiko.LlmRouter.Providers

open List Function SerdeJson Emitter

theorem fragments_append (chunks chunks' : List ChatChunk) :
    fragments (chunks ++ chunks') = fragments chunks ++ fragments chunks' := flatMap_append

theorem fragments_callChunk (id model : Str) (ds : List ToolCallDelta) :
    fragments (ds.map (callChunk id model)) = ds := by
  induction ds with
  | nil => rfl
  | cons d ds ih =>
    rw [map_cons, ← singleton_append, fragments_append, ih]
    rfl

/-! ## Anthropic -/

namespace Anthropic

variable {N F : Type} [SerdeJson N F] [AsI64 N] (event : Json N)

/-- What a `content_block_delta` says about the blocks. -/
def deltaEvent : BlockEvent :=
  let delta := event.field "delta"
  if typeOf delta = some "input_json_delta".toList then
    match (delta.field "partial_json").asStr with
    | some part => .fragment (blockIndex event) part
    | none => .other
  else .other

def blockEvent : BlockEvent :=
  if typeOf event = some "content_block_start".toList then
    let block := event.field "content_block"
    if typeOf block = some "tool_use".toList then
      .start (blockIndex event) (block.field "id").asStr (block.field "name").asStr
    else .other
  else if typeOf event = some "content_block_delta".toList then deltaEvent event
  else if typeOf event = some "content_block_stop".toList then .stop (blockIndex event)
  else .other

/-- Why the reply has stopped, if the event says so. -/
def stopReason : Option Str :=
  if typeOf event = some "message_delta".toList then
    ((event.field "delta").field "stop_reason").asStr
  else none

/-- The event is neither an error nor the end of the message. -/
def IsInner (event : Json N) : Prop :=
  typeOf event ≠ some "error".toList ∧ typeOf event ≠ some "message_stop".toList

instance (event : Json N) : Decidable (IsInner event) := inferInstanceAs (Decidable (_ ∧ _))

structure Proceeds (s s' : StreamState) (chunks : List ChatChunk) : Prop where
  blocks : (blockEvent event).emit s.blocks = (s'.blocks, fragments chunks)
  finish : s'.finish = ((stopReason event).map mapStopReason).or s.finish

variable {event : Json N} {payloads : List Str} {events : List (Json N)} {s : StreamState}
  {model : Str}

theorem blocksDo_proceeds {e : BlockEvent} (hvi : blockEvent event = e)
    (hrea : stopReason event = none) (model : Str) (s : StreamState) :
    ∃ s' chunks, s.blocksDo model e.emit = .proceed s' chunks ∧ Proceeds event s s' chunks := by
  refine ⟨_, _, rfl, ?_, ?_⟩
  · rw [fragments_callChunk, hvi]
  · rw [hrea]
    rfl

theorem proceeds_other (hvi : blockEvent event = .other) (hrea : stopReason event = none)
    (s : StreamState) {chunks : List ChatChunk} (hchu : fragments chunks = []) :
    ∃ s' chunks', Next.proceed s chunks = .proceed s' chunks' ∧ Proceeds event s s' chunks' := by
  refine ⟨_, _, rfl, ?_, ?_⟩
  · rw [hvi, hchu]
    rfl
  · rw [hrea]
    rfl

theorem onBlockStart_proceeds (htype : typeOf event = some "content_block_start".toList) :
    ∃ s' chunks, onBlockStart model event s = .proceed s' chunks ∧ Proceeds event s s' chunks := by
  have hrea : stopReason event = none := by
    rw [stopReason, htype]
    rfl
  unfold onBlockStart
  by_cases htool : typeOf (event.field "content_block") = some "tool_use".toList
  · rw [if_pos htool]
    refine blocksDo_proceeds (e := .start _ _ _) ?_ hrea model s
    rw [blockEvent, if_pos htype, if_pos htool]
  · rw [if_neg htool]
    refine proceeds_other ?_ hrea s rfl
    rw [blockEvent, if_pos htype, if_neg htool]

theorem onBlockDelta_proceeds (htype : typeOf event = some "content_block_delta".toList) :
    ∃ s' chunks, onBlockDelta model event s = .proceed s' chunks ∧ Proceeds event s s' chunks := by
  have hrea : stopReason event = none := by
    rw [stopReason, htype]
    rfl
  have hvi : blockEvent event = deltaEvent event := by
    rw [blockEvent, htype]
    rfl
  unfold deltaEvent at hvi
  dsimp only at hvi
  unfold onBlockDelta
  by_cases hte : typeOf (event.field "delta") = some "text_delta".toList
  · have hoth : blockEvent event = .other := by
      rw [hvi, hte]
      rfl
    simp only [hte]
    cases ((event.field "delta").field "text").asStr with
    | some text | none => exact proceeds_other hoth hrea s rfl
  · by_cases hinp : typeOf (event.field "delta") = some "input_json_delta".toList
    · rw [if_pos hinp] at hvi
      rw [if_neg hte, if_pos hinp]
      cases hpart : ((event.field "delta").field "partial_json").asStr with
      | some part =>
        rw [hpart] at hvi
        exact blocksDo_proceeds hvi hrea model s
      | none =>
        rw [hpart] at hvi
        exact proceeds_other hvi hrea s rfl
    · rw [if_neg hinp] at hvi
      rw [if_neg hte, if_neg hinp]
      exact proceeds_other hvi hrea s rfl

theorem onEvent_blocks (model : Str) (h : IsInner event) (s : StreamState) :
    ∃ s' chunks, onEvent model event s = .proceed s' chunks ∧ Proceeds event s s' chunks := by
  obtain ⟨herr, hstop⟩ := h
  rw [onEvent, if_neg herr]
  by_cases hmsg : typeOf event = some "message_start".toList
  · rw [if_pos hmsg]
    refine ⟨_, _, rfl, ?_, ?_⟩
    · rw [blockEvent, hmsg]
      rfl
    · rw [stopReason, hmsg]
      rfl
  rw [if_neg hmsg]
  by_cases hst : typeOf event = some "content_block_start".toList
  · rw [if_pos hst]
    exact onBlockStart_proceeds hst
  rw [if_neg hst]
  by_cases hdlt : typeOf event = some "content_block_delta".toList
  · rw [if_pos hdlt]
    exact onBlockDelta_proceeds hdlt
  rw [if_neg hdlt]
  by_cases hend : typeOf event = some "content_block_stop".toList
  · rw [if_pos hend]
    refine blocksDo_proceeds (e := .stop _) ?_ ?_ model s
    · rw [blockEvent, if_neg hst, if_neg hdlt, if_pos hend]
    · rw [stopReason, hend]
      rfl
  have hvi : blockEvent event = .other := by
    rw [blockEvent, if_neg hst, if_neg hdlt, if_neg hend]
  rw [if_neg hend]
  by_cases hrea : typeOf event = some "message_delta".toList
  · rw [if_pos hrea]
    refine ⟨_, _, rfl, ?_, ?_⟩
    · rw [hvi]
      rfl
    · rw [stopReason, if_pos hrea]
  · rw [if_neg hrea, if_neg hstop]
    exact proceeds_other hvi (by rw [stopReason, if_neg hrea]) s rfl

/-- The events before the end of the message, and the rest of the stream. -/
theorem streamFrom_inner (model : Str) (htex : payloads.map fromStr = events.map some)
    (hinn : ∀ e ∈ events, IsInner e) (rest : List (Except ProviderError Str)) (s : StreamState) :
    ∃ s' chunks, streamFrom N model (payloads.map .ok ++ rest) s =
        chunks.map .ok ++ streamFrom N model rest s' ∧
      forEach BlockEvent.emit (events.map blockEvent) s.blocks = (s'.blocks, fragments chunks) ∧
      ((∃ e ∈ events, (stopReason e).isSome = true) ∨ s.finish.isSome = true →
        s'.finish.isSome = true) := by
  induction events generalizing payloads s with
  | nil =>
    cases payloads with
    | nil => exact ⟨s, [], rfl, rfl, fun h => h.elim (by rintro ⟨e, he, -⟩; cases he) id⟩
    | cons p ps => cases htex
  | cons event events ih =>
    cases payloads with
    | nil => cases htex
    | cons p ps =>
      obtain ⟨hte, htex⟩ := cons.inj htex
      obtain ⟨hev, hevs⟩ := forall_mem_cons.1 hinn
      obtain ⟨s₁, chunks₁, honce, hpro⟩ := onEvent_blocks model hev s
      obtain ⟨s₂, chunks₂, hstr, hblo, hfin⟩ := ih htex hevs s₁
      refine ⟨s₂, chunks₁ ++ chunks₂, ?_, ?_, ?_⟩
      · rw [map_cons, cons_append, streamFrom, hte]
        dsimp only
        rw [honce]
        dsimp only
        rw [hstr, map_append, append_assoc]
      · rw [map_cons, forEach_cons, fragments_append]
        unfold andThen
        rw [hpro.blocks, hblo]
      · intro h
        refine hfin ?_
        rw [hpro.finish, Option.isSome_or, Option.isSome_map]
        rcases h with ⟨e, he, hrea⟩ | hfns
        · rcases mem_cons.1 he with rfl | he
          · exact .inr (by rw [hrea]; rfl)
          · exact .inl ⟨e, he, hrea⟩
        · exact .inr (by rw [hfns, Bool.or_true])

theorem terminal_eq {finish : Str} (h : s.finish = some finish) :
    ∃ chunks, terminal model s = chunks.map .ok ∧ fragments chunks = [] := by
  unfold terminal
  rw [h]
  exact ⟨[_, _], rfl, rfl⟩

variable (N) in
/-- A stream that is well formed: it ends with `message_stop`, it says why it stops, and its events
make up blocks, all of which stop. -/
structure WellFormed (payloads : List Str) (events : List (Json N)) (last : Json N)
    (bs : List ToolBlock) : Prop where
  texts : payloads.map SerdeJson.fromStr = (events ++ [last]).map some
  last : typeOf last = some "message_stop".toList
  inner : ∀ e ∈ events, IsInner e
  reason : ∃ e ∈ events, (stopReason e).isSome = true
  blocks : Accumulates (events.map blockEvent) bs
  stopped : ∀ b ∈ bs, b.stopped = true

/-- **The chunks of a well-formed stream have the calls of its blocks.** -/
theorem calls_chatStream {last : Json N} {bs : List ToolBlock}
    (h : WellFormed N payloads events last bs) (model : Str) :
    ∃ chunks, chatStream N model (payloads.map .ok) = chunks.map .ok ∧
      (fold chunks).calls = bs.map fun b => ⟨b.id, b.name, b.text⟩ := by
  have htex := h.texts
  rw [map_append] at htex
  obtain ⟨ps, qs, rfl, hps, hqs⟩ := map_eq_append_iff.1 htex
  obtain ⟨p, rfl, hp⟩ := map_eq_singleton_iff.1 hqs
  obtain ⟨s, chunks, hstr, hblo, hfin⟩ :=
    streamFrom_inner model hps h.inner [.ok p] StreamState.new
  obtain ⟨finish, hfin⟩ := Option.isSome_iff_exists.1 (hfin (.inl h.reason))
  have hlast : onEvent model last s = .stopped := by
    rw [onEvent, h.last]
    rfl
  obtain ⟨chunks', hterm, hno⟩ := terminal_eq hfin
  refine ⟨chunks ++ chunks', ?_, calls_fold h.blocks h.stopped ?_⟩
  · rw [chatStream, map_append, map_singleton, hstr, streamFrom, hp]
    dsimp only
    rw [hlast]
    rw [hterm, map_append]
  · rw [fragments_append, hno, append_nil]
    exact (congrArg Prod.snd hblo).symm

end Anthropic

/-! ## Bedrock -/

namespace BedrockConverse

variable {N F : Type} [SerdeJson N F] [AsI64 N] {s : StreamState} {nameMap : Str → Option Str}
  {model : Str} {event : Json N}

/-- What a `contentBlockStart` says about the blocks. -/
def startEvent (nameMap : Str → Option Str) (event : Json N) : BlockEvent :=
  match (event.get "start").bind fun s => s.get "toolUse" with
  | some start =>
    .start (blockIndex event) ((start.get "toolUseId").bind Json.asStr)
      (((start.get "name").bind Json.asStr).map fun n => unsanitizeToolName n nameMap)
  | none => .other

/-- What a `contentBlockDelta` says about the blocks. -/
def deltaEvent (event : Json N) : BlockEvent :=
  match (event.get "delta").filter fun delta => (deltaText delta).isNone with
  | some delta =>
    match deltaInput delta with
    | some input => .fragment (blockIndex event) input
    | none => .other
  | none => .other

def blockEvent (nameMap : Str → Option Str) (eventType : Str) (event : Json N) : BlockEvent :=
  if eventType = "contentBlockStart" then startEvent nameMap event
  else if eventType = "contentBlockDelta" then deltaEvent event
  else if eventType = "contentBlockStop" then .stop (blockIndex event)
  else .other

theorem blocksDo_blocks {e : BlockEvent} : e.emit s.blocks = ((blocksDo model e.emit s).1.blocks,
      fragments (blocksDo model e.emit s).2) := by
  change _ = ((e.emit s.blocks).1, fragments ((e.emit s.blocks).2.map (callChunk s.id model)))
  rw [fragments_callChunk]

theorem onBlockStart_blocks : (startEvent nameMap event).emit s.blocks =
      ((onBlockStart nameMap model event s).1.blocks,
        fragments (onBlockStart nameMap model event s).2) := by
  unfold startEvent onBlockStart
  cases (event.get "start").bind fun s => s.get "toolUse" with
  | some start => exact blocksDo_blocks
  | none => rfl

theorem onBlockDelta_blocks : (deltaEvent event).emit s.blocks =
      ((onBlockDelta model event s).1.blocks, fragments (onBlockDelta model event s).2) := by
  unfold deltaEvent onBlockDelta
  cases event.get "delta" with
  | none => rfl
  | some delta =>
    cases hte : deltaText delta with
    | some text =>
      simp only [Option.filter, hte]
      rfl
    | none =>
      simp only [Option.filter, hte, Option.isNone_none, reduceIte]
      cases deltaInput delta with
      | some input => exact blocksDo_blocks
      | none => rfl

theorem onEvent_blocks (uuid : Nat → Str) (nameMap : Str → Option Str) (model eventType : Str)
    (event : Json N) (s : StreamState) :
    (blockEvent nameMap eventType event).emit s.blocks =
      ((onEvent uuid nameMap model eventType event s).1.blocks,
        fragments (onEvent uuid nameMap model eventType event s).2) := by
  unfold onEvent
  by_cases hmsg : eventType = "messageStart"
  · rw [hmsg]
    rfl
  rw [if_neg hmsg, blockEvent]
  by_cases hst : eventType = "contentBlockStart"
  · rw [if_pos hst, if_pos hst]
    exact onBlockStart_blocks
  rw [if_neg hst, if_neg hst]
  by_cases hdlt : eventType = "contentBlockDelta"
  · rw [if_pos hdlt, if_pos hdlt]
    exact onBlockDelta_blocks
  rw [if_neg hdlt, if_neg hdlt]
  by_cases hstop : eventType = "contentBlockStop"
  · rw [if_pos hstop, if_pos hstop]
    exact blocksDo_blocks
  rw [if_neg hstop, if_neg hstop]
  split
  · rfl
  · split <;> rfl

def IsEvent (part : EventStreamFrame × Json N) : Prop :=
  part.1.isException = false ∧ SerdeJson.fromStr part.1.payload = some part.2

instance [DecidableEq N] (part : EventStreamFrame × Json N) : Decidable (IsEvent part) :=
  inferInstanceAs (Decidable (_ ∧ _))

variable {parts : List (EventStreamFrame × Json N)}

theorem streamFrom_parts (uuid : Nat → Str) (nameMap : Str → Option Str) (model : Str)
    (h : ∀ part ∈ parts, IsEvent part) (s : StreamState) :
    ∃ chunks, streamFrom N uuid nameMap model (parts.map fun part => .ok part.1) s =
        chunks.map .ok ∧
      fragments chunks = (forEach BlockEvent.emit
        (parts.map fun part => blockEvent nameMap part.1.eventType part.2) s.blocks).2 := by
  induction parts generalizing s with
  | nil =>
    refine ⟨terminal model s, rfl, ?_⟩
    unfold terminal
    cases s.finish <;> cases s.usage <;> rfl
  | cons part parts ih =>
    obtain ⟨⟨hnot, hev⟩, hpar⟩ := forall_mem_cons.1 h
    obtain ⟨chunks, hstr, hchu⟩ := ih hpar (onEvent uuid nameMap model part.1.eventType part.2 s).1
    have hblo := onEvent_blocks uuid nameMap model part.1.eventType part.2 s
    refine ⟨(onEvent uuid nameMap model part.1.eventType part.2 s).2 ++ chunks, ?_, ?_⟩
    · rw [map_cons, streamFrom, hnot, hev]
      simp only [Bool.false_eq_true, reduceIte]
      rw [hstr, map_append]
    · rw [map_cons, forEach_cons, andThen_snd, hblo, fragments_append, hchu]

variable (N) in
/-- A stream that is well formed: no frame is an exception, and the events make up blocks, all of
which stop. -/
structure WellFormed (nameMap : Str → Option Str) (parts : List (EventStreamFrame × Json N))
    (bs : List ToolBlock) : Prop where
  events : ∀ part ∈ parts, IsEvent part
  blocks : Accumulates (parts.map fun part => blockEvent nameMap part.1.eventType part.2) bs
  stopped : ∀ b ∈ bs, b.stopped = true

/-- **The chunks of a well-formed stream have the calls of its blocks.** -/
theorem calls_converseEventStream {bs : List ToolBlock} (h : WellFormed N nameMap parts bs)
    (uuid : Nat → Str) (model : Str) :
    ∃ chunks, converseEventStream N uuid nameMap model (parts.map fun part => .ok part.1) =
        chunks.map .ok ∧
      (fold chunks).calls = bs.map fun b => ⟨b.id, b.name, b.text⟩ := by
  obtain ⟨chunks, hstr, hchu⟩ :=
    streamFrom_parts uuid nameMap model h.events StreamState.new
  exact ⟨chunks, hstr, calls_fold h.blocks h.stopped hchu⟩

end BedrockConverse

/-! ## The reply in one piece -/

section

variable {N F : Type} [SerdeJson N F] {b : ToolBlock}

theorem fromStr_noArguments (hreads : ReadsJson N) :
    (fromStr noArguments : Option (Json N)) = some (.object []) := by
  have hdoc : Json.DocText ofToken (.object [] : Json N) noArguments :=
    ⟨[], noArguments, [], nofun, ⟨[], nofun, rfl⟩, nofun, rfl⟩
  have hprs := (hreads.parse_iff noArguments (.object [])).2
    ⟨hdoc, show 1 < recursionLimit by decide⟩
  rw [fromStr, hprs]
  rfl

theorem toText_empty (hwrites : WritesJson N) : toText (.object [] : Json N) = noArguments := by
  obtain ⟨t, ht, heq⟩ := hwrites.toText_compact (.object [])
  rw [heq, show t = [] from ht]
  rfl

/-- The input of a call in one piece, if its fragments have this text. There may be no input, or an
object without fields, if there is no text. -/
def InputOf (text : Str) (input : Option (Json N)) : Prop :=
  text = [] ∧ (input = none ∨ input = some (.object [])) ∨
    text ≠ [] ∧ input.isSome = true ∧ input = SerdeJson.fromStr text

instance [DecidableEq N] (text : Str) (input : Option (Json N)) : Decidable (InputOf text input) :=
  inferInstanceAs (Decidable (_ ∨ _))

/-- The call that is translated has the id, the name and the input of the block. -/
def CallOf (N : Type) {F : Type} [SerdeJson N F] (b : ToolBlock) (c : Call) : Prop :=
  c.id = b.id ∧ c.name = b.name ∧ ∃ input : Option (Json N),
    InputOf b.fragments.flatten input ∧ c.arguments = (input.map SerdeJson.toText).getD noArguments

/-- The same call; the arguments of the second are what is written for those of the first. -/
def SameCall (N : Type) {F : Type} [SerdeJson N F] (a b : Call) : Prop :=
  a.id = b.id ∧ a.name = b.name ∧ ∃ v : Json N,
    SerdeJson.fromStr a.arguments = some v ∧ b.arguments = SerdeJson.toText v

/-- The fragments spell what the client writes. -/
def Spelled (N : Type) {F : Type} [SerdeJson N F] (b : ToolBlock) : Prop :=
  ∀ v : Json N, SerdeJson.fromStr b.fragments.flatten = some v →
    b.fragments.flatten = SerdeJson.toText v

/-- If fragments have come, they are not all empty. -/
def Filled (b : ToolBlock) : Prop := b.fragments ≠ [] → b.fragments.flatten ≠ []

/-- The calls of the chunks and of the translation. -/
structure SameCalls (N : Type) {F : Type} [SerdeJson N F] (bs : List ToolBlock)
    (streamed translated : List Call) : Prop where
  same : List.Forall₂ (SameCall N) streamed translated
  spelled : (∀ b ∈ bs, Spelled N b) → streamed = translated
  empty : ∀ b ∈ bs, b.fragments = [] → (⟨b.id, b.name, noArguments⟩ : Call) ∈ streamed ∧
    (⟨b.id, b.name, noArguments⟩ : Call) ∈ translated

/-- The arguments of the translation: nothing was passed on, or the fragments were. -/
theorem arguments_of_input (hwrites : WritesJson N) (hfil : Filled b)
    {input : Option (Json N)} (h : InputOf b.fragments.flatten input) :
    (b.fragments = [] ∧ b.text = noArguments ∧ (input.map toText).getD noArguments = noArguments) ∨
    (b.fragments ≠ [] ∧ b.text = b.fragments.flatten ∧
      ∃ v : Json N, fromStr b.fragments.flatten = some v ∧
        (input.map toText).getD noArguments = toText v) := by
  rcases h with ⟨hemp, hinp⟩ | ⟨hne, hsome, hread⟩
  · have hno : b.fragments = [] := by
      by_contra hsome
      exact hfil hsome hemp
    refine .inl ⟨hno, by rw [ToolBlock.text, hno]; rfl, ?_⟩
    rcases hinp with rfl | rfl
    · rfl
    · exact toText_empty hwrites
  · have hfra : b.fragments ≠ [] := by
      intro hno
      rw [hno] at hne
      exact hne rfl
    obtain ⟨v, rfl⟩ := Option.isSome_iff_exists.1 hsome
    refine .inr ⟨hfra, ?_, v, hread.symm, rfl⟩
    rw [ToolBlock.text, isEmpty_eq_false_iff.2 hfra]
    rfl

variable (hreads : SerdeJson.ReadsJson N) (hwrites : SerdeJson.WritesJson N)
include hreads hwrites

theorem sameCall_of_callOf {c : Call} (hfil : Filled b) (h : CallOf N b c) :
    SameCall N ⟨b.id, b.name, b.text⟩ c ∧ (Spelled N b → ⟨b.id, b.name, b.text⟩ = c) ∧
      (b.fragments = [] → b.text = noArguments ∧ c = ⟨b.id, b.name, noArguments⟩) := by
  obtain ⟨id, name, arguments⟩ := c
  obtain ⟨rfl, rfl, input, hinp, rfl⟩ := h
  rcases arguments_of_input hwrites hfil hinp with
    ⟨-, hte, hargs⟩ | ⟨hsome, hte, v, hread, hargs⟩
  · rw [hte, hargs]
    exact ⟨⟨rfl, rfl, .object [], fromStr_noArguments hreads, (toText_empty hwrites).symm⟩,
      fun _ => rfl, fun _ => ⟨rfl, rfl⟩⟩
  · rw [hte, hargs]
    exact ⟨⟨rfl, rfl, v, hread, rfl⟩, fun hspe => by rw [hspe v hread], fun hno => absurd hno hsome⟩

/-- **The calls agree if each call that is translated is the call of its block.** -/
theorem sameCalls_of_callOf {bs : List ToolBlock} {translated : List Call}
    (h : Forall₂ (CallOf N) bs translated) (hfil : ∀ b ∈ bs, Filled b) :
    SameCalls N bs (bs.map fun b => ⟨b.id, b.name, b.text⟩) translated := by
  induction h with
  | nil => exact ⟨.nil, fun _ => rfl, fun _ hb => absurd hb not_mem_nil⟩
  | @cons b c bs cs hcall _ ih =>
    obtain ⟨hb, hbs⟩ := forall_mem_cons.1 hfil
    obtain ⟨hsame, hspe, hemp⟩ := sameCall_of_callOf hreads hwrites hb hcall
    have ih := ih hbs
    rw [map_cons]
    refine ⟨.cons hsame ih.same, fun hall => ?_, fun b' hb' hno => ?_⟩
    · obtain ⟨hfst, hrest⟩ := forall_mem_cons.1 hall
      rw [hspe hfst, ih.spelled hrest]
    · rcases mem_cons.1 hb' with rfl | hb'
      · obtain ⟨hte, rfl⟩ := hemp hno
        rw [hte]
        exact ⟨mem_cons_self, mem_cons_self⟩
      · obtain ⟨hstre, htra⟩ := ih.empty b' hb' hno
        exact ⟨mem_cons_of_mem _ hstre, mem_cons_of_mem _ htra⟩

end

def replyCalls {N : Type} (resp : ChatResponse N) : List Call :=
  resp.choices.flatMap fun choice => (choice.message.toolCalls.getD []).map ToolCall.call

theorem getD_toolCalls (calls : List ToolCall) :
    ((if calls.isEmpty then none else some calls).getD []) = calls := by
  cases calls <;> rfl

section

variable {N F : Type} [SerdeJson N F] [AsI64 N]

/-- A block of a reply from Anthropic, and the block of the stream. -/
structure Anthropic.BlockOf (b : ToolBlock) (block : Json N) : Prop where
  id : (block.field "id").asStr = some b.id
  name : (block.field "name").asStr = some b.name
  input : InputOf b.fragments.flatten (block.get "input")

/-- A reply from Anthropic in one piece that has these blocks. -/
structure Anthropic.ReplyOf (bs : List ToolBlock) (body : Json N) : Prop where
  reason : (body.field "stop_reason").asStr.isSome = true
  blocks : List.Forall₂ BlockOf bs ((contentBlocks body).filter isToolUse)

variable {bs : List ToolBlock}

theorem Anthropic.fromAnthropicResponse_calls {body : Json N} (h : ReplyOf bs body) {model : Str}
    {now : Int} :
    ∃ resp, fromAnthropicResponse body model now = .ok resp ∧
      Forall₂ (CallOf N) bs (replyCalls resp) := by
  obtain ⟨reason, hrea⟩ := Option.isSome_iff_exists.1 h.reason
  unfold fromAnthropicResponse
  rw [hrea]
  refine ⟨_, rfl, ?_⟩
  rw [replyCalls, flatMap_singleton, getD_toolCalls, map_map, forall₂_map_right_iff]
  refine h.blocks.imp fun b block hblk => ?_
  exact ⟨by rw [comp, blockCall, hblk.id]; rfl,
    by rw [comp, blockCall, hblk.name]; rfl, _, hblk.input, rfl⟩

/-- A `toolUse` of a reply from Bedrock, and the block of the stream. -/
structure BedrockConverse.BlockOf (nameMap : Str → Option Str) (b : ToolBlock) (tu : Json N) :
    Prop where
  id : (tu.get "toolUseId").bind Json.asStr = some b.id
  name : ((tu.get "name").bind Json.asStr).map (unsanitizeToolName · nameMap) = some b.name
  input : InputOf b.fragments.flatten (tu.get "input")

/-- A reply from Bedrock in one piece that has these blocks. -/
structure BedrockConverse.ReplyOf (nameMap : Str → Option Str) (bs : List ToolBlock)
    (body message : Json N) : Prop where
  output : (body.get "output").bind (fun o => o.get "message") = some message
  blocks : List.Forall₂ (BlockOf nameMap) bs
    ((contentBlocks message).filterMap fun b => b.get "toolUse")

theorem BedrockConverse.fromConverseResponse_calls {nameMap : Str → Option Str}
    {body message : Json N} (h : ReplyOf nameMap bs body message) {uuid : Nat → Str} {model : Str}
    {now : Int} :
    ∃ resp, fromConverseResponse uuid nameMap body model now = .ok resp ∧
      Forall₂ (CallOf N) bs (replyCalls resp) := by
  unfold fromConverseResponse
  rw [h.output]
  refine ⟨_, rfl, ?_⟩
  rw [replyCalls, flatMap_singleton, getD_toolCalls, map_map, forall₂_map_right_iff]
  refine h.blocks.imp fun b tu hblk => ?_
  obtain ⟨raw, hraw, hname⟩ := Option.map_eq_some_iff.1 hblk.name
  exact ⟨by rw [comp, toolUseCall, hblk.id]; rfl,
    by rw [comp, toolUseCall, hraw]; exact hname, _, hblk.input, rfl⟩

end

/-- **The chunks of a stream have the calls of the reply**, for both providers. -/
theorem tool_calls_agree (N : Type) {F : Type} [SerdeJson N F] [AsI64 N]
    (hreads : ReadsJson N) (hwrites : WritesJson N) (bs : List ToolBlock)
    (hfilled : ∀ b ∈ bs, Filled b) (model : Str) (now : Int) :
    (∀ (payloads : List Str) (events : List (Json N)) (last body : Json N),
      Anthropic.WellFormed N payloads events last bs → Anthropic.ReplyOf bs body →
      ∃ chunks resp, Anthropic.chatStream N model (payloads.map .ok) = chunks.map .ok ∧
        Anthropic.fromAnthropicResponse body model now = .ok resp ∧
        SameCalls N bs (fold chunks).calls (replyCalls resp)) ∧
    (∀ (uuid uuid' : Nat → Str) (nameMap : Str → Option Str)
      (parts : List (BedrockConverse.EventStreamFrame × Json N)) (body message : Json N),
      BedrockConverse.WellFormed N nameMap parts bs →
      BedrockConverse.ReplyOf nameMap bs body message →
      ∃ chunks resp, BedrockConverse.converseEventStream N uuid nameMap model
          (parts.map fun part => .ok part.1) = chunks.map .ok ∧
        BedrockConverse.fromConverseResponse uuid' nameMap body model now = .ok resp ∧
        SameCalls N bs (fold chunks).calls (replyCalls resp)) := by
  constructor
  · intro payloads events last body hstr hrep
    obtain ⟨chunks, hchu, hcs⟩ := Anthropic.calls_chatStream hstr model
    obtain ⟨resp, hresp, htra⟩ := Anthropic.fromAnthropicResponse_calls hrep
    refine ⟨chunks, resp, hchu, hresp, ?_⟩
    rw [hcs]
    exact sameCalls_of_callOf hreads hwrites htra hfilled
  · intro uuid uuid' nameMap parts body message hstr hrep
    obtain ⟨chunks, hchu, hcs⟩ :=
      BedrockConverse.calls_converseEventStream hstr uuid model
    obtain ⟨resp, hresp, htra⟩ :=
      BedrockConverse.fromConverseResponse_calls hrep
    refine ⟨chunks, resp, hchu, hresp, ?_⟩
    rw [hcs]
    exact sameCalls_of_callOf hreads hwrites htra hfilled

/-! ## Samples -/

open Nasiko.Json.Integers

def typed (type : Str) (fields : List (Str × Json Int)) : Json Int :=
  .object (fields ++ [("type".toList, .string type)])

variable (parts : List Str)

/-- The events of a message with one tool call, which has these fragments. -/
def sampleEvents : List (Json Int) :=
  [typed "content_block_start"
    [("content_block", .object [("id", .string "t"),
      ("name", .string "f"), ("type", .string "tool_use")]),
      ("index", .number 0)]] ++
  parts.map (fun part => typed "content_block_delta"
    [("delta", .object [("partial_json", .string part),
      ("type", .string "input_json_delta")]), ("index", .number 0)]) ++
  [typed "content_block_stop" [("index", .number 0)],
    typed "message_delta"
      [("delta", .object [("stop_reason", .string "tool_use")])]]

def sampleStop : Json Int := typed "message_stop" []

def samplePayloads : List Str :=
  (sampleEvents parts ++ [sampleStop]).map SerdeJson.toText

variable (input : List (Str × Json Int))

/-- The message in one piece. -/
def sampleBody : Json Int :=
  .object [("content", .array [.object [("id", .string "t"),
      ("input", .object input), ("name", .string "f"),
      ("type", .string "tool_use")]]),
    ("stop_reason", .string "tool_use")]

def sampleBlock : ToolBlock := ⟨0, "t", "f", parts, true⟩

/-- `{"a": 1}`, with a blank. -/
def blankText : Str := "\x7b\"a\": 1\x7d"

theorem accumulates_sample {part : Str} :
    Accumulates [.start 0 (some "t") (some "f"), .fragment 0 part, .stop 0, .other]
      [sampleBlock [part]] := by
  have hst := @Accumulates.start [] [] 0 "t" "f" .nil not_mem_nil
  have hfrg := @Accumulates.fragment _ [] [] _ part hst rfl
  exact .other (@Accumulates.stop _ [] [] _ hfrg rfl)

theorem wellFormed_sample :
    Anthropic.WellFormed Int (samplePayloads [blankText]) (sampleEvents [blankText]) sampleStop
      [sampleBlock [blankText]] where
  texts := by decide +kernel
  last := by decide +kernel
  inner := by decide +kernel
  reason := by decide +kernel
  blocks := accumulates_sample
  stopped := by simp [sampleBlock]

theorem replyOf_sample :
    Anthropic.ReplyOf [sampleBlock [blankText]] (sampleBody [("a", .number 1)]) where
  reason := by decide +kernel
  blocks := .cons ⟨by decide +kernel, by decide +kernel, by decide +kernel⟩ .nil

/-- The same call from Bedrock. -/
def sampleParts (part : Str) : List (BedrockConverse.EventStreamFrame × Json Int) :=
  [("contentBlockStart".toList, .object [("contentBlockIndex", .number 0),
      ("start", .object [("toolUse", .object [("name", .string "f"),
        ("toolUseId", .string "t")])])]),
    ("contentBlockDelta".toList, .object [("contentBlockIndex", .number 0),
      ("delta", .object [("toolUse", .object [("input", .string part)])])]),
    ("contentBlockStop".toList, .object [("contentBlockIndex", .number 0)]),
    ("messageStop".toList, .object [("stopReason", .string "tool_use")])].map
  fun e => (⟨e.1, [], "event", SerdeJson.toText e.2⟩, e.2)

def sampleMessage : Json Int :=
  .object [("content", .array [.object [("toolUse", .object
    [("input", .object input), ("name", .string "f"),
      ("toolUseId", .string "t")])]])]

def sampleOutput : Json Int :=
  .object [("output", .object [("message", sampleMessage input)])]

/-- No name was changed. -/
def sameNames (_ : Str) : Option Str := none

theorem wellFormed_sampleParts (part : Str)
    (h : ∀ p ∈ sampleParts part, BedrockConverse.IsEvent p) :
    BedrockConverse.WellFormed Int sameNames (sampleParts part) [sampleBlock [part]] where
  events := h
  blocks := accumulates_sample
  stopped := by simp [sampleBlock]

theorem tool_calls_agree_sample : (∃ chunks resp, Anthropic.chatStream Int "m"
        ((samplePayloads [blankText]).map .ok) = chunks.map .ok ∧
      Anthropic.fromAnthropicResponse (sampleBody [("a", .number 1)]) "m" 0 = .ok resp ∧
      SameCalls Int [sampleBlock [blankText]] (fold chunks).calls (replyCalls resp)) ∧
    (∃ chunks resp, BedrockConverse.converseEventStream Int (fun _ => []) sameNames "m"
        ((sampleParts blankText).map fun part => .ok part.1) = chunks.map .ok ∧
      BedrockConverse.fromConverseResponse (fun _ => []) sameNames
        (sampleOutput [("a", .number 1)]) "m" 0 = .ok resp ∧
      SameCalls Int [sampleBlock [blankText]] (fold chunks).calls (replyCalls resp)) := by
  have hfil : ∀ b ∈ [sampleBlock [blankText]], Filled b := by
    intro b hb
    cases mem_singleton.1 hb
    exact fun _ => by decide
  obtain ⟨hant, hbed⟩ := tool_calls_agree Int readsJson writesJson
    [sampleBlock [blankText]] hfil "m" 0
  refine ⟨hant _ _ _ _ wellFormed_sample replyOf_sample,
    hbed _ _ _ _ _ (sampleMessage [("a", .number 1)])
      (wellFormed_sampleParts blankText (by decide +kernel)) ⟨rfl, ?_⟩⟩
  exact .cons ⟨by decide +kernel, by decide +kernel, by decide +kernel⟩ .nil

/-- A blank in the fragments (Anthropic), and a call whose only fragment is empty (Bedrock). -/
theorem arguments_differ :
    (Anthropic.WellFormed Int (samplePayloads [blankText]) (sampleEvents [blankText]) sampleStop
        [sampleBlock [blankText]] ∧
      Anthropic.ReplyOf [sampleBlock [blankText]] (sampleBody [("a", .number 1)]) ∧
      ∃ chunks resp, Anthropic.chatStream Int "m"
          ((samplePayloads [blankText]).map .ok) = chunks.map .ok ∧
        Anthropic.fromAnthropicResponse (sampleBody [("a", .number 1)]) "m" 0 =
          .ok resp ∧ (fold chunks).calls ≠ replyCalls resp) ∧
    (BedrockConverse.WellFormed Int sameNames (sampleParts []) [sampleBlock [[]]] ∧
      BedrockConverse.ReplyOf sameNames [sampleBlock [[]]] (sampleOutput []) (sampleMessage []) ∧
      ∃ chunks resp, BedrockConverse.converseEventStream Int (fun _ => []) sameNames "m"
          ((sampleParts []).map fun part => .ok part.1) = chunks.map .ok ∧
        BedrockConverse.fromConverseResponse (fun _ => []) sameNames (sampleOutput [])
          "m" 0 = .ok resp ∧
        (fold chunks).calls = [⟨"t", "f", []⟩] ∧
        replyCalls resp = [⟨"t", "f", noArguments⟩]) := by
  have hwell := wellFormed_sampleParts [] (by decide +kernel)
  obtain ⟨chunks, hchu, hcs⟩ := Anthropic.calls_chatStream wellFormed_sample "m"
  obtain ⟨chunks', hchu', hcs'⟩ :=
    BedrockConverse.calls_converseEventStream hwell (fun _ => []) "m"
  refine ⟨⟨wellFormed_sample, replyOf_sample, chunks, _, hchu, rfl, ?_⟩,
    hwell, ⟨rfl, ?_⟩, chunks', _, hchu', rfl, hcs', ?_⟩
  · rw [hcs]
    decide +kernel
  · exact .cons ⟨by decide +kernel, by decide +kernel, by decide +kernel⟩ .nil
  · decide +kernel

end Nasiko.LlmRouter.Providers
