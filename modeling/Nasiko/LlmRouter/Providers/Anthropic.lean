import Nasiko.LlmRouter.Providers.ToolBlocks

/-!
# The client of Anthropic

`chatStream` turns the events of a reply that Anthropic streams into chunks, one event after the
other; `fromAnthropicResponse` translates a reply in one piece.

The events are JSON texts, as they stand in the lines of the HTTP response. A reply that is streamed
has to end with `message_stop`, and has to have said before why it stops.
-/

namespace Nasiko.LlmRouter.Providers.Anthropic

section

variable {N F : Type} [SerdeJson N F] [AsI64 N]

/-- `tool_use` and the other types of blocks and events. -/
def typeOf (v : Json N) : Option Str := (v.field "type").asStr

def mapStopReason (reason : Str) : Str :=
  if reason = "end_turn" ∨ reason = "stop_sequence" then "stop"
  else if reason = "tool_use" then "tool_calls"
  else if reason = "max_tokens" then "length"
  else "content_filter"

/-! ## Tokens -/

/-- An optional field that is an `i64`; `none` is a failure. -/
def optionalI64 : Option (Json N) → Option (Option Int)
  | none => some none
  | some .null => some none
  | some v => v.asI64.map some

/-- `serde_json::from_value::<CacheCreationUsage>`; a list of the fields is accepted as well. -/
def cacheCreationUsage (v : Json N) : Option CacheCreationUsage :=
  match v with
  | .object _ => do
    let m ← optionalI64 (v.get "ephemeral_5m_input_tokens")
    let h ← optionalI64 (v.get "ephemeral_1h_input_tokens")
    return ⟨m, h⟩
  | .array vs =>
    if vs.length ≤ 2 then do
      let m ← optionalI64 vs[0]?
      let h ← optionalI64 vs[1]?
      return ⟨m, h⟩
    else none
  | _ => none

def sumTokens : Option Int → Option Int → Option Int
  | some i, some o => some (i + o)
  | _, _ => none

/-! ## In chunks -/

structure StreamState where
  id : Str
  blocks : ToolBlocks
  inputTokens : Option Int
  outputTokens : Option Int
  cacheRead : Option Int
  cacheCreation : Option Int
  cacheDetails : Option CacheCreationUsage
  finish : Option Str

def StreamState.new : StreamState := ⟨[], ToolBlocks.new, none, none, none, none, none, none⟩

/-- What becomes of the stream after an event. -/
inductive Next where
  | proceed (s : StreamState) (chunks : List ChatChunk)
  | fail (e : ProviderError)
  | stopped

/-- The blocks change, and their fragments are chunks. -/
def StreamState.blocksDo (s : StreamState) (model : Str) (f : Emitter ToolBlocks ToolCallDelta) :
    Next :=
  .proceed { s with blocks := (f s.blocks).1 } ((f s.blocks).2.map (callChunk s.id model))

def blockIndex (event : Json N) : Int := (event.field "index").asI64.getD 0

variable (model : Str)

def onMessageStart (event : Json N) (s : StreamState) : Next :=
  let message := event.field "message"
  let u := message.field "usage"
  let id := (message.field "id").asStr.getD []
  .proceed
    { s with
      id := id
      inputTokens := (u.field "input_tokens").asI64
      cacheRead := (u.field "cache_read_input_tokens").asI64
      cacheCreation := (u.field "cache_creation_input_tokens").asI64
      cacheDetails := cacheCreationUsage (u.field "cache_creation") }
    [roleChunk id model]

def onBlockStart (event : Json N) (s : StreamState) : Next :=
  let block := event.field "content_block"
  if typeOf block = some "tool_use".toList then
    s.blocksDo model (ToolBlocks.start (blockIndex event) (block.field "id").asStr
      (block.field "name").asStr)
  else .proceed s []

def onBlockDelta (event : Json N) (s : StreamState) : Next :=
  let delta := event.field "delta"
  if typeOf delta = some "text_delta".toList then
    match (delta.field "text").asStr with
    | some text => .proceed s [textChunk s.id model text]
    | none => .proceed s []
  else if typeOf delta = some "input_json_delta".toList then
    match (delta.field "partial_json").asStr with
    | some part => s.blocksDo model (ToolBlocks.fragment (blockIndex event) part)
    | none => .proceed s []
  else .proceed s []

def onMessageDelta (event : Json N) (s : StreamState) : Next :=
  let u := event.field "usage"
  let reason := ((event.field "delta").field "stop_reason").asStr
  .proceed
    { s with
      finish := (reason.map mapStopReason).or s.finish
      inputTokens := (u.field "input_tokens").asI64.or s.inputTokens
      cacheRead := (u.field "cache_read_input_tokens").asI64.or s.cacheRead
      cacheCreation := (u.field "cache_creation_input_tokens").asI64.or s.cacheCreation
      cacheDetails := (cacheCreationUsage (u.field "cache_creation")).or s.cacheDetails
      outputTokens := (u.field "output_tokens").asI64.or s.outputTokens }
    []

def onError (event : Json N) : Next :=
  .fail (.status 502 (((event.field "error").field "message").asStr.getD
    "Anthropic stream error") false)

def onEvent (event : Json N) (s : StreamState) : Next :=
  if typeOf event = some "error".toList then onError event
  else if typeOf event = some "message_start".toList then onMessageStart model event s
  else if typeOf event = some "content_block_start".toList then onBlockStart model event s
  else if typeOf event = some "content_block_delta".toList then onBlockDelta model event s
  else if typeOf event = some "content_block_stop".toList then
    s.blocksDo model (ToolBlocks.stop (blockIndex event))
  else if typeOf event = some "message_delta".toList then onMessageDelta event s
  else if typeOf event = some "message_stop".toList then .stopped
  else .proceed s []

/-- The last chunks, when the stream has stopped. -/
def terminal (s : StreamState) : List (Except ProviderError ChatChunk) :=
  match s.finish with
  | none => [.error (.parse "Anthropic stream ended without stop_reason")]
  | some finish =>
    [.ok (finishChunk s.id model finish),
      .ok (usageChunk s.id model
        { Usage.default with
          promptTokens := s.inputTokens
          completionTokens := s.outputTokens
          totalTokens := sumTokens s.inputTokens s.outputTokens
          cacheReadInputTokens := s.cacheRead
          cacheCreationInputTokens := s.cacheCreation
          cacheCreation := s.cacheDetails })]

variable (N)

/-- The loop over the events. -/
def streamFrom (model : Str) :
    List (Except ProviderError Str) → StreamState → List (Except ProviderError ChatChunk)
  | [], _ => [.error (.parse "Anthropic stream ended before message_stop")]
  | .error e :: _, _ => [.error e]
  | .ok payload :: rest, s =>
    match (SerdeJson.fromStr payload : Option (Json N)) with
    | none =>
      [.error (.parse ("invalid Anthropic stream event: " ++
        SerdeJson.parseError N payload))]
    | some event =>
      match onEvent model event s with
      | .proceed s chunks => chunks.map .ok ++ streamFrom model rest s
      | .fail e => [.error e]
      | .stopped => terminal model s

def chatStream (data : List (Except ProviderError Str)) : List (Except ProviderError ChatChunk) :=
  streamFrom N model data StreamState.new

end

/-! ## In one piece -/

variable {N F : Type} [SerdeJson N F] [AsI64 N]

def isToolUse (block : Json N) : Bool := typeOf block == some "tool_use".toList

def blockCall (block : Json N) : ToolCall :=
  { id := (block.field "id").asStr.getD []
    kind := "function"
    function :=
      { name := (block.field "name").asStr.getD []
        arguments := ((block.get "input").map SerdeJson.toText).getD noArguments } }

def blockText (block : Json N) : Str :=
  if typeOf block = some "text".toList then (block.field "text").asStr.getD [] else []

def responseUsage (u : Json N) : Usage :=
  let input := (u.field "input_tokens").asI64
  let output := (u.field "output_tokens").asI64
  { Usage.default with
    promptTokens := input
    completionTokens := output
    totalTokens := sumTokens input output
    cacheReadInputTokens := (u.field "cache_read_input_tokens").asI64
    cacheCreationInputTokens := (u.field "cache_creation_input_tokens").asI64
    cacheCreation := cacheCreationUsage (u.field "cache_creation") }

def contentBlocks (body : Json N) : List (Json N) :=
  (body.field "content").asArray.getD []

/-- The time is that of the response. -/
def fromAnthropicResponse (body : Json N) (model : Str) (now : Int) :
    Except ProviderError (ChatResponse N) :=
  let toolCalls := ((contentBlocks body).filter isToolUse).map blockCall
  let text := (contentBlocks body).flatMap blockText
  match (body.field "stop_reason").asStr with
  | none => .error (.parse "Anthropic response has no stop_reason")
  | some reason =>
    .ok
      { id := "chatcmpl-" ++ (body.field "id").asStr.getD []
        created := some now
        model := model
        choices := [⟨0,
          ⟨"assistant", some (messageContent text toolCalls),
            if toolCalls.isEmpty then none else some toolCalls, none⟩,
          some (mapStopReason reason)⟩]
        usage := (body.get "usage").map responseUsage }

end Nasiko.LlmRouter.Providers.Anthropic
