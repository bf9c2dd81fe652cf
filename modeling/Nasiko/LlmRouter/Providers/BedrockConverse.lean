import Nasiko.LlmRouter.Providers.ToolBlocks

/-!
# The client of Bedrock

`converseEventStream` turns the frames of a reply that Bedrock streams into chunks, one frame after
the other; `fromConverseResponse` translates a reply in one piece.

Bedrock does not accept every name of a tool, so names are changed on the way there, and the map
`nameMap` gives the original of a name that was changed. Ids are random UUIDs; here `uuid n` is the
`n`-th that is drawn.
-/

namespace Nasiko.LlmRouter.Providers.BedrockConverse

structure EventStreamFrame where
  eventType : Str
  exceptionType : Str
  messageType : Str
  payload : Str
  deriving DecidableEq

def EventStreamFrame.isException (frame : EventStreamFrame) : Bool :=
  frame.messageType == "exception" || !frame.exceptionType.isEmpty

def unsanitizeToolName (name : Str) (map : Str → Option Str) : Str := (map name).getD name

def mapStopReason (reason : Str) : Str :=
  if reason = "end_turn" ∨ reason = "stop_sequence" then "stop"
  else if reason = "tool_use" then "tool_calls"
  else if reason = "max_tokens" then "length"
  else if reason = "content_filtered" then "content_filter"
  else "stop"

/-! ## Tokens -/

section

variable {N F : Type} [SerdeJson N F] [AsI64 N]

/-- A number of tokens that is not negative. -/
def count (value : Json N) (key : Str) : Option Int :=
  ((value.get key).bind Json.asI64).filter fun n => 0 ≤ n

/-- `i64::checked_add` -/
def checkedAdd (a b : Int) : Option Int :=
  if -2 ^ 63 ≤ a + b ∧ a + b < 2 ^ 63 then some (a + b) else none

/-- The tokens that were written to the cache for this time. -/
def tokensFor (details : List (Json N)) (ttl : Str) : Option Int :=
  let counts := (details.filter fun d => (d.field "ttl").asStr == some ttl).filterMap
    fun d => ((d.field "inputTokens").asI64).filter fun n => 0 ≤ n
  if counts.isEmpty then none else counts.foldlM checkedAdd 0

def converseUsage (value : Json N) : Usage :=
  { Usage.default with
    promptTokens := count value "inputTokens"
    completionTokens := count value "outputTokens"
    totalTokens := count value "totalTokens"
    cacheReadInputTokens := count value "cacheReadInputTokens"
    cacheCreationInputTokens := count value "cacheWriteInputTokens"
    cacheCreation := ((value.get "cacheDetails").bind Json.asArray).map fun details =>
      ⟨tokensFor details "5m", tokensFor details "1h"⟩ }

/-! ## In chunks -/

structure StreamState where
  id : Str
  drawn : Nat
  blocks : ToolBlocks
  usage : Option Usage
  finish : Option Str

def StreamState.new : StreamState := ⟨[], 0, ToolBlocks.new, none, none⟩

def blocksDo (model : Str) (f : Emitter ToolBlocks ToolCallDelta) : Emitter StreamState ChatChunk :=
  fun s => ({ s with blocks := (f s.blocks).1 }, (f s.blocks).2.map (callChunk s.id model))

def blockIndex (event : Json N) : Int :=
  ((event.get "contentBlockIndex").bind Json.asI64).getD 0

variable (uuid : Nat → Str)

def onMessageStart (model : Str) : Emitter StreamState ChatChunk := fun s =>
  let id := uuid s.drawn
  ({ s with id := id, drawn := s.drawn + 1 }, [roleChunk id model])

variable (nameMap : Str → Option Str)

def onBlockStart (model : Str) (event : Json N) : Emitter StreamState ChatChunk :=
  match (event.get "start").bind fun s => s.get "toolUse" with
  | some start =>
    blocksDo model (ToolBlocks.start (blockIndex event)
      ((start.get "toolUseId").bind Json.asStr)
      (((start.get "name").bind Json.asStr).map fun n => unsanitizeToolName n nameMap))
  | none => Emitter.skip

/-- The text of a `delta`. -/
def deltaText (delta : Json N) : Option Str := (delta.get "text").bind Json.asStr

/-- The fragment of an input in a `delta`. -/
def deltaInput (delta : Json N) : Option Str :=
  ((delta.get "toolUse").bind fun tu => tu.get "input").bind Json.asStr

def onBlockDelta (model : Str) (event : Json N) : Emitter StreamState ChatChunk :=
  match event.get "delta" with
  | none => Emitter.skip
  | some delta =>
    match deltaText delta with
    | some text => fun s => (s, [textChunk s.id model text])
    | none =>
      match deltaInput delta with
      | some input => blocksDo model (ToolBlocks.fragment (blockIndex event) input)
      | none => Emitter.skip

def onMessageStop (event : Json N) : Emitter StreamState ChatChunk := fun s =>
  let reason := (event.get "stopReason").bind Json.asStr
  ({ s with finish := (reason.map mapStopReason).or s.finish }, [])

def onMetadata (event : Json N) : Emitter StreamState ChatChunk := fun s =>
  ({ s with usage := ((event.get "usage").map converseUsage).or s.usage }, [])

def onEvent (model eventType : Str) (event : Json N) : Emitter StreamState ChatChunk :=
  if eventType = "messageStart" then onMessageStart uuid model
  else if eventType = "contentBlockStart" then onBlockStart nameMap model event
  else if eventType = "contentBlockDelta" then onBlockDelta model event
  else if eventType = "contentBlockStop" then
    blocksDo model (ToolBlocks.stop (blockIndex event))
  else if eventType = "messageStop" then onMessageStop event
  else if eventType = "metadata" then onMetadata event
  else Emitter.skip

def terminal (model : Str) (s : StreamState) : List ChatChunk :=
  (s.finish.map (finishChunk s.id model)).toList ++ (s.usage.map (usageChunk s.id model)).toList

def exceptionMessage (frame : EventStreamFrame) : Str :=
  "Bedrock stream exception (" ++ frame.exceptionType ++ "): " ++ frame.payload

variable (N)

/-- The loop over the frames, and the failures of the connection. -/
def streamFrom (uuid : Nat → Str) (nameMap : Str → Option Str) (model : Str) :
    List (Except Str EventStreamFrame) → StreamState → List (Except ProviderError ChatChunk)
  | [], s => (terminal model s).map .ok
  | .error e :: _, _ => [.error (.transport e)]
  | .ok frame :: rest, s =>
    if frame.isException then [.error (.status 400 (exceptionMessage frame) false)]
    else
      match (SerdeJson.fromStr frame.payload : Option (Json N)) with
      | none => streamFrom uuid nameMap model rest s
      | some event =>
        let next := onEvent uuid nameMap model frame.eventType event s
        next.2.map .ok ++ streamFrom uuid nameMap model rest next.1

def converseEventStream (model : Str)
    (frames : List (Except Str EventStreamFrame)) : List (Except ProviderError ChatChunk) :=
  streamFrom N uuid nameMap model frames StreamState.new

end

/-! ## In one piece -/

variable {N F : Type} [SerdeJson N F] [AsI64 N]

/-- The call of a `toolUse`. -/
def toolUseCall (nameMap : Str → Option Str) (tu : Json N) : ToolCall :=
  { id := ((tu.get "toolUseId").bind Json.asStr).getD []
    kind := "function"
    function :=
      { name := unsanitizeToolName (((tu.get "name").bind Json.asStr).getD []) nameMap
        arguments := ((tu.get "input").map SerdeJson.toText).getD noArguments } }

def contentBlocks (message : Json N) : List (Json N) :=
  ((message.get "content").bind Json.asArray).getD []

def fromConverseResponse (uuid : Nat → Str) (nameMap : Str → Option Str) (body : Json N)
    (model : Str) (now : Int) : Except ProviderError (ChatResponse N) :=
  match (body.get "output").bind fun o => o.get "message" with
  | none => .error (.parse "Converse response has no output.message")
  | some message =>
    let toolCalls := ((contentBlocks message).filterMap fun b => b.get "toolUse").map
      (toolUseCall nameMap)
    let text := (contentBlocks message).flatMap fun b => (deltaText b).getD []
    let reason := ((body.get "stopReason").bind Json.asStr).getD "end_turn"
    .ok
      { id := "chatcmpl-" ++ uuid 0
        created := some now
        model := model
        choices := [⟨0,
          ⟨"assistant", some (messageContent text toolCalls),
            if toolCalls.isEmpty then none else some toolCalls, none⟩,
          some (mapStopReason reason)⟩]
        usage := (body.get "usage").map converseUsage }

end Nasiko.LlmRouter.Providers.BedrockConverse
