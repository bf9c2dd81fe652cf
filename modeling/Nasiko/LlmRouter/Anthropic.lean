import Nasiko.Emitter
import Nasiko.LlmRouter.Ir

/-!
# A reply as a stream of Anthropic events

The router answers in the format of Anthropic by rendering each chunk of the provider's reply as
events. A message is a sequence of content blocks, which are numbered from 0; a block is opened,
filled by deltas and closed.

A chunk may have text and fragments of tool calls. A fragment with an id or a name opens a block
for its call, and `tool_index_map` says which block the call of an index has; the text of the
arguments goes to that block.
-/

namespace Nasiko.LlmRouter.Anthropic

/-! ## Events -/

inductive ContentBlock where
  | text (text : Str)
  | toolUse (id name : Str)
  deriving DecidableEq

inductive BlockDelta where
  | textDelta (text : Str)
  | inputJsonDelta (partialJson : Str)
  deriving DecidableEq

/-- The tokens, as the events report them. -/
structure ReportedUsage where
  inputTokens : Option Int
  outputTokens : Option Int
  cacheReadInputTokens : Option Int
  cacheCreationInputTokens : Option Int
  cacheCreation : Option CacheCreationUsage
  deriving DecidableEq

inductive Event where
  | messageStart (id model : Str) (usage : ReportedUsage)
  | contentBlockStart (index : Int) (contentBlock : ContentBlock)
  | contentBlockDelta (index : Int) (delta : BlockDelta)
  | contentBlockStop (index : Int)
  | messageDelta (stopReason : Str) (usage : ReportedUsage)
  | messageStop
  deriving DecidableEq

def anthropicUsage (usage : Usage) : ReportedUsage :=
  let usage := usage.normalizeOpenaiDetails
  ⟨usage.promptTokens, usage.completionTokens, usage.cacheReadInputTokens,
    usage.cacheCreationInputTokens, usage.cacheCreation⟩

def reverseStopReason (finishReason : Str) : Str :=
  if finishReason = "tool_calls" then "tool_use"
  else if finishReason = "length" then "max_tokens"
  else "end_turn"

/-- `str::trim_start_matches` of `chatcmpl-`, as often as it is there; no more often than the text
is long. -/
def trimChatcmpl : Nat → Str → Str
  | 0, id => id
  | n + 1, id =>
    if "chatcmpl-".toList.isPrefixOf id then trimChatcmpl n (id.drop 9) else id

def anthropicMsgId (id : Str) : Str := "msg_" ++ trimChatcmpl id.length id

/-! ## The renderer -/

inductive OpenBlock where
  | text (index : Int)
  | tool (index : Int)
  deriving DecidableEq

def OpenBlock.index : OpenBlock → Int
  | text i => i
  | tool i => i

structure StreamRenderer where
  started : Bool
  id : Str
  model : Str
  usage : Usage
  stopReason : Option Str
  openBlock : Option OpenBlock
  nextIndex : Int
  toolIndexMap : Int → Option Int

namespace StreamRenderer

def default : StreamRenderer := ⟨false, [], [], .default, none, none, 0, fun _ => none⟩

/-- The counts of the start are provisional. -/
def messageStartEvent (r : StreamRenderer) : Event :=
  .messageStart r.id r.model (anthropicUsage { r.usage with
    promptTokens := some (r.usage.promptTokens.getD 0)
    completionTokens := some 0 })

def closeBlock : Emitter StreamRenderer Event := fun r =>
  match r.openBlock with
  | some block => ({ r with openBlock := none }, [.contentBlockStop block.index])
  | none => (r, [])

def openWith (block : Int → OpenBlock) (content : ContentBlock) :
    Emitter StreamRenderer Event := fun r =>
  ({ r with nextIndex := r.nextIndex + 1, openBlock := some (block r.nextIndex) },
    [.contentBlockStart r.nextIndex content])

def ensureTextBlock : Emitter StreamRenderer Event := fun r =>
  match r.openBlock with
  | some (.text _) => (r, [])
  | _ => closeBlock.andThen (openWith .text (.text [])) r

/-- The text goes to the block that is open. -/
def textDelta (text : Str) : Emitter StreamRenderer Event := fun r =>
  match r.openBlock with
  | some (.text index) => (r, [.contentBlockDelta index (.textDelta text)])
  | _ => (r, [])

def renderText (text : Str) : Emitter StreamRenderer Event :=
  ensureTextBlock.andThen (textDelta text)

variable (tc : ToolCallDelta)

/-- The block of a call whose fragment has an id or a name. -/
def startToolBlock : Emitter StreamRenderer Event := fun r =>
  openWith .tool (.toolUse (tc.id.getD []) (tc.name.getD []))
    { r with toolIndexMap := Function.update r.toolIndexMap tc.index (some r.nextIndex) }

def isStart : Bool := tc.id.isSome || tc.name.isSome

/-- The arguments go to the block of the call, whichever is open. -/
def argumentsDelta : Emitter StreamRenderer Event := fun r =>
  match tc.arguments, r.toolIndexMap tc.index with
  | some args, some index =>
    if args.isEmpty then (r, []) else (r, [.contentBlockDelta index (.inputJsonDelta args)])
  | _, _ => (r, [])

def renderToolCall : Emitter StreamRenderer Event :=
  Emitter.andThen (if isStart tc then closeBlock.andThen (startToolBlock tc) else Emitter.skip)
    (argumentsDelta tc)

/-- The counts of a chunk replace those before; what it does not count stays. -/
def addUsage (current : Usage) : Option Usage → Usage
  | none => current
  | some usage =>
    let usage := usage.normalizeOpenaiDetails
    { current with
      promptTokens := usage.promptTokens.or current.promptTokens
      completionTokens := usage.completionTokens.or current.completionTokens
      cacheReadInputTokens := usage.cacheReadInputTokens.or current.cacheReadInputTokens
      cacheCreationInputTokens := usage.cacheCreationInputTokens.or current.cacheCreationInputTokens
      cacheCreation :=
        match usage.cacheCreation with
        | none => current.cacheCreation
        | some cache =>
          let old := current.cacheCreation.getD .default
          some ⟨cache.ephemeral5mInputTokens.or old.ephemeral5mInputTokens,
            cache.ephemeral1hInputTokens.or old.ephemeral1hInputTokens⟩ }

/-- The first chunk starts the message. -/
def begin (chunk : ChatChunk) : Emitter StreamRenderer Event := fun r =>
  let r := { r with usage := addUsage r.usage chunk.usage }
  if r.started then (r, [])
  else
    let r := { r with started := true, id := anthropicMsgId chunk.id, model := chunk.model }
    (r, [r.messageStartEvent])

def renderContent : Option Str → Emitter StreamRenderer Event
  | some text => if text.isEmpty then Emitter.skip else renderText text
  | none => Emitter.skip

def noteStop (finishReason : Option Str) (r : StreamRenderer) : StreamRenderer :=
  match finishReason with
  | some fr => { r with stopReason := some (reverseStopReason fr) }
  | none => r

def renderChoice (choice : ChunkChoice) : Emitter StreamRenderer Event :=
  (renderContent choice.delta.content).andThen
    (Emitter.andThen (Emitter.forEach renderToolCall (choice.delta.toolCalls.getD []))
      fun r => (noteStop choice.finishReason r, []))

def render (chunk : ChatChunk) : Emitter StreamRenderer Event :=
  (begin chunk).andThen
    (match chunk.choices.head? with
      | some choice => renderChoice choice
      | none => Emitter.skip)

def finish : Emitter StreamRenderer Event :=
  Emitter.andThen (fun r =>
      if r.started then (r, []) else
        let r := { r with started := true }
        (r, [r.messageStartEvent]))
    (closeBlock.andThen fun r =>
      (r, [.messageDelta (r.stopReason.getD "end_turn") (anthropicUsage r.usage),
        .messageStop]))

end StreamRenderer

/-- The events of a whole reply. -/
def stream (chunks : List ChatChunk) : List Event :=
  ((Emitter.forEach StreamRenderer.render chunks).andThen StreamRenderer.finish .default).2

end Nasiko.LlmRouter.Anthropic
