import Nasiko.Emitter
import Nasiko.LlmRouter.Ir

/-!
# What the clients of Anthropic and Bedrock have in common

Both providers stream a reply as a sequence of blocks, and both clients turn it into chunks in the
same way. A block that is a tool call gets the next index of the calls; the fragments of its input
are passed on as they come; and when the block ends and no fragment has come, `{}` is passed on.
`ToolBlocks` is what they remember of the blocks.
-/

namespace Nasiko.LlmRouter.Providers

/-! ## Errors -/

inductive ProviderError where
  | status (status : Nat) (message : Str) (retryable : Bool)
  | transport (message : Str)
  | parse (message : Str)
  deriving DecidableEq

namespace ProviderError

def text : ProviderError → Str
  | status code message _ =>
    "provider returned " ++ Nat.toDigits 10 code ++ ": " ++ message
  | transport message => "transport error: " ++ message
  | parse message => "response parse error: " ++ message

end ProviderError

/-! ## Chunks -/

variable (id model : Str)

/-- A chunk with one `delta`. -/
def deltaChunk (delta : Delta) : ChatChunk :=
  ⟨"chatcmpl-" ++ id, model, [⟨0, delta, none⟩], none⟩

/-- A chunk with only a `finish_reason`. -/
def finishChunk (id model finishReason : Str) : ChatChunk :=
  ⟨"chatcmpl-" ++ id, model, [⟨0, ⟨none, none, none⟩, some finishReason⟩], none⟩

/-- A chunk with only the `usage`. -/
def usageChunk (usage : Usage) : ChatChunk :=
  ⟨"chatcmpl-" ++ id, model, [], some usage⟩

def roleChunk : ChatChunk :=
  deltaChunk id model ⟨some "assistant", none, none⟩

def textChunk (id model text : Str) : ChatChunk := deltaChunk id model ⟨none, some text, none⟩

def callChunk (d : ToolCallDelta) : ChatChunk :=
  deltaChunk id model ⟨none, none, some [d]⟩

/-- The content of the message of a reply in one piece: `null` if there are only tool calls. -/
def messageContent {N : Type} (text : Str) (toolCalls : List ToolCall) : Json N :=
  if toolCalls.isEmpty then .string text else if text.isEmpty then .null else .string text

/-! ## Blocks -/

/-- The index of the call of a block, the blocks that have had a fragment, and the next index. -/
structure ToolBlocks where
  blockToTool : Int → Option Int
  toolBlocksWithArguments : List Int
  nextToolIndex : Int

/-- A fragment with nothing but a piece of the arguments. -/
def argumentsDelta (index : Int) (arguments : Str) : ToolCallDelta :=
  ⟨index, none, none, some ⟨none, some arguments⟩⟩

def noArguments : Str := "\x7b\x7d"

namespace ToolBlocks

def new : ToolBlocks := ⟨fun _ => none, [], 0⟩

def start (block : Int) (id name : Option Str) : Emitter ToolBlocks ToolCallDelta := fun s =>
  ({ s with
      blockToTool := Function.update s.blockToTool block (some s.nextToolIndex)
      nextToolIndex := s.nextToolIndex + 1 },
    [⟨s.nextToolIndex, id, some "function", some ⟨name, some []⟩⟩])

def fragment (block : Int) (part : Str) : Emitter ToolBlocks ToolCallDelta := fun s =>
  match s.blockToTool block with
  | some index =>
    ({ s with toolBlocksWithArguments := block :: s.toolBlocksWithArguments },
      [argumentsDelta index part])
  | none => (s, [])

def stop (block : Int) : Emitter ToolBlocks ToolCallDelta := fun s =>
  match s.blockToTool block with
  | some index =>
    if s.toolBlocksWithArguments.contains block then (s, [])
    else (s, [argumentsDelta index noArguments])
  | none => (s, [])

end ToolBlocks

end Nasiko.LlmRouter.Providers
