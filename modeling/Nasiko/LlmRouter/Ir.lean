import Nasiko.Json.Serde

/-!
# What the router reads from a provider

The reply of a provider to a request, in one piece (`ChatResponse`) or as a sequence of chunks
(`ChatChunk`). A tool call may be spread over several chunks: its fragments carry the same `index`.
-/

namespace Nasiko.LlmRouter

/-! ## Tokens -/

structure CacheCreationUsage where
  ephemeral5mInputTokens : Option Int
  ephemeral1hInputTokens : Option Int
  deriving DecidableEq

/-- Where OpenAI reports what it has read from its cache. -/
structure PromptTokensDetails where
  cachedTokens : Option Int
  deriving DecidableEq

structure Usage where
  promptTokens : Option Int
  completionTokens : Option Int
  totalTokens : Option Int
  cacheReadInputTokens : Option Int
  cacheCreationInputTokens : Option Int
  cacheCreation : Option CacheCreationUsage
  promptTokensDetails : Option PromptTokensDetails
  deriving DecidableEq

def CacheCreationUsage.default : CacheCreationUsage := ⟨none, none⟩

def Usage.default : Usage := ⟨none, none, none, none, none, none, none⟩

/-- The prompt tokens that were read from the cache are counted on their own; OpenAI counts them
among the prompt tokens. -/
def Usage.normalizeOpenaiDetails (u : Usage) : Usage :=
  match u.promptTokensDetails with
  | none => u
  | some nested =>
    let u := { u with promptTokensDetails := none }
    if u.cacheReadInputTokens.isSome then u
    else
      { u with
        cacheReadInputTokens := nested.cachedTokens
        promptTokens :=
          match nested.cachedTokens, u.promptTokens with
          | some cached, some prompt => some (max (prompt - cached) 0)
          | _, prompt => prompt }

/-! ## A reply in one piece -/

structure FunctionCall where
  name : Str
  arguments : Str
  deriving DecidableEq

structure ToolCall where
  id : Str
  kind : Str
  function : FunctionCall
  deriving DecidableEq

/-- A message; its content is a text, or a list of parts. -/
structure Message (N : Type) where
  role : Str
  content : Option (Json N)
  toolCalls : Option (List ToolCall)
  toolCallId : Option Str

structure Choice (N : Type) where
  index : Int
  message : Message N
  finishReason : Option Str

structure ChatResponse (N : Type) where
  id : Str
  created : Option Int
  model : Str
  choices : List (Choice N)
  usage : Option Usage

/-- The plain text of the content: a string, or the texts of its parts. -/
def Message.text {N : Type} (m : Message N) : Option Str :=
  match m.content with
  | some (.string s) => some s
  | some (.array parts) =>
    let joined := parts.flatMap fun p => ((p.get "text").bind Json.asStr).getD []
    if joined.isEmpty then none else some joined
  | _ => none

/-! ## A reply in chunks -/

structure FunctionCallDelta where
  name : Option Str
  arguments : Option Str
  deriving DecidableEq

structure ToolCallDelta where
  index : Int
  id : Option Str
  kind : Option Str
  function : Option FunctionCallDelta
  deriving DecidableEq

structure Delta where
  role : Option Str
  content : Option Str
  toolCalls : Option (List ToolCallDelta)
  deriving DecidableEq

structure ChunkChoice where
  index : Int
  delta : Delta
  finishReason : Option Str
  deriving DecidableEq

structure ChatChunk where
  id : Str
  model : Str
  choices : List ChunkChoice
  usage : Option Usage
  deriving DecidableEq

namespace ToolCallDelta

variable (d : ToolCallDelta)

def name : Option Str := d.function.bind (·.name)

def arguments : Option Str := d.function.bind (·.arguments)

/-- The text that the fragment adds to the arguments. -/
def text : Str := d.arguments.getD []

end ToolCallDelta

end Nasiko.LlmRouter
