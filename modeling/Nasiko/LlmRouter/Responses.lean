import Nasiko.Emitter
import Nasiko.LlmRouter.Ir
import Nasiko.Result

/-!
# A reply in the format of the Responses API

A response is a list of items: the text of the reply, and its tool calls. A tool is a function,
whose arguments are a JSON object, or a custom tool, whose input is a text; a provider is told of
functions only, so the input of a custom tool is the field `input` of the arguments.

`renderResponse` renders a reply that has come in one piece, `StreamRenderer` one that comes in
chunks. Its events have numbers. The text and the functions are announced (`output_item.added`) as
soon as something of them has come; custom tools only at the end of the reply, when their input is
known. All items are done at the end, and the last event has the whole response.

Ids are made up from random UUIDs; here they are numbered.
-/

namespace Nasiko.LlmRouter.Responses

inductive ToolKind where
  | function
  | custom
  deriving DecidableEq

/-- An id that the provider has given, or one that was made up. -/
inductive Id where
  | given (text : Str)
  | made (tag : Str) (number : Nat)
  deriving DecidableEq

inductive ItemStatus where
  | inProgress
  | completed
  | incomplete
  deriving DecidableEq

inductive Item where
  | message (id : Id) (status : ItemStatus) (content : List Str)
  | functionCall (id callId : Id) (name arguments : Str) (status : ItemStatus)
  | customToolCall (id callId : Id) (name input : Str) (status : ItemStatus)
  deriving DecidableEq

inductive ResponseStatus where
  | inProgress
  | completed
  | incomplete
  | failed
  deriving DecidableEq

structure ResponseError where
  code : Str
  message : Str
  deriving DecidableEq

structure ResponseUsage where
  inputTokens : Int
  outputTokens : Int
  totalTokens : Int
  deriving DecidableEq

/-- A response; `createdAt` is `none` for the time when it is rendered. -/
structure Response where
  id : Id
  createdAt : Option Int
  status : ResponseStatus
  error : Option ResponseError
  incompleteDetails : Option Str
  model : Str
  output : List Item
  usage : Option ResponseUsage
  deriving DecidableEq

def terminalResponse (id : Id) (model : Str) (output : List Item) (usage : Option Usage)
    (created : Option Int) (incomplete : Bool) : Response :=
  let input := (usage.bind (·.promptTokens)).getD 0
  let outputTokens := (usage.bind (·.completionTokens)).getD 0
  let total := (usage.bind (·.totalTokens)).getD (input + outputTokens)
  { id := id
    createdAt := created
    status := if incomplete then .incomplete else .completed
    error := none
    incompleteDetails := if incomplete then some "max_output_tokens" else none
    model := model
    output := output
    usage := some ⟨input, outputTokens, total⟩ }

def failedResponse (id : Id) (model : Str) (usage : Option Usage) (code message : Str) : Response :=
  { terminalResponse id model [] usage none false with
    status := .failed
    error := some ⟨code, message⟩ }

/-- The provider has stopped at the limit of tokens. -/
def isIncomplete (finishReason : Option Str) : Bool :=
  finishReason == some "length".toList || finishReason == some "max_tokens".toList

/-- The provider has not ended the reply, or has ended it with the content filter. -/
def isUnsuccessful (finishReason : Option Str) : Bool :=
  finishReason == some "content_filter".toList || finishReason.isNone

def unsuccessful : Str := "provider did not return a successful finish reason"

section

variable (N : Type) {F : Type} [SerdeJson N F]

def parseArgumentsObject (arguments : Str) : Except Str (Json N) :=
  match (SerdeJson.fromStr arguments : Option (Json N)) with
  | none => .error "function call arguments must be valid JSON"
  | some value =>
    if value.isObject then .ok value
    else .error "function call arguments must encode a JSON object"

def inputMissing : Str := "custom tool arguments must contain a string input"

/-- The input of a custom tool. -/
def stringInput (arguments : Json N) : Option Str :=
  (arguments.get "input").bind Json.asStr

/-! ## In one piece -/

variable (kinds : Str → Option ToolKind)

/-- The item of a call; `number` is the next number for an id. -/
def callItem (call : ToolCall) (status : ItemStatus) (incomplete : Bool) (number : Nat) :
    Except Str (Option Item) :=
  if kinds call.function.name = some .custom then
    match parseArgumentsObject N call.function.arguments with
    | .ok arguments =>
      match stringInput N arguments with
      | some input => .ok (some (.customToolCall (.made "ctc" number) (.given call.id)
          call.function.name input status))
      | none => .error inputMissing
    | .error error => if incomplete then .ok none else .error error
  else
    let item := Item.functionCall (.made "fc" number) (.given call.id) call.function.name
      call.function.arguments status
    if incomplete then .ok (some item)
    else
      match parseArgumentsObject N call.function.arguments with
      | .ok _ => .ok (some item)
      | .error error => .error error

def callItems (status : ItemStatus) (incomplete : Bool) :
    List ToolCall → Nat → Except Str (List Item)
  | [], _ => .ok []
  | call :: calls, number => do
    match ← callItem N kinds call status incomplete number with
    | some item =>
      let items ← callItems status incomplete calls (number + 1)
      pure (item :: items)
    | none => callItems status incomplete calls number

def messageItems (text : Option Str) (status : ItemStatus) (number : Nat) : List Item :=
  match text with
  | some text =>
    if text.isEmpty then [] else [.message (.made "msg" number) status [text]]
  | none => []

def responseOutput (resp : ChatResponse N) (incomplete : Bool) (number : Nat) :
    Except Str (List Item) :=
  match resp.choices.head? with
  | none => .ok []
  | some choice =>
    let status := if isIncomplete choice.finishReason then ItemStatus.incomplete else .completed
    let message := messageItems choice.message.text status number
    do
      let items ← callItems N kinds status incomplete (choice.message.toolCalls.getD [])
        (number + message.length)
      pure (message ++ items)

def renderResponse (resp : ChatResponse N) (model : Str) : Response :=
  let id := Id.made "resp" 0
  let finishReason := resp.choices.head?.bind (·.finishReason)
  let incomplete := isIncomplete finishReason
  if isUnsuccessful finishReason then
    failedResponse id model resp.usage "content_filter" unsuccessful
  else
    match responseOutput N kinds resp incomplete 1 with
    | .ok output => terminalResponse id model output resp.usage resp.created incomplete
    | .error error => failedResponse id model resp.usage "invalid_tool_call" error

end

/-! ## In chunks -/

inductive Event where
  | created (response : Response)
  | inProgress (response : Response)
  | outputItemAdded (outputIndex : Nat) (item : Item)
  | contentPartAdded (itemId : Id) (outputIndex : Nat)
  | outputTextDelta (itemId : Option Id) (outputIndex : Option Nat) (delta : Str)
  | functionCallArgumentsDelta (itemId : Id) (outputIndex : Nat) (delta : Str)
  | outputTextDone (itemId : Id) (outputIndex : Nat) (text : Str)
  | contentPartDone (itemId : Id) (outputIndex : Nat) (text : Str)
  | customToolCallInputDelta (itemId : Id) (outputIndex : Nat) (delta : Str)
  | customToolCallInputDone (itemId : Id) (outputIndex : Nat) (input : Str)
  | functionCallArgumentsDone (itemId : Id) (outputIndex : Nat) (arguments : Str)
  | outputItemDone (outputIndex : Nat) (item : Item)
  | failed (response : Response)
  | completed (response : Response)
  | incomplete (response : Response)
  deriving DecidableEq

structure Frame where
  sequenceNumber : Nat
  event : Event
  deriving DecidableEq

structure StreamCall where
  id : Id
  callId : Id
  name : Str
  kind : ToolKind
  arguments : Str
  outputIndex : Nat
  deriving DecidableEq

inductive TerminalOutcome where
  | completed
  | incomplete
  | failed
  deriving DecidableEq

/-- `calls` is in the order of the indices; `drawn` counts the ids that were made up. -/
structure StreamRenderer where
  responseId : Id
  model : Str
  sequence : Nat
  output : List Item
  text : Str
  textItemId : Option Id
  textOutputIndex : Option Nat
  calls : List (Int × StreamCall)
  usage : Option Usage
  finishReason : Option Str
  terminal : Bool
  outcome : Option TerminalOutcome
  toolKinds : Str → Option ToolKind
  nextOutputIndex : Nat
  drawn : Nat

def usizeMax : Nat := 2 ^ 64 - 1

def streamCallItem (call : StreamCall) (status : ItemStatus) (value : Str) : Item :=
  match call.kind with
  | .custom => .customToolCall call.id call.callId call.name value status
  | .function => .functionCall call.id call.callId call.name value status

namespace StreamRenderer

def new (model : Str) (toolKinds : Str → Option ToolKind) : StreamRenderer :=
  ⟨.made "resp" 0, model, 0, [], [], none, none, [], none, none, false, none, toolKinds, 0, 1⟩

/-- `event`: every event gets the next number. -/
def emit (e : Event) : Emitter StreamRenderer Frame := fun r =>
  ({ r with sequence := r.sequence + 1 }, [⟨r.sequence, e⟩])

def start : Emitter StreamRenderer Frame := fun r =>
  let response := { terminalResponse r.responseId r.model [] none none false with
    status := .inProgress
    usage := none }
  (emit (.created response)).andThen (emit (.inProgress response)) r

def newTextId (r : StreamRenderer) : Id := .made "msg" r.drawn

def withText (r : StreamRenderer) : StreamRenderer :=
  { r with
    drawn := r.drawn + 1
    nextOutputIndex := r.nextOutputIndex + 1
    textItemId := some r.newTextId
    textOutputIndex := some r.nextOutputIndex }

def openText : Emitter StreamRenderer Frame := fun r =>
  if r.textItemId.isSome then (r, [])
  else
    (emit (.outputItemAdded r.nextOutputIndex (.message r.newTextId .inProgress []))).andThen
      (emit (.contentPartAdded r.newTextId r.nextOutputIndex)) r.withText

def textDelta (text : Str) : Emitter StreamRenderer Frame := fun r =>
  emit (.outputTextDelta r.textItemId r.textOutputIndex text) { r with text := r.text ++ text }

def renderText : Option Str → Emitter StreamRenderer Frame
  | some text => if text.isEmpty then Emitter.skip else openText.andThen (textDelta text)
  | none => Emitter.skip

/-- `BTreeMap::insert` of a new key. -/
def insertCall (index : Int) (call : StreamCall) (calls : List (Int × StreamCall)) :
    List (Int × StreamCall) :=
  calls.orderedInsert (fun a b => a.1 ≤ b.1) (index, call)

def containsCall (index : Int) (calls : List (Int × StreamCall)) : Bool :=
  calls.any fun c => c.1 == index

variable (delta : ToolCallDelta)

/-- What a call is, as its first fragment tells. -/
def newCall (r : StreamRenderer) : StreamCall :=
  let name := delta.name.getD []
  let kind := (r.toolKinds name).getD .function
  { id := .made (if kind = .custom then "ctc" else "fc") r.drawn
    callId := match delta.id with
      | some id => .given id
      | none => .made "call" (r.drawn + 1)
    name := name
    kind := kind
    arguments := []
    outputIndex := if kind = .custom then usizeMax else r.nextOutputIndex }

def withCall (r : StreamRenderer) : StreamRenderer :=
  { r with
    drawn := r.drawn + if delta.id.isSome then 1 else 2
    nextOutputIndex :=
      if (newCall delta r).kind = .custom then r.nextOutputIndex else r.nextOutputIndex + 1
    calls := insertCall delta.index (newCall delta r) r.calls }

/-- The first fragment of a call. A function is announced at once. -/
def openCall : Emitter StreamRenderer Frame := fun r =>
  if containsCall delta.index r.calls then (r, [])
  else
    let call := newCall delta r
    if call.kind = .function then
      emit (.outputItemAdded call.outputIndex (streamCallItem call .inProgress []))
        (withCall delta r)
    else (withCall delta r, [])

def withArguments (r : StreamRenderer) : StreamRenderer :=
  { r with calls := r.calls.map fun c =>
      if c.1 = delta.index then (c.1, { c.2 with arguments := c.2.arguments ++ delta.text })
      else c }

def addArguments : Emitter StreamRenderer Frame := fun r =>
  if delta.text.isEmpty then (r, [])
  else
    match r.calls.find? fun c => c.1 == delta.index with
    | some (_, call) =>
      if call.kind = .function then
        emit (.functionCallArgumentsDelta call.id call.outputIndex delta.text)
          (withArguments delta r)
      else (withArguments delta r, [])
    | none => (withArguments delta r, [])

def renderToolCall : Emitter StreamRenderer Frame :=
  (openCall delta).andThen (addArguments delta)

def renderChoice (choice : ChunkChoice) : Emitter StreamRenderer Frame := fun r =>
  (renderText choice.delta.content).andThen
    (Emitter.forEach renderToolCall (choice.delta.toolCalls.getD []))
    { r with finishReason := choice.finishReason.or r.finishReason }

def render (chunk : ChatChunk) : Emitter StreamRenderer Frame := fun r =>
  if r.terminal then (r, [])
  else Emitter.forEach renderChoice chunk.choices { r with usage := chunk.usage.or r.usage }

variable (N : Type) {F : Type} [SerdeJson N F] (incomplete : Bool) (call : StreamCall)

/-- What the item of a call will have; nothing if it is left out. -/
def validatedCallValue : Except Str (Option Str) :=
  match parseArgumentsObject N call.arguments with
  | .ok arguments =>
    if call.kind = .custom then
      match stringInput N arguments with
      | some input => .ok (some input)
      | none => if incomplete then .ok none else .error inputMissing
    else .ok (some call.arguments)
  | .error error =>
    if incomplete then .ok (if call.kind = .custom then none else some call.arguments)
    else .error error

def validatedCallValues (incomplete : Bool) : List StreamCall → Except Str (List (Option Str))
  | [] => .ok []
  | call :: calls => do
    let value ← validatedCallValue N incomplete call
    let values ← validatedCallValues incomplete calls
    pure (value :: values)

/-- A renderer that is about to end, with the items that are done. -/
structure Closing where
  renderer : StreamRenderer
  completedItems : List (Nat × Item)

def Closing.emit (e : Event) : Emitter Closing Frame := fun c =>
  ({ c with renderer := (StreamRenderer.emit e c.renderer).1 },
    (StreamRenderer.emit e c.renderer).2)

def Closing.done (outputIndex : Nat) (item : Item) : Emitter Closing Frame := fun c =>
  emit (.outputItemDone outputIndex item)
    { c with completedItems := c.completedItems ++ [(outputIndex, item)] }

def finalStatus : ItemStatus := if incomplete then .incomplete else .completed

def closeText : Emitter Closing Frame := fun c =>
  match c.renderer.textItemId, c.renderer.textOutputIndex with
  | some id, some outputIndex =>
    let text := c.renderer.text
    (Closing.emit (.outputTextDone id outputIndex text)).andThen
      ((Closing.emit (.contentPartDone id outputIndex text)).andThen
        (Closing.done outputIndex (.message id (finalStatus incomplete) [text]))) c
  | _, _ => (c, [])

def closeFunction : Emitter Closing Frame :=
  (Closing.emit (.functionCallArgumentsDone call.id call.outputIndex call.arguments)).andThen
    (Closing.done call.outputIndex (streamCallItem call (finalStatus incomplete) call.arguments))

/-- A custom tool is announced when its input is known. -/
def closeCustom (input : Str) : Emitter Closing Frame :=
  fun c =>
    let call := { call with outputIndex := c.renderer.nextOutputIndex }
    (Closing.emit (.outputItemAdded call.outputIndex (streamCallItem call .inProgress []))).andThen
      (Emitter.andThen
        (if input.isEmpty then Emitter.skip
          else Closing.emit (.customToolCallInputDelta call.id call.outputIndex input))
        ((Closing.emit (.customToolCallInputDone call.id call.outputIndex input)).andThen
          (Closing.done call.outputIndex (streamCallItem call (finalStatus incomplete) input))))
      { c with renderer := { c.renderer with nextOutputIndex := c.renderer.nextOutputIndex + 1 } }

def closeCall (entry : (Int × StreamCall) × Option Str) : Emitter Closing Frame := fun c =>
  let ((index, call), value) := entry
  let c := { c with renderer := { c.renderer with
    calls := c.renderer.calls.filter fun e => e.1 != index } }
  match value, call.kind with
  | none, _ => (c, [])
  | some input, .custom => closeCustom incomplete call input c
  | some _, .function => closeFunction incomplete call c

/-- The last event of a reply that has not failed. -/
def complete (c : Closing) : StreamRenderer × List Frame :=
  let output := (c.completedItems.insertionSort fun a b => a.1 ≤ b.1).map Prod.snd
  let r := { c.renderer with output := output }
  let response := terminalResponse r.responseId r.model output r.usage none incomplete
  emit (if incomplete then .incomplete response else .completed response) r

def fails (code message : Str) : Emitter StreamRenderer Frame := fun r =>
  emit (.failed (failedResponse r.responseId r.model r.usage code message))
    { r with outcome := some .failed }

/-- The end of a reply that has not failed. -/
def succeeds : Emitter StreamRenderer Frame := fun r =>
  let r := { r with outcome := some (if incomplete then .incomplete else .completed) }
  match validatedCallValues N incomplete (r.calls.map Prod.snd) with
  | .error error => fails "invalid_tool_call" error r
  | .ok values =>
    let closing := (closeText incomplete).andThen
      (Emitter.forEach (closeCall incomplete) (r.calls.zip values)) ⟨r, []⟩
    let last := complete incomplete closing.1
    (last.1, closing.2 ++ last.2)

/-- `terminal`: only the first end counts. -/
def once (f : Emitter StreamRenderer Frame) : Emitter StreamRenderer Frame := fun r =>
  if r.terminal then (r, []) else f { r with terminal := true }

def finish : Emitter StreamRenderer Frame := fun r =>
  if isUnsuccessful r.finishReason then once (fails "content_filter" unsuccessful) r
  else once (succeeds N (isIncomplete r.finishReason)) r

def fail (message : Str) : Emitter StreamRenderer Frame :=
  once (fails "upstream_error" message)

end StreamRenderer

/-- How the stream of a provider ends. -/
inductive Ending where
  | finish
  | fail (message : Str)
  deriving DecidableEq

open StreamRenderer in
/-- All events for the chunks of a reply. -/
def stream (N : Type) {F : Type} [SerdeJson N F] (model : Str) (toolKinds : Str → Option ToolKind)
    (chunks : List ChatChunk) (ending : Ending) : List Frame :=
  (start.andThen ((Emitter.forEach render chunks).andThen
    (match ending with
      | .finish => StreamRenderer.finish N
      | .fail message => StreamRenderer.fail message)) (new model toolKinds)).2

end Nasiko.LlmRouter.Responses
