import Mathlib.Data.List.Destutter
import Behest.Adapter.Anthropic
import Behest.Store.Keyed

/-!
# The OpenAI adapter

A response of the chat completions API as a whole (`behest-adapter-openai/src/convert.rs`) and as
a stream of chunks (`behest-adapter-openai/src/chat.rs`). A chunk refers to a tool call by its
index; the state of a stream has a map from indices for each field of a call.
-/

namespace Behest

/-! ### Wire types -/

/-- Source: `types.rs:94–101`. -/
structure OpenAiFunctionCall where
  name : Option String
  arguments : Option String
deriving DecidableEq

/-- A tool call without its type, which is not read. Source: `types.rs:79–90`. -/
structure OpenAiToolCall where
  id : Option String
  index : Option Nat
  function : OpenAiFunctionCall
deriving DecidableEq

/-- What the conversion of a message reads. Source: `types.rs:42–54`. -/
structure OpenAiMessage where
  content : Option Value
  toolCalls : Option (List OpenAiToolCall)

/-- Source: `types.rs:120–127`. -/
structure OpenAiChatChoice where
  message : OpenAiMessage
  finishReason : Option String

/-- Source: `types.rs:147–151`. -/
structure OpenAiPromptTokensDetails where
  cachedTokens : Option Nat
deriving DecidableEq

/-- Source: `types.rs:131–141`. -/
structure OpenAiUsage where
  promptTokens : Nat
  completionTokens : Nat
  promptTokensDetails : Option OpenAiPromptTokensDetails
deriving DecidableEq

/-- Source: `types.rs:107–116`. -/
structure OpenAiChatResponse where
  choices : List OpenAiChatChoice
  usage : Option OpenAiUsage

/-- Source: `types.rs:181–188`. -/
structure OpenAiDelta where
  content : Option String
  toolCalls : Option (List OpenAiToolCall)
deriving DecidableEq

/-- Source: `types.rs:170–177`. -/
structure OpenAiStreamChoice where
  delta : OpenAiDelta
  finishReason : Option String
deriving DecidableEq

/-- Source: `types.rs:157–166`. -/
structure OpenAiStreamChunk where
  choices : List OpenAiStreamChoice
  usage : Option OpenAiUsage
deriving DecidableEq

namespace Value

/-- `Value::get` with a key. -/
def field (key : String) : Value → Option Value
  | .object fields => fields.lookup key
  | _ => none

/-- `Value::as_str`. -/
def asStr : Value → Option String
  | .string s => some s
  | _ => none

end Value

/-- The bare marker at the end of a stream. Source: `sse.rs:31–33`. -/
def SseEvent.isOpenAiDone (e : SseEvent) : Bool :=
  Sse.trim e.data.toList == ['[', 'D', 'O', 'N', 'E', ']']

namespace OpenAi

variable (parseJson : String → Option Value)

/-! ### A whole response -/

/-- Source: `convert.rs:248–264`. -/
def parseContentItem (item : Value) : Option ContentPart := do
  let kind ← (← item.field "type").asStr
  match kind with
  | "text" => return .ofText (← (← item.field "text").asStr)
  | "image_url" => return .imageUrl (← (← (← item.field "image_url").field "url").asStr) none none
  | _ => return .json item none

/-- Source: `convert.rs:232–242`. -/
def parseContentValue : Option Value → List ContentPart
  | none => []
  | some (.string text) => [.ofText text]
  | some (.array items) => items.filterMap parseContentItem
  | some other => [.json other none]

/-- Calls without an identifier or a name are left out; absent arguments are an empty object.
Source: `convert.rs:270–288`. -/
def convertResponseToolCalls (calls : List OpenAiToolCall) : List ToolCall :=
  calls.filterMap fun call => do
    let id ← call.id
    let name ← call.function.name
    return ⟨id, name, (parseJson (call.function.arguments.getD "\x7b\x7d")).getD .null⟩

/-- Source: `convert.rs:217–229`. -/
def convertResponseMessage (message : OpenAiMessage) : Message :=
  .assistant (parseContentValue message.content)
    ((message.toolCalls.map (convertResponseToolCalls parseJson)).getD [])

/-- Source: `convert.rs:291–300`. -/
def convertFinishReason : Option String → FinishReason
  | some "stop" => .stop
  | some "tool_calls" => .toolCalls
  | some "length" => .length
  | some "content_filter" => .contentFilter
  | some other => .unknown other
  | none => .unknown "null"

/-- Source: `convert.rs:303–313`. -/
def convertUsage (usage : OpenAiUsage) : TokenUsage :=
  (TokenUsage.new usage.promptTokens usage.completionTokens).withCacheStats none none
    (usage.promptTokensDetails.bind OpenAiPromptTokensDetails.cachedTokens)

/-- Source: `convert.rs:197–212`. -/
def fromOpenAiResponse (response : OpenAiChatResponse) : Option ChatResponse :=
  response.choices.head?.map fun choice =>
    ⟨convertResponseMessage parseJson choice.message, convertFinishReason choice.finishReason,
      response.usage.map convertUsage⟩

/-! ### A stream -/

/-- A hash map from indices. -/
abbrev IndexMap := Keyed (Prod.fst : Nat × String → Nat)

namespace IndexMap

def lookup (m : IndexMap) (index : Nat) : Option String := (m.get index).map Prod.snd

def set (m : IndexMap) (index : Nat) (value : String) : IndexMap := m.insert (index, value)

def keys (m : IndexMap) : List Nat := m.records.map Prod.fst

end IndexMap

/-- Source: `chat.rs:183–189`. -/
structure OpenAiStreamState where
  provider : String
  indexToId : IndexMap
  indexToName : IndexMap
  indexToArgs : IndexMap
  startedIndices : List Nat

namespace OpenAiStreamState

/-- Source: `chat.rs:192–200`. -/
def new (provider : String) : OpenAiStreamState := ⟨provider, .empty, .empty, .empty, []⟩

/-- The identifier for an index, made up where none is known. -/
def callId (state : OpenAiStreamState) (index : Nat) : String :=
  (state.indexToId.lookup index).getD ("call_" ++ toString index)

/-- Source: `chat.rs:202–236`. -/
def completedToolCalls (state : OpenAiStreamState) : List ToolCall × OpenAiStreamState :=
  let indices := ((state.indexToId.keys ++ state.indexToName.keys ++ state.indexToArgs.keys)
    |>.insertionSort (· ≤ ·)).destutter (· ≠ ·)
  (indices.filterMap fun index => (state.indexToName.lookup index).map fun name =>
      ⟨state.callId index, name,
        ((state.indexToArgs.lookup index).bind parseJson).getD .null⟩,
    .new state.provider)

end OpenAiStreamState

/-- Source: `chat.rs:315–323`. -/
def convertStreamFinish : String → FinishReason
  | "stop" => .stop
  | "tool_calls" => .toolCalls
  | "length" => .length
  | "content_filter" => .contentFilter
  | other => .unknown other

/-- The identifier and the name of a delta are noted. Source: `chat.rs:338–345`. -/
def noteToolCall (state : OpenAiStreamState) (index : Nat) (call : OpenAiToolCall) :
    OpenAiStreamState :=
  { state with
    indexToId := call.id.elim state.indexToId (state.indexToId.set index)
    indexToName := call.function.name.elim state.indexToName (state.indexToName.set index) }

/-- A call starts once both are known. Source: `chat.rs:347–358`. -/
def startToolCall (state : OpenAiStreamState) (index : Nat) :
    List ChatStreamEvent × OpenAiStreamState :=
  match state.indexToId.lookup index, state.indexToName.lookup index with
  | some id, some name =>
      if !id.isEmpty && !name.isEmpty && !state.startedIndices.contains index then
        ([.toolCallStarted id name],
          { state with startedIndices := index :: state.startedIndices })
      else ([], state)
  | _, _ => ([], state)

/-- Source: `chat.rs:360–373`. -/
def appendArguments (state : OpenAiStreamState) (index : Nat) :
    Option String → List ChatStreamEvent × OpenAiStreamState
  | none => ([], state)
  | some args =>
      let raw := (state.indexToArgs.lookup index).getD "" ++ args
      ([.toolCallArgumentsDelta (state.callId index) args],
        { state with indexToArgs := state.indexToArgs.set index raw })

/-- One pass of the loop over the deltas. Source: `chat.rs:337–374`. -/
def convertToolCallDelta (state : OpenAiStreamState) (call : OpenAiToolCall) :
    List ChatStreamEvent × OpenAiStreamState :=
  let index := call.index.getD 0
  let (started, state) := startToolCall (noteToolCall state index call) index
  let (arguments, state) := appendArguments state index call.function.arguments
  (started ++ arguments, state)

/-- Source: `chat.rs:331–377`. -/
def convertToolCallDeltas (state : OpenAiStreamState) :
    List OpenAiToolCall → List ChatStreamEvent × OpenAiStreamState
  | [] => ([], state)
  | call :: rest =>
      let (front, state) := convertToolCallDelta state call
      let (back, state) := convertToolCallDeltas state rest
      (front ++ back, state)

/-- Source: `chat.rs:299–305`. -/
def convertContent : Option String → List ChatStreamEvent
  | some text => if text.isEmpty then [] else [.textDelta text]
  | none => []

/-- A chunk that finishes is not read for its delta. Source: `chat.rs:277–311`. -/
def convertChoice (state : OpenAiStreamState) (choice : OpenAiStreamChoice)
    (usage : Option OpenAiUsage) : List ChatStreamEvent × OpenAiStreamState :=
  match choice.finishReason with
  | some reason =>
      let finishReason := convertStreamFinish reason
      let (calls, state) :=
        if finishReason = .toolCalls then state.completedToolCalls parseJson else ([], state)
      (calls.map .toolCallCompleted ++
        [.finished finishReason (usage.map fun u => .new u.promptTokens u.completionTokens)], state)
  | none =>
      let (events, state) := convertToolCallDeltas state (choice.delta.toolCalls.getD [])
      (convertContent choice.delta.content ++ events, state)

/-- A chunk without choices gives nothing. Source: `chat.rs:273–275`. -/
def convertChunk (state : OpenAiStreamState) (chunk : OpenAiStreamChunk) :
    List ChatStreamEvent × OpenAiStreamState :=
  match chunk.choices.head? with
  | none => ([], state)
  | some choice => convertChoice parseJson state choice chunk.usage

variable (fromStr : String → Except String OpenAiStreamChunk)

/-- Source: `chat.rs:259–312`. -/
def parseChunkEvent (state : OpenAiStreamState) (data : String) :
    List (Except ProviderError ChatStreamEvent) × OpenAiStreamState :=
  match fromStr data with
  | .error e => ([.error (.decode state.provider e)], state)
  | .ok chunk => ((convertChunk parseJson state chunk).1.map .ok,
      (convertChunk parseJson state chunk).2)

/-- Source: `chat.rs:243–252`. -/
def mapSseEvent (state : OpenAiStreamState) : Except ProviderError SseEvent →
    List (Except ProviderError ChatStreamEvent) × OpenAiStreamState
  | .error e => ([.error e], state)
  | .ok sse =>
      if sse.isOpenAiDone then ([], state) else parseChunkEvent parseJson fromStr state sse.data

/-- The items that events are mapped to, one after the other. -/
def mapped (state : OpenAiStreamState) : List (Except ProviderError SseEvent) → List StreamItem
  | [] => []
  | event :: rest =>
      (mapSseEvent parseJson fromStr state event).1.map (fun
        | .ok e => StreamItem.event e
        | .error e => .failed e) ++ mapped (mapSseEvent parseJson fromStr state event).2 rest

/-- The stream of a request that has been accepted. Source: `chat.rs:153–176`. -/
def stream (provider : String) (events : List (Except ProviderError SseEvent)) :
    List StreamItem :=
  .event .started :: mapped parseJson fromStr (.new provider) events

end OpenAi

end Behest
