import Behest.Adapter.Answer
import Behest.Adapter.Sse

/-!
# The Anthropic adapter

A response of the messages API as a whole (`behest-adapter-anthropic/src/convert.rs`) and as a
stream of events (`behest-adapter-anthropic/src/chat.rs`). The state of a stream lists the tool
calls started so far, while the events number all content blocks.
-/

namespace Behest

/-! ### Wire types -/

/-- Source: `types.rs:12–19`. -/
structure AnthropicCacheControl where
  kind : String
  ttl : Option String

/-- Source: `types.rs:153–162`. -/
structure AnthropicImageSource where
  sourceType : String
  url : String
  mediaType : Option String

/-- Source: `types.rs:136–149`. -/
inductive AnthropicToolResultContent where
  | text (text : String)
  | image (source : AnthropicImageSource)

/-- Source: `types.rs:91–128`. -/
inductive AnthropicContentBlock where
  | text (text : String) (cacheControl : Option AnthropicCacheControl)
  | image (source : AnthropicImageSource)
  | toolUse (id name : String) (input : Value)
  | toolResult (toolUseId : String) (content : List AnthropicToolResultContent)
      (cacheControl : Option AnthropicCacheControl)

/-- Source: `types.rs:195–206`. -/
structure AnthropicUsage where
  inputTokens : Nat
  outputTokens : Nat
  cacheCreationInputTokens : Option Nat
  cacheReadInputTokens : Option Nat

/-- What the conversion of a response reads. Source: `types.rs:180–191`. -/
structure AnthropicResponse where
  content : List AnthropicContentBlock
  stopReason : Option String
  usage : Option AnthropicUsage

/-- Source: `types.rs:266–282`. -/
inductive AnthropicDelta where
  | textDelta (text : String)
  | inputJsonDelta (partialJson : String)
  | other

/-- Source: `types.rs:211–261`. -/
inductive AnthropicStreamEvent where
  | messageStart (model : String)
  | contentBlockStart (index : Nat) (contentBlock : AnthropicContentBlock)
  | contentBlockDelta (index : Nat) (delta : AnthropicDelta)
  | contentBlockStop (index : Nat)
  | messageDelta (stopReason : Option String) (usage : Option AnthropicUsage)
  | messageStop
  | other

namespace TokenUsage

/-- Source: `behest-core/src/message.rs:374–384`. -/
def withCacheStats (u : TokenUsage) (cacheCreationInputTokens cacheReadInputTokens
    cachedInputTokens : Option Nat) : TokenUsage :=
  { u with
    cacheCreationInputTokens := cacheCreationInputTokens
    cacheReadInputTokens := cacheReadInputTokens
    cachedInputTokens := cachedInputTokens }

end TokenUsage

namespace Anthropic

/-! ### A whole response -/

/-- The content part and the tool call of a block. Source: `convert.rs:304–314`. -/
def parseContentBlock (acc : List ContentPart × List ToolCall) :
    AnthropicContentBlock → List ContentPart × List ToolCall
  | .text text _ => (acc.1 ++ [.ofText text], acc.2)
  | .toolUse id name input => (acc.1, acc.2 ++ [⟨id, name, input⟩])
  | .image _ | .toolResult _ _ _ => acc

/-- Source: `convert.rs:300–317`. -/
def parseContentBlocks (blocks : List AnthropicContentBlock) : List ContentPart × List ToolCall :=
  blocks.foldl parseContentBlock ([], [])

/-- Source: `convert.rs:320–328`. -/
def convertStopReason : Option String → FinishReason
  | some "end_turn" | some "stop_sequence" => .stop
  | some "tool_use" => .toolCalls
  | some "max_tokens" => .length
  | some other => .unknown other
  | none => .unknown "null"

/-- Source: `convert.rs:331–337`. -/
def convertUsage (usage : AnthropicUsage) : TokenUsage :=
  (TokenUsage.new usage.inputTokens usage.outputTokens).withCacheStats
    usage.cacheCreationInputTokens usage.cacheReadInputTokens none

/-- Source: `convert.rs:277–294`. -/
def fromAnthropicResponse (response : AnthropicResponse) : ChatResponse :=
  let (content, toolCalls) := parseContentBlocks response.content
  ⟨.assistant content toolCalls, convertStopReason response.stopReason,
    response.usage.map convertUsage⟩

/-! ### A stream -/

/-- Source: `chat.rs:200–204`. -/
structure ToolCallState where
  id : String
  name : String
  arguments : String

/-- Source: `chat.rs:193–197`. -/
structure StreamState where
  provider : String
  model : Option String
  toolCalls : List ToolCallState

/-- Source: `chat.rs:207–213`. -/
def StreamState.new (provider : String) : StreamState := ⟨provider, none, []⟩

/-- Source: `chat.rs:266–282`. -/
def handleBlockStart (state : StreamState) (_index : Nat) :
    AnthropicContentBlock → Option ChatStreamEvent × StreamState
  | .toolUse id name _ =>
      (some (.toolCallStarted id name),
        { state with toolCalls := state.toolCalls ++ [⟨id, name, ""⟩] })
  | _ => (none, state)

/-- Arguments for a call that is not listed are reported under a made-up identifier.
Source: `chat.rs:286–314`. -/
def handleBlockDelta (state : StreamState) (index : Nat) :
    AnthropicDelta → Option ChatStreamEvent × StreamState
  | .textDelta text => if text.isEmpty then (none, state) else (some (.textDelta text), state)
  | .inputJsonDelta partialJson =>
      let toolCalls := state.toolCalls.modify index fun tc =>
        { tc with arguments := tc.arguments ++ partialJson }
      let callId := (toolCalls[index]?).elim ("call_" ++ toString index) ToolCallState.id
      (some (.toolCallArgumentsDelta callId partialJson), { state with toolCalls := toolCalls })
  | .other => (none, state)

variable (parseJson : String → Option Value)

/-- Source: `chat.rs:321–337`. -/
def handleBlockStop (state : StreamState) (index : Nat) : Option ChatStreamEvent :=
  state.toolCalls[index]?.map fun tc =>
    .toolCallCompleted ⟨tc.id, tc.name, (parseJson tc.arguments).getD .null⟩

/-- Source: `chat.rs:345–353`. -/
def convertStreamStopReason : Option String → FinishReason
  | some "end_turn" | some "stop_sequence" => .stop
  | some "tool_use" => .toolCalls
  | some "max_tokens" => .length
  | some other => .unknown other
  | none => .unknown "null"

/-- Source: `chat.rs:239–261`. -/
def mapParsed (state : StreamState) :
    AnthropicStreamEvent → Option ChatStreamEvent × StreamState
  | .messageStart model => (none, { state with model := some model })
  | .contentBlockStart index contentBlock => handleBlockStart state index contentBlock
  | .contentBlockDelta index delta => handleBlockDelta state index delta
  | .contentBlockStop index => (handleBlockStop parseJson state index, state)
  | .messageDelta stopReason usage =>
      (some (.finished (convertStreamStopReason stopReason)
        (usage.map fun u => .new u.inputTokens u.outputTokens)), state)
  | .messageStop | .other => (none, state)

variable (fromStr : String → Except String AnthropicStreamEvent)

/-- Source: `chat.rs:220–262`. -/
def mapAnthropicEvent (state : StreamState) :
    Except ProviderError SseEvent → Option (Except ProviderError ChatStreamEvent) × StreamState
  | .error e => (some (.error e), state)
  | .ok sse =>
      match fromStr sse.data with
      | .error e => (some (.error (.decode state.provider e)), state)
      | .ok parsed => ((mapParsed parseJson state parsed).1.map .ok,
          (mapParsed parseJson state parsed).2)

/-- The items that events are mapped to, one after the other. -/
def mapped (state : StreamState) : List (Except ProviderError SseEvent) → List StreamItem
  | [] => []
  | event :: rest =>
      let (item, state) := mapAnthropicEvent parseJson fromStr state event
      (item.map fun
        | .ok e => StreamItem.event e
        | .error e => .failed e).toList ++ mapped state rest

/-- The stream of a request that has been accepted. Source: `chat.rs:165–185`. -/
def stream (provider : String) (events : List (Except ProviderError SseEvent)) :
    List StreamItem :=
  .event .started :: mapped parseJson fromStr (.new provider) events

end Anthropic

end Behest
