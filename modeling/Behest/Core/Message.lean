import Mathlib.Algebra.GroupWithZero.Nat
import Behest.Core.Value

/-!
# Messages, requests and responses

The provider-neutral chat vocabulary of `behest-core`: content parts with their cache
markers, messages by role, tool specifications and calls, requests, responses and token
accounting. Counters of the source are unsigned 64-bit words and are natural numbers here.
-/

namespace Behest

/-- Cache strategy kinds. Source: `behest-core/src/cache.rs:83–86`. -/
inductive CacheControlKind where
  | ephemeral
deriving DecidableEq

/-- Time-to-live of a cache entry. Source: `behest-core/src/cache.rs:92–100`. -/
inductive CacheTtl where
  | fiveMinutes
  | oneHour
deriving DecidableEq

/-- Cache marker of a content part or of a tool definition.
Source: `behest-core/src/cache.rs:38–44`. -/
structure CacheControl where
  kind : CacheControlKind
  ttl : CacheTtl
deriving DecidableEq

/-- Source: `behest-core/src/tool_types.rs:15–29`. -/
structure ToolSpec where
  name : String
  description : String
  parametersSchema : Value
  cacheControl : Option CacheControl

/-- Source: `behest-core/src/tool_types.rs:59–73`. -/
inductive ToolChoice where
  | auto
  | none
  | required
  | tool (name : String)
deriving DecidableEq

/-- Tool call emitted by an assistant message. Source: `behest-core/src/tool_types.rs:76–83`. -/
structure ToolCall where
  id : String
  name : String
  arguments : Value
deriving DecidableEq

/-- One part of a message. Source: `behest-core/src/message.rs:186–212`. -/
inductive ContentPart where
  | text (text : String) (cacheControl : Option CacheControl)
  | json (value : Value) (cacheControl : Option CacheControl)
  | imageUrl (url : String) (mimeType : Option String) (cacheControl : Option CacheControl)
deriving DecidableEq

namespace ContentPart

/-- A text part without a marker. Source: `behest-core/src/message.rs:218–223`. -/
def ofText (text : String) : ContentPart := .text text none

/-- Source: `behest-core/src/message.rs:252–258`. -/
def setCacheControl (ctrl : CacheControl) : ContentPart → ContentPart
  | .text t _ => .text t (some ctrl)
  | .json v _ => .json v (some ctrl)
  | .imageUrl url mimeType _ => .imageUrl url mimeType (some ctrl)

/-- Source: `behest-core/src/message.rs:262–268`. -/
def cacheControl : ContentPart → Option CacheControl
  | .text _ ctrl => ctrl
  | .json _ ctrl => ctrl
  | .imageUrl _ _ ctrl => ctrl

end ContentPart

/-- Chat message by role. Source: `behest-core/src/message.rs:78–106`. -/
inductive Message where
  | system (content : List ContentPart)
  | user (content : List ContentPart)
  | assistant (content : List ContentPart) (toolCalls : List ToolCall)
  | tool (toolCallId : String) (name : String) (content : List ContentPart)

namespace Message

/-- Source: `behest-core/src/message.rs:118–122`. -/
def userText (text : String) : Message := .user [.ofText text]

/-- Source: `behest-core/src/message.rs:126–131`. -/
def assistantText (text : String) : Message := .assistant [.ofText text] []

/-- Source: `behest-core/src/message.rs:135–145`. -/
def toolText (toolCallId name text : String) : Message := .tool toolCallId name [.ofText text]

/-- The content parts, whatever the role. -/
def content : Message → List ContentPart
  | .system content => content
  | .user content => content
  | .assistant content _ => content
  | .tool _ _ content => content

/-- The same message with other content parts. -/
def withContent (content : List ContentPart) : Message → Message
  | .system _ => .system content
  | .user _ => .user content
  | .assistant _ toolCalls => .assistant content toolCalls
  | .tool toolCallId name _ => .tool toolCallId name content

/-- Source: `behest-core/src/message.rs:149–154`. -/
def toolCalls : Message → List ToolCall
  | .assistant _ toolCalls => toolCalls
  | _ => []

def isSystem : Message → Bool
  | .system _ => true
  | _ => false

def isUser : Message → Bool
  | .user _ => true
  | _ => false

def isAssistant : Message → Bool
  | .assistant _ _ => true
  | _ => false

end Message

/-- Request for a chat response. The fields the runtime leaves at their defaults
(`response_format`, sampling, `max_output_tokens`, `stop`, `metadata`) are left out.
Source: `behest-core/src/message.rs:12–33`. -/
structure ChatRequest where
  model : String
  messages : List Message
  tools : List ToolSpec
  toolChoice : ToolChoice

/-- Reason generation ended. Source: `behest-core/src/message.rs:312–325`. -/
inductive FinishReason where
  | stop
  | toolCalls
  | length
  | contentFilter
  | error
  | unknown (reason : String)
deriving DecidableEq

/-- Token usage reported by a provider. Source: `behest-core/src/message.rs:329–353`. -/
structure TokenUsage where
  inputTokens : Nat
  outputTokens : Nat
  totalTokens : Nat
  cacheCreationInputTokens : Option Nat
  cacheReadInputTokens : Option Nat
  cachedInputTokens : Option Nat
deriving DecidableEq

namespace TokenUsage

/-- Source: `behest-core/src/message.rs:361–370`. -/
def new (inputTokens outputTokens : Nat) : TokenUsage :=
  ⟨inputTokens, outputTokens, inputTokens + outputTokens, none, none, none⟩

/-- Sum of two optional counts, absent only when both are.
Source: `behest-core/src/message.rs:426–432`. -/
def addOpt : Option Nat → Option Nat → Option Nat
  | none, none => none
  | some x, none => some x
  | none, some y => some y
  | some x, some y => some (x + y)

/-- Source: `behest-core/src/message.rs:405–423`. -/
def merge (a b : TokenUsage) : TokenUsage where
  inputTokens := a.inputTokens + b.inputTokens
  outputTokens := a.outputTokens + b.outputTokens
  totalTokens := a.inputTokens + b.inputTokens + a.outputTokens + b.outputTokens
  cacheCreationInputTokens := addOpt a.cacheCreationInputTokens b.cacheCreationInputTokens
  cacheReadInputTokens := addOpt a.cacheReadInputTokens b.cacheReadInputTokens
  cachedInputTokens := addOpt a.cachedInputTokens b.cachedInputTokens

end TokenUsage

/-- Complete response of a provider; `provider`, `model` and `raw`, which the runtime
does not read, are left out. Source: `behest-core/src/message.rs:293–306`. -/
structure ChatResponse where
  message : Message
  finishReason : FinishReason
  usage : Option TokenUsage

/-! ### Token estimates

The `chars / 4` estimates of `behest-core/src/token.rs`; lengths are UTF-8 byte lengths, as
`str::len` is. -/

def charsPerToken : Nat := 4

/-- Source: `behest-core/src/token.rs:14–16`. -/
def estimateTokens (text : String) : Nat :=
  (text.utf8ByteSize + (charsPerToken - 1)) / charsPerToken

/-- Source: `behest-core/src/token.rs:20–26`. -/
def estimateContentPartTokens : ContentPart → Nat
  | .text text _ => estimateTokens text
  | .json value _ => estimateTokens value.render
  | .imageUrl url _ _ => estimateTokens url

/-- Source: `behest-core/src/token.rs:30–34`. -/
def estimateToolCallTokens (call : ToolCall) : Nat :=
  estimateTokens call.name + estimateTokens call.arguments.render + 20

/-- Source: `behest-core/src/token.rs:38–66`. -/
def estimateMessageTokens : Message → Nat
  | .system content | .user content => (content.map estimateContentPartTokens).sum + 8
  | .assistant content toolCalls =>
      (content.map estimateContentPartTokens).sum
        + (toolCalls.map estimateToolCallTokens).sum + 8
  | .tool toolCallId name content =>
      estimateTokens toolCallId + estimateTokens name
        + (content.map estimateContentPartTokens).sum + 10

/-- Source: `behest-core/src/token.rs:70–72`. -/
def estimateMessagesTokens (messages : List Message) : Nat :=
  (messages.map estimateMessageTokens).sum

end Behest
