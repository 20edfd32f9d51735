import Behest.Adapter.Anthropic

/-!
# Requests to the Anthropic adapter

How a request is sent to the messages API (`behest-adapter-anthropic/src/convert.rs`): system
messages become blocks of their own, every other message a list of content blocks. The blocks of
an assistant message are read back by `parseContentBlocks`.
-/

namespace Behest

/-! ### Wire types -/

/-- Source: `types.rs:67–77`. -/
structure AnthropicSystemBlock where
  text : String
  cacheControl : Option AnthropicCacheControl

/-- Source: `types.rs:81–86`. -/
structure AnthropicMessage where
  role : String
  content : List AnthropicContentBlock

/-- Source: `types.rs:166–176`. -/
structure AnthropicToolDef where
  name : String
  description : String
  inputSchema : Value
  cacheControl : Option AnthropicCacheControl

/-- A request without the limits and the sampling, which a request of the runtime leaves at their
defaults. Source: `types.rs:34–62`. -/
structure AnthropicRequest where
  model : String
  system : Option (List AnthropicSystemBlock)
  messages : List AnthropicMessage
  tools : List AnthropicToolDef
  toolChoice : Option Value
  stream : Bool

namespace AnthropicContentBlock

/-- Blocks without a field for a marker carry none. -/
def cacheControl : AnthropicContentBlock → Option AnthropicCacheControl
  | .text _ ctrl => ctrl
  | .toolResult _ _ ctrl => ctrl
  | .image _ | .toolUse _ _ _ => none

def isText : AnthropicContentBlock → Bool
  | .text _ _ => true
  | _ => false

def isToolUse : AnthropicContentBlock → Bool
  | .toolUse _ _ _ => true
  | _ => false

/-- The block without its marker. -/
def unmarked : AnthropicContentBlock → AnthropicContentBlock
  | .text t _ => .text t none
  | .toolResult toolUseId content _ => .toolResult toolUseId content none
  | block => block

end AnthropicContentBlock

/-- Source: `behest-core/src/cache.rs:65–70`. -/
def CacheTtl.wire : CacheTtl → String
  | .fiveMinutes => "5m"
  | .oneHour => "1h"

namespace Anthropic

/-! ### Conversion -/

/-- Source: `convert.rs:88–90`. -/
def convertCacheControl (ctrl : CacheControl) : AnthropicCacheControl :=
  ⟨"ephemeral", some ctrl.ttl.wire⟩

/-- The marker for a block that stands for several parts: the last one among them. -/
def lastMarker (parts : List ContentPart) : Option AnthropicCacheControl :=
  (parts.reverse.findSome? ContentPart.cacheControl).map convertCacheControl

/-- The text parts of a system message, joined. Source: `convert.rs:58–65`. -/
def systemText (parts : List ContentPart) : String :=
  String.intercalate "\n\n" (parts.filterMap fun
    | .text text _ => some text
    | _ => none)

/-- One pass of the loop over the messages. Source: `convert.rs:54–77`. -/
def systemBlock : Message → Option AnthropicSystemBlock
  | .system content =>
      if (systemText content).isEmpty then none
      else some ⟨systemText content, lastMarker content⟩
  | _ => none

/-- Source: `convert.rs:52–84`. -/
def extractSystemBlocks (messages : List Message) : Option (List AnthropicSystemBlock) :=
  let blocks := messages.filterMap systemBlock
  if blocks.isEmpty then none else some blocks

/-- Source: `convert.rs:159–184`. -/
def convertUserContent (parts : List ContentPart) : List AnthropicContentBlock :=
  parts.map fun
    | .text text _ => .text text none
    | .json value _ => .text value.render none
    | .imageUrl url mimeType _ => .image ⟨"url", url, mimeType⟩

/-- Source: `convert.rs:190–212`. -/
def convertToolResultContent (parts : List ContentPart) : List AnthropicToolResultContent :=
  parts.map fun
    | .text text _ => .text text
    | .json value _ => .text value.render
    | .imageUrl url mimeType _ => .image ⟨"url", url, mimeType⟩

/-- An image is not sent, but a text that stands for it. Source: `convert.rs:218–240`. -/
def convertAssistantContent (parts : List ContentPart) : List AnthropicContentBlock :=
  parts.map fun
    | .text text _ => .text text none
    | .json value _ => .text value.render none
    | .imageUrl _ _ _ => .text "[image]" none

/-- A system message is a panic of the source, which its callers exclude.
Source: `convert.rs:107–156`. -/
def convertSingleMessage : (message : Message) → message.isSystem = false → AnthropicMessage
  | .user content, _ => ⟨"user", convertUserContent content⟩
  | .assistant content toolCalls, _ =>
      ⟨"assistant", convertAssistantContent content ++
        toolCalls.map fun call => .toolUse call.id call.name call.arguments⟩
  | .tool toolCallId _ content, _ =>
      ⟨"user", [.toolResult toolCallId (convertToolResultContent content) (lastMarker content)]⟩

/-- Source: `convert.rs:93–99`. -/
def convertMessages (messages : List Message) : List AnthropicMessage :=
  (messages.filter fun m => !m.isSystem).pmap convertSingleMessage fun m hmem => by
    simpa using (List.mem_filter.mp hmem).2

/-- Source: `convert.rs:243–250`. -/
def convertToolSpec (spec : ToolSpec) : AnthropicToolDef :=
  ⟨spec.name, spec.description, spec.parametersSchema, spec.cacheControl.map convertCacheControl⟩

/-- Source: `convert.rs:255–266`. -/
def convertToolChoice (choice : ToolChoice) (hasTools : Bool) : Option Value :=
  if hasTools then
    match choice with
    | .auto => some (.object [("type", .string "auto")])
    | .none => none
    | .required => some (.object [("type", .string "any")])
    | .tool name => some (.object [("type", .string "tool"), ("name", .string name)])
  else none

/-- Source: `convert.rs:29–45`. -/
def toAnthropicRequest (request : ChatRequest) (stream : Bool) : AnthropicRequest where
  model := request.model
  system := extractSystemBlocks request.messages
  messages := convertMessages request.messages
  tools := request.tools.map convertToolSpec
  toolChoice := convertToolChoice request.toolChoice (!request.tools.isEmpty)
  stream := stream

/-! ### An assistant message and its blocks -/

/-- What one block adds does not depend on the blocks before it. -/
theorem foldl_parseContentBlock_acc (blocks : List AnthropicContentBlock)
    (acc : List ContentPart × List ToolCall) :
    blocks.foldl parseContentBlock acc =
      (acc.1 ++ (parseContentBlocks blocks).1, acc.2 ++ (parseContentBlocks blocks).2) := by
  induction blocks generalizing acc with
  | nil => simp [parseContentBlocks]
  | cons block rest ih =>
    rw [parseContentBlocks, List.foldl_cons, List.foldl_cons, ih, ih (parseContentBlock _ _)]
    cases block <;> simp [parseContentBlock]

theorem parseContentBlocks_append (front back : List AnthropicContentBlock) :
    parseContentBlocks (front ++ back) =
      ((parseContentBlocks front).1 ++ (parseContentBlocks back).1,
        (parseContentBlocks front).2 ++ (parseContentBlocks back).2) := by
  rw [parseContentBlocks, List.foldl_append, ← parseContentBlocks, foldl_parseContentBlock_acc]

/-- The blocks of text parts hold these texts and no call. -/
theorem parseContentBlocks_texts (texts : List (String × Option CacheControl)) :
    parseContentBlocks (convertAssistantContent (texts.map fun t => .text t.1 t.2)) =
      (texts.map fun t => .ofText t.1, []) := by
  induction texts with
  | nil => rfl
  | cons t rest ih =>
    simp only [convertAssistantContent, List.map_cons, List.map_map] at ih ⊢
    rw [← List.singleton_append, parseContentBlocks_append, ih]
    rfl

/-- The blocks of tool calls hold these calls and no text. -/
theorem parseContentBlocks_toolUses (calls : List ToolCall) :
    parseContentBlocks (calls.map fun call => .toolUse call.id call.name call.arguments) =
      ([], calls) := by
  induction calls with
  | nil => rfl
  | cons call rest ih =>
    rw [List.map_cons, ← List.singleton_append, parseContentBlocks_append, ih]
    rfl

/-- The texts of a response, sent again. -/
theorem convertAssistantContent_parsed (blocks : List AnthropicContentBlock) :
    convertAssistantContent (parseContentBlocks blocks).1 =
      (blocks.filter (·.isText)).map (·.unmarked) := by
  induction blocks with
  | nil => rfl
  | cons block rest ih =>
    rw [← List.singleton_append, parseContentBlocks_append, List.filter_append, List.map_append,
      ← ih]
    cases block <;>
      simp [parseContentBlocks, parseContentBlock, convertAssistantContent, ContentPart.ofText,
        AnthropicContentBlock.isText, AnthropicContentBlock.unmarked]

/-- The calls of a response, sent again. -/
theorem toolUses_parsed (blocks : List AnthropicContentBlock) :
    (parseContentBlocks blocks).2.map (fun call =>
        AnthropicContentBlock.toolUse call.id call.name call.arguments) =
      blocks.filter (·.isToolUse) := by
  induction blocks with
  | nil => rfl
  | cons block rest ih =>
    rw [← List.singleton_append, parseContentBlocks_append, List.filter_append, List.map_append,
      ih]
    cases block <;> rfl

theorem convertSingleMessage_assistant (content : List ContentPart) (calls : List ToolCall) :
    (convertSingleMessage (.assistant content calls) rfl).content =
      convertAssistantContent content ++
        calls.map fun call => .toolUse call.id call.name call.arguments :=
  rfl

/-- An assistant message of texts and calls is read back from its blocks. The blocks of a response
come back with the texts first and the calls after them, each in their order. -/
theorem assistant_roundTrip :
    (∀ (texts : List (String × Option CacheControl)) (calls : List ToolCall),
      parseContentBlocks
          (convertSingleMessage (.assistant (texts.map fun t => .text t.1 t.2) calls) rfl).content =
        (texts.map fun t => .text t.1 none, calls)) ∧
    ∀ blocks : List AnthropicContentBlock,
      (convertSingleMessage
          (.assistant (parseContentBlocks blocks).1 (parseContentBlocks blocks).2) rfl).content =
        (blocks.filter (·.isText)).map (·.unmarked) ++ blocks.filter (·.isToolUse) := by
  constructor
  · intro texts calls
    rw [convertSingleMessage_assistant, parseContentBlocks_append, parseContentBlocks_texts,
      parseContentBlocks_toolUses, List.append_nil, List.nil_append]
    rfl
  · intro blocks
    rw [convertSingleMessage_assistant, convertAssistantContent_parsed, toolUses_parsed]

end Anthropic

end Behest
