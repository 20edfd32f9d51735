import Behest.Adapter.CacheMarkers
import Behest.Adapter.OpenAiContent
import Behest.Adapter.ToolCallTrip
import Behest.Context.Markers

/-!
# Requests to the OpenAI adapter

How a request is sent to the chat completions API (`behest-adapter-openai/src/convert.rs`): every
message becomes one message of the wire. Cache markers are left behind here, and the messages API
gets them beside what it is sent; so two requests that differ in their markers are sent alike.
-/

namespace Behest

/-! ### Wire types -/

/-- A message as it is sent, with its role and the call it answers. Source: `types.rs:42–54`. -/
structure OpenAiSentMessage extends OpenAiMessage where
  role : String
  toolCallId : Option String

/-- Source: `types.rs:68–75`. -/
structure OpenAiFunctionDef where
  name : String
  description : String
  parameters : Value

/-- A request without the response format and the sampling, which a request of the runtime leaves
at their defaults; the type of a tool is always `function`. Source: `types.rs:10–38`. -/
structure OpenAiChatRequest where
  model : String
  messages : List OpenAiSentMessage
  tools : List OpenAiFunctionDef
  toolChoice : Option Value
  stream : Bool

namespace OpenAi

/-! ### Conversion -/

/-- Source: `convert.rs:46–90`. -/
def convertMessage : Message → OpenAiSentMessage
  | .system content => ⟨⟨some (serializeContent content), none⟩, "system", none⟩
  | .user content => ⟨⟨some (serializeContent content), none⟩, "user", none⟩
  | .assistant content toolCalls =>
      ⟨⟨some (serializeContent content),
        if toolCalls.isEmpty then none else some (toolCalls.map convertToolCall)⟩,
        "assistant", none⟩
  | .tool toolCallId _ content =>
      ⟨⟨some (serializeContent content), none⟩, "tool", some toolCallId⟩

/-- Source: `convert.rs:123–132`. -/
def convertToolSpec (spec : ToolSpec) : OpenAiFunctionDef :=
  ⟨spec.name, spec.description, spec.parametersSchema⟩

/-- A choice is always sent. Source: `convert.rs:155–163`. -/
def convertToolChoice : ToolChoice → Option Value
  | .auto => some (.string "auto")
  | .none => some (.string "none")
  | .required => some (.string "required")
  | .tool name =>
      some (.object [("type", .string "function"), ("function", .object [("name", .string name)])])

/-- Source: `convert.rs:25–41`. -/
def toOpenAiRequest (request : ChatRequest) (stream : Bool) : OpenAiChatRequest where
  model := request.model
  messages := request.messages.map convertMessage
  tools := request.tools.map convertToolSpec
  toolChoice := convertToolChoice request.toolChoice
  stream := stream

/-! ### Markers are not sent -/

theorem serializePart_bare (part : ContentPart) : serializePart part.bare = serializePart part := by
  cases part <;> rfl

theorem map_serializePart_bare (parts : List ContentPart) :
    (parts.map ContentPart.bare).map serializePart = parts.map serializePart := by
  rw [List.map_map]
  exact List.map_congr_left fun part _ => serializePart_bare part

/-- Several parts are sent as a list, whatever they are. -/
theorem serializeContent_two (part other : ContentPart) (rest : List ContentPart) :
    serializeContent (part :: other :: rest) =
      .array ((part :: other :: rest).map serializePart) := by
  cases part <;> rfl

theorem serializeContent_map_bare (parts : List ContentPart) :
    serializeContent (parts.map .bare) = serializeContent parts := by
  match parts with
  | [] => rfl
  | [.text _ _] | [.json _ _] | [.imageUrl _ _ _] => rfl
  | part :: other :: rest =>
    rw [serializeContent_two, ← map_serializePart_bare, List.map_cons, List.map_cons,
      serializeContent_two]

end OpenAi

/-- What does not look at markers is the same for parts that are marked. -/
theorem map_eq_of_markedAs {β : Type} {f : ContentPart → β}
    (hf : ∀ part ctrl, f (ContentPart.setCacheControl ctrl part) = f part)
    {parts marked : List ContentPart} (h : List.Forall₂ ContentPart.MarkedAs parts marked) :
    marked.map f = parts.map f := by
  induction h with
  | nil => rfl
  | cons hpart _ ih =>
    rw [List.map_cons, List.map_cons, ih]
    rcases hpart with rfl | ⟨-, ctrl, rfl⟩
    · rfl
    · rw [hf]

theorem filterMap_eq_of_markedAs {β : Type} {f : ContentPart → Option β}
    (hf : ∀ part ctrl, f (ContentPart.setCacheControl ctrl part) = f part)
    {parts marked : List ContentPart} (h : List.Forall₂ ContentPart.MarkedAs parts marked) :
    marked.filterMap f = parts.filterMap f := by
  have hmap := congrArg (List.filterMap id) (map_eq_of_markedAs hf h)
  rwa [List.filterMap_map, List.filterMap_map, Function.id_comp] at hmap

theorem bare_setCacheControl (part : ContentPart) (ctrl : CacheControl) :
    (part.setCacheControl ctrl).bare = part.bare := by
  cases part <;> rfl

namespace OpenAi

/-- A message is sent as it was before it got markers. -/
theorem convertMessage_of_markedAs {m marked : Message} (h : m.MarkedAs marked) :
    convertMessage marked = convertMessage m := by
  obtain ⟨content, rfl, hparts⟩ := h
  have hcontent : serializeContent content = serializeContent m.content := by
    rw [← serializeContent_map_bare, map_eq_of_markedAs bare_setCacheControl hparts,
      serializeContent_map_bare]
  cases m <;> simp only [Message.withContent, Message.content, convertMessage] at hcontent ⊢ <;>
    rw [hcontent]

/-- A request is sent as the messages it was made of. -/
theorem messages_toOpenAiRequest {messages : List Message} {request : ChatRequest}
    (h : List.Forall₂ Message.MarkedAs messages request.messages) (stream : Bool) :
    (toOpenAiRequest request stream).messages = messages.map convertMessage := by
  unfold toOpenAiRequest
  generalize request.messages = marked at h
  induction h with
  | nil => rfl
  | cons hm _ ih =>
    dsimp only at ih ⊢
    rw [List.map_cons, List.map_cons, convertMessage_of_markedAs hm, ih]

end OpenAi

end Behest
