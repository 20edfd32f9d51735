import Mathlib.Data.List.Forall2
import Behest.Adapter.AnthropicRequest
import Behest.Context.Pipeline

/-!
# Cache markers on the wire

A request of the runtime marks parts of its messages and tools; a request of the messages API
marks blocks. Blocks that stand for a whole system message or tool result take over the last
marker among its parts, blocks of user and assistant messages take over none.
-/

namespace Behest

/-- The marker on the last part. -/
def endMarker (parts : List ContentPart) : Option CacheControl :=
  parts.getLast?.bind ContentPart.cacheControl

namespace Anthropic

/-- The blocks of some parts carry the marker at the end of the parts, and no marker that none of
the parts has. -/
structure CarriesMarkers (parts : List ContentPart) (blocks : List (Option AnthropicCacheControl)) :
    Prop where
  reaches : ∀ ctrl, endMarker parts = some ctrl → some (convertCacheControl ctrl) ∈ blocks
  sourced : ∀ marker, some marker ∈ blocks →
    ∃ part ∈ parts, ∃ ctrl, part.cacheControl = some ctrl ∧ convertCacheControl ctrl = marker

/-- A system message is sent when it has a text. -/
def isSentSystem : Message → Bool
  | .system content => !(systemText content).isEmpty
  | _ => false

/-- Markers arrive: the blocks of a request stand for its system messages with a text, for its
other messages and for its tools, one by one, and each carries the markers of what it stands
for. -/
structure MarkersArrive (request : ChatRequest) (wire : AnthropicRequest) : Prop where
  system : List.Forall₂ (fun m block => CarriesMarkers m.content [block.cacheControl])
    (request.messages.filter isSentSystem) (wire.system.getD [])
  messages : List.Forall₂
    (fun m sent => CarriesMarkers m.content (sent.content.map (·.cacheControl)))
    (request.messages.filter fun m => !m.isSystem) wire.messages
  tools : List.Forall₂ (fun spec tool =>
    tool.cacheControl = spec.cacheControl.map convertCacheControl) request.tools wire.tools

/-! ### One message -/

/-- A block for all parts carries the last of their markers. -/
theorem carriesMarkers_lastMarker (parts : List ContentPart) :
    CarriesMarkers parts [lastMarker parts] := by
  constructor
  · intro ctrl h
    obtain ⟨part, hlast, hpart⟩ := Option.bind_eq_some_iff.mp h
    have hsplit := List.dropLast_append_getLast? part hlast
    rw [List.mem_singleton, lastMarker, ← hsplit, List.reverse_append, List.reverse_singleton,
      List.singleton_append, List.findSome?_cons, hpart]
    rfl
  · intro marker h
    obtain ⟨ctrl, hfound, rfl⟩ := Option.map_eq_some_iff.mp (List.mem_singleton.mp h).symm
    obtain ⟨part, hmem, hpart⟩ := List.exists_of_findSome?_eq_some hfound
    exact ⟨part, List.mem_reverse.mp hmem, ctrl, hpart, rfl⟩

/-- Blocks without markers stand for parts without a marker at their end. -/
theorem carriesMarkers_iff_of_unmarked {parts : List ContentPart}
    {blocks : List AnthropicContentBlock} (h : ∀ block ∈ blocks, block.cacheControl = none) :
    CarriesMarkers parts (blocks.map (·.cacheControl)) ↔ endMarker parts = none := by
  have hnone : ∀ marker, some marker ∉ blocks.map (·.cacheControl) := by
    intro marker hmem
    obtain ⟨block, hblock, heq⟩ := List.mem_map.mp hmem
    rw [h block hblock] at heq
    cases heq
  constructor
  · intro hcarries
    rw [Option.eq_none_iff_forall_ne_some]
    intro ctrl hend
    exact hnone _ (hcarries.reaches ctrl hend)
  · intro hend
    exact ⟨fun ctrl h => absurd (hend.symm.trans h) nofun, fun marker hmem => absurd hmem (hnone _)⟩

theorem unmarked_convertUserContent (parts : List ContentPart) :
    ∀ block ∈ convertUserContent parts, block.cacheControl = none := by
  intro block hmem
  obtain ⟨part, -, rfl⟩ := List.mem_map.mp hmem
  cases part <;> rfl

theorem unmarked_convertAssistantContent (parts : List ContentPart) :
    ∀ block ∈ convertAssistantContent parts, block.cacheControl = none := by
  intro block hmem
  obtain ⟨part, -, rfl⟩ := List.mem_map.mp hmem
  cases part <;> rfl

/-- Only tool messages carry markers over. -/
theorem carriesMarkers_convertSingleMessage_iff (m : Message) (h : m.isSystem = false) :
    CarriesMarkers m.content ((convertSingleMessage m h).content.map (·.cacheControl)) ↔
      (m.isUser ∨ m.isAssistant → endMarker m.content = none) := by
  cases m with
  | system content => cases h
  | user content =>
    rw [convertSingleMessage, carriesMarkers_iff_of_unmarked (unmarked_convertUserContent content)]
    simp [Message.isUser, Message.content]
  | assistant content calls =>
    have hunmarked : ∀ block ∈ (convertSingleMessage (.assistant content calls) h).content,
        block.cacheControl = none := by
      intro block hmem
      rcases List.mem_append.mp hmem with hmem | hmem
      · exact unmarked_convertAssistantContent content block hmem
      · obtain ⟨call, -, rfl⟩ := List.mem_map.mp hmem
        rfl
    rw [carriesMarkers_iff_of_unmarked hunmarked]
    simp [Message.isAssistant, Message.content]
  | tool toolCallId name content =>
    exact iff_of_true (carriesMarkers_lastMarker content) nofun

theorem not_isSystem_of_role {m : Message} (h : m.isUser ∨ m.isAssistant) :
    (!m.isSystem) = true := by
  cases m with
  | system content => exact absurd h (by simp [Message.isUser, Message.isAssistant])
  | _ => rfl

/-! ### A request -/

/-- Elements and the images of those that pass, side by side. -/
theorem forall₂_filter_filterMap {α β : Type} {R : α → β → Prop} {p : α → Bool} {f : α → Option β}
    (hpass : ∀ a, p a = true → ∃ b, f a = some b ∧ R a b) (hskip : ∀ a, p a = false → f a = none)
    (l : List α) : List.Forall₂ R (l.filter p) (l.filterMap f) := by
  induction l with
  | nil => exact .nil
  | cons a rest ih =>
    cases ha : p a with
    | false => simpa [ha, hskip a ha] using ih
    | true =>
      obtain ⟨b, hb, hR⟩ := hpass a ha
      simpa [ha, hb] using ⟨hR, ih⟩

theorem forall₂_pmap_iff {α β : Type} {R : α → β → Prop} {p : α → Prop} {f : (a : α) → p a → β}
    {l : List α} (H : ∀ a ∈ l, p a) :
    List.Forall₂ R l (l.pmap f H) ↔ ∀ a (h : a ∈ l), R a (f a (H a h)) := by
  induction l with
  | nil => simp
  | cons a rest ih =>
    rw [List.pmap_cons, List.forall₂_cons, ih]
    constructor
    · rintro ⟨ha, hrest⟩ b hb
      rcases List.mem_cons.mp hb with rfl | hb
      · exact ha
      · exact hrest b hb
    · intro h
      exact ⟨h a (.head _), fun b hb => h b (.tail _ hb)⟩

theorem extractSystemBlocks_getD (messages : List Message) :
    (extractSystemBlocks messages).getD [] = messages.filterMap systemBlock := by
  unfold extractSystemBlocks
  cases messages.filterMap systemBlock <;> rfl

/-- The markers of system messages arrive. -/
theorem system_markers_arrive (messages : List Message) :
    List.Forall₂ (fun m block => CarriesMarkers m.content [block.cacheControl])
      (messages.filter isSentSystem) ((extractSystemBlocks messages).getD []) := by
  rw [extractSystemBlocks_getD]
  refine forall₂_filter_filterMap ?_ ?_ messages
  · intro m h
    cases m with
    | system content =>
      have htext : (systemText content).isEmpty = false := by simpa [isSentSystem] using h
      refine ⟨⟨systemText content, lastMarker content⟩, ?_, carriesMarkers_lastMarker content⟩
      rw [systemBlock, htext]
      rfl
    | _ => cases h
  · intro m h
    cases m with
    | system content =>
      have htext : (systemText content).isEmpty = true := by simpa [isSentSystem] using h
      simp only [systemBlock, htext, if_true]
    | _ => rfl

/-- The markers of a request arrive exactly when no user or assistant message of it is marked at
its end. -/
theorem markersArrive_iff (request : ChatRequest) (stream : Bool) :
    MarkersArrive request (toAnthropicRequest request stream) ↔
      ∀ m ∈ request.messages, m.isUser ∨ m.isAssistant → endMarker m.content = none := by
  have hmessages : List.Forall₂
      (fun m sent => CarriesMarkers m.content (sent.content.map (·.cacheControl)))
      (request.messages.filter fun m => !m.isSystem) (convertMessages request.messages) ↔
        ∀ m ∈ request.messages, m.isUser ∨ m.isAssistant → endMarker m.content = none := by
    rw [convertMessages, forall₂_pmap_iff]
    simp only [carriesMarkers_convertSingleMessage_iff, List.mem_filter]
    constructor
    · intro h m hmem hrole
      exact h m ⟨hmem, not_isSystem_of_role hrole⟩ hrole
    · intro h m hmem
      exact h m hmem.1
  constructor
  · intro h
    exact hmessages.mp h.messages
  · intro h
    refine ⟨system_markers_arrive request.messages, hmessages.mpr h, ?_⟩
    rw [toAnthropicRequest, List.forall₂_map_right_iff, List.forall₂_same]
    intro spec _
    rfl

/-- The request for an answer of the assistant followed by the user. -/
def tailRequest : ChatRequest :=
  Context.ContextPipeline.new.assemble "model" [.assistantText "hi"] [] (some "go") none

/-- The pipeline marks the answer, and its block carries no marker. -/
theorem tailRequest_loses_marker :
    ¬ MarkersArrive tailRequest (toAnthropicRequest tailRequest false) := by
  intro h
  obtain ⟨hfirst, -⟩ := List.forall₂_cons.mp h.messages
  have hmarker := hfirst.reaches ⟨.ephemeral, .fiveMinutes⟩ rfl
  cases List.mem_singleton.mp hmarker

end Anthropic

end Behest
