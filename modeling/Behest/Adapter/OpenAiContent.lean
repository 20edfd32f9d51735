import Behest.Adapter.OpenAi

/-!
# Content parts to the chat completions API and back

The parts of a message are sent as one text or as a list of typed items
(`behest-adapter-openai/src/convert.rs`). A JSON part is sent as it stands, and what it is read
back as depends on the type that its value names.
-/

namespace Behest

/-- A part without its marker and its media type. -/
def ContentPart.bare : ContentPart → ContentPart
  | .text t _ => .text t none
  | .json v _ => .json v none
  | .imageUrl url _ _ => .imageUrl url none none

namespace OpenAi

/-- The item of a part. Source: `convert.rs:106–117`. -/
def serializePart : ContentPart → Value
  | .text text _ => .object [("type", .string "text"), ("text", .string text)]
  | .json value _ => value
  | .imageUrl url _ _ =>
      .object [("type", .string "image_url"), ("image_url", .object [("url", .string url)])]

/-- Source: `convert.rs:96–120`. -/
def serializeContent : List ContentPart → Value
  | [.text text _] => .string text
  | parts => .array (parts.map serializePart)

/-- The value names a type, which is neither of those that stand for other parts. -/
def NamesOtherType (value : Value) : Prop :=
  ∃ kind, (value.field "type").bind Value.asStr = some kind ∧ kind ≠ "text" ∧ kind ≠ "image_url"

/-- Only a value that names another type is read as a JSON part. -/
theorem parseContentItem_eq_json_iff (value : Value) :
    parseContentItem value = some (.json value none) ↔ NamesOtherType value := by
  unfold parseContentItem NamesOtherType
  cases hfield : value.field "type" with
  | none => simp
  | some tag =>
    cases hkind : tag.asStr with
    | none => simp [hkind]
    | some kind =>
      by_cases htext : kind = "text"
      · subst htext
        simp [hkind, ContentPart.ofText, Option.bind_eq_some_iff]
      · by_cases himage : kind = "image_url"
        · subst himage
          simp [hkind, Option.bind_eq_some_iff]
        · simp [hkind, htext, himage]

/-- The part is a text, an image, or a JSON value that names another type. -/
def Distinguished : ContentPart → Prop
  | .json value _ => NamesOtherType value
  | _ => True

theorem parseContentItem_serializePart_iff (part : ContentPart) :
    parseContentItem (serializePart part) = some part.bare ↔ Distinguished part := by
  cases part with
  | text text ctrl => exact iff_of_true rfl trivial
  | json value ctrl => exact parseContentItem_eq_json_iff value
  | imageUrl url mimeType ctrl => exact iff_of_true rfl trivial

/-- The short form of a single text part is read back as the item of the part is. -/
theorem parseContentValue_serializeContent (parts : List ContentPart) :
    parseContentValue (some (serializeContent parts)) =
      (parts.map serializePart).filterMap parseContentItem := by
  unfold serializeContent
  split
  · rfl
  · rfl

/-- Parts are returned as they were sent exactly when every JSON part among them is an object
that names a type, neither of a text nor of an image. -/
theorem parts_returned_iff (parts : List ContentPart) :
    parseContentValue (some (serializeContent parts)) = parts.map .bare ↔
      ∀ value ctrl, .json value ctrl ∈ parts → NamesOtherType value := by
  rw [parseContentValue_serializeContent, List.filterMap_map,
    List.filterMap_eq_map_iff_forall_eq_some]
  simp only [Function.comp_apply, parseContentItem_serializePart_iff]
  constructor
  · intro h value ctrl hmem
    exact h _ hmem
  · intro h part hmem
    cases part with
    | text => trivial
    | json value ctrl => exact h value ctrl hmem
    | imageUrl => trivial

/-- An object without a type, for one. -/
def untypedPart : ContentPart := .json (.object [("a", .number "1")]) none

/-- A JSON value without a type is dropped. -/
theorem untypedPart_lost :
    parseContentValue (some (serializeContent [untypedPart])) = [] ∧
      parseContentValue (some (serializeContent [untypedPart])) ≠ [untypedPart].map .bare :=
  ⟨rfl, List.cons_ne_nil _ _ ∘ Eq.symm⟩

end OpenAi

end Behest
