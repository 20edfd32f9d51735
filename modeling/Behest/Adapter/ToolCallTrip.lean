import Behest.Adapter.OpenAi
import Behest.Json.Text

/-!
# Tool calls to the chat completions API and back

A call of an assistant message is sent with its arguments as JSON text inside a string
(`behest-adapter-openai/src/convert.rs`); arguments that are a string themselves are sent as they
stand, and are another value, or none, when they are read back.
-/

namespace Behest

namespace OpenAi

/-- Source: `convert.rs:135–149`. -/
def convertToolCall (call : ToolCall) : OpenAiToolCall where
  id := some call.id
  index := none
  function := ⟨some call.name, some (call.arguments.asStr.getD call.arguments.render)⟩

/-- A string is shorter than the texts that it is read from, which have quotes. -/
theorem length_lt_of_isReadFrom {s text : String} (h : (Value.string s).IsReadFrom text) :
    s.length < text.length := by
  unfold Value.IsReadFrom at h
  generalize htext : text.toList = chars at h
  cases h with
  | @item front chars back _ _ _ hvalue =>
    cases hvalue with
    | @string body content hbody =>
      have hlength := congrArg List.length htext
      have hshort := hbody.length.1
      simp only [List.length_append, List.length_cons, List.length_nil, String.length_toList]
        at hlength
      rw [String.length_ofList]
      omega

variable (parseJson : String → Option Value)

/-- The arguments of a call that was sent, as they are read back. -/
def returnedArguments (call : ToolCall) : Value :=
  (parseJson (call.arguments.asStr.getD call.arguments.render)).getD .null

theorem convertResponseToolCalls_map (calls : List ToolCall) :
    convertResponseToolCalls parseJson (calls.map convertToolCall) =
      calls.map fun call => ⟨call.id, call.name, returnedArguments parseJson call⟩ := by
  rw [convertResponseToolCalls, List.filterMap_map, ← List.filterMap_eq_map]
  rfl

variable {parseJson}

/-- Arguments that are no string come back, and a string never does. -/
theorem returnedArguments_eq_iff {call : ToolCall}
    (hround : parseJson call.arguments.render = some call.arguments)
    (hstring : ∀ text s, parseJson text = some (.string s) → (Value.string s).IsReadFrom text) :
    returnedArguments parseJson call = call.arguments ↔ ∀ s, call.arguments ≠ .string s := by
  rw [returnedArguments]
  constructor
  · intro h s hs
    rw [hs] at h
    change (parseJson s).getD .null = .string s at h
    cases hparse : parseJson s with
    | none =>
      rw [hparse] at h
      cases h
    | some v =>
      rw [hparse, Option.getD_some] at h
      exact absurd (length_lt_of_isReadFrom (hstring s s (h ▸ hparse))) (Nat.lt_irrefl _)
  · intro h
    have hnone : call.arguments.asStr = none := by
      cases hargs : call.arguments with
      | string s => exact absurd hargs (h s)
      | _ => rfl
    rw [hnone, Option.getD_none, hround, Option.getD_some]

/-- Calls come back as they were sent exactly when none of them has a string for its arguments. -/
theorem toolCalls_return_iff (calls : List ToolCall)
    (hround : ∀ call ∈ calls, parseJson call.arguments.render = some call.arguments)
    (hstring : ∀ text s, parseJson text = some (.string s) → (Value.string s).IsReadFrom text) :
    convertResponseToolCalls parseJson (calls.map convertToolCall) = calls ↔
      ∀ call ∈ calls, ∀ s, call.arguments ≠ .string s := by
  rw [convertResponseToolCalls_map]
  have hpoint : ∀ call ∈ calls,
      (⟨call.id, call.name, returnedArguments parseJson call⟩ : ToolCall) = call ↔
        ∀ s, call.arguments ≠ .string s := fun call hcall => by
    rw [← returnedArguments_eq_iff (hround call hcall) hstring]
    exact ⟨fun h => congrArg ToolCall.arguments h, fun h => by rw [h]⟩
  constructor
  · intro h call hcall
    have hsame := List.map_inj_left.mp (h.trans (List.map_id' calls).symm) call hcall
    exact (hpoint call hcall).mp hsame
  · intro h
    have hsame := List.map_congr_left fun call hcall => (hpoint call hcall).mpr (h call hcall)
    exact hsame.trans (List.map_id' calls)

/-- A call without arguments, to a reader that knows `null`. -/
theorem emptyCall_returns :
    convertResponseToolCalls (fun text => if text = "null" then some .null else none)
        ([(⟨"1", "echo", .null⟩ : ToolCall)].map convertToolCall) = [⟨"1", "echo", .null⟩] := by
  refine (toolCalls_return_iff [⟨"1", "echo", .null⟩] ?_ ?_).mpr ?_
  · intro call hcall
    cases List.mem_singleton.mp hcall
    rfl
  · intro text s h
    split at h
    · cases h
    · cases h
  · intro call hcall s h
    cases List.mem_singleton.mp hcall
    cases h

/-- The string `hi` is sent without quotes. -/
theorem stringCall_lost :
    convertResponseToolCalls (fun text => if text = "\"hi\"" then some (.string "hi") else none)
        ([(⟨"1", "echo", .string "hi"⟩ : ToolCall)].map convertToolCall) ≠
      [⟨"1", "echo", .string "hi"⟩] := by
  decide

end OpenAi

end Behest
