import Behest.Json.Text
import Behest.Tool.Audit

/-!
# The texts of failed calls

The message of a failed call is put together as `{"error":"..."}` around the text of the error as
it stands (`behest-runtime/src/tool_runtime.rs:220–317`). For which errors it is the JSON object
it looks like.
-/

namespace Behest

open Effect

/-- All characters of a text stand for themselves in a JSON string. -/
def IsPlainText (text : String) : Prop := ∀ c ∈ text.toList, IsPlain c

instance (text : String) : Decidable (IsPlainText text) :=
  List.decidableBAll IsPlain text.toList

theorem isPlainText_append {a b : String} :
    IsPlainText (a ++ b) ↔ IsPlainText a ∧ IsPlainText b := by
  simp only [IsPlainText, String.toList_append, List.forall_mem_append]

/-! ### Durations -/

theorem isPlain_of_isDigit {c : Char} (h : c.isDigit = true) : IsPlain c := by
  have hrange : 48 ≤ c.toNat ∧ c.toNat ≤ 57 := by
    simpa [Char.isDigit, UInt32.le_iff_toNat_le] using h
  refine ⟨?_, ?_, by omega⟩
  · rintro rfl
    simp at hrange
  · rintro rfl
    simp at hrange

theorem isPlainText_toString (n : Nat) : IsPlainText (toString n) := by
  intro c hc
  have hdigits : (toString n).toList = Nat.toDigits 10 n := Nat.toList_repr
  rw [hdigits] at hc
  exact isPlain_of_isDigit (Nat.isDigit_of_mem_toDigits (by omega) (by omega) hc)

theorem isPlain_fractionDigits {width fraction : Nat} {c : Char}
    (h : c ∈ Duration.fractionDigits width fraction) : IsPlain c := by
  unfold Duration.fractionDigits at h
  rw [List.mem_reverse] at h
  obtain ⟨i, -, rfl⟩ := List.mem_map.mp (List.mem_reverse.mp ((List.dropWhile_sublist _).subset h))
  have hdigit : ∀ k < 10, IsPlain (Char.ofNat (48 + k)) := by decide
  exact hdigit _ (Nat.mod_lt _ (by omega))

theorem isPlainText_decimal (width whole fraction : Nat) :
    IsPlainText (Duration.decimal width whole fraction) := by
  unfold Duration.decimal
  dsimp only
  split
  · exact isPlainText_toString whole
  · refine isPlainText_append.mpr ⟨isPlainText_append.mpr ⟨isPlainText_toString whole, by decide⟩,
      ?_⟩
    intro c hc
    rw [String.toList_ofList] at hc
    exact isPlain_fractionDigits hc

theorem isPlainText_debug (d : Duration) : IsPlainText d.debug := by
  unfold Duration.debug
  repeat' split
  · exact isPlainText_append.mpr ⟨isPlainText_decimal _ _ _, by decide⟩
  · exact isPlainText_append.mpr ⟨isPlainText_decimal _ _ _, by decide⟩
  · exact isPlainText_append.mpr ⟨isPlainText_decimal _ _ _, by decide⟩
  · exact isPlainText_append.mpr ⟨isPlainText_toString _, by decide⟩

/-! ### Errors -/

/-- What an error is made of. -/
def ToolError.texts : ToolError → List String
  | notFound name | notImplemented name => [name]
  | execution name message | invalidArguments name message => [name, message]

theorem isPlainText_display (e : ToolError) :
    IsPlainText e.display ↔ ∀ text ∈ e.texts, IsPlainText text := by
  have htool : IsPlainText "tool `" := by decide
  have hmissing : IsPlainText "` is not registered" := by decide
  have hfailed : IsPlainText "` failed: " := by decide
  have hinvalid : IsPlainText "` received invalid arguments: " := by decide
  have hunimplemented : IsPlainText "` is not implemented" := by decide
  cases e <;> simp [ToolError.display, ToolError.texts, isPlainText_append, *]

namespace ToolRuntime

variable (host : Host) (rt : ToolRuntime)

/-- What becomes of a call that is made in a world. -/
def replyAt (w : World) (call : ToolCall) : Reply :=
  match rt.registry.get call.name with
  | none => .rejected (.notFound call.name) ("tool not found: " ++ call.name)
  | some tool =>
      match validateArguments host tool.spec.parametersSchema call.arguments with
      | some message => .rejected (.invalidArguments call.name message) message
      | none => .answered (tool.execute w call.arguments)

/-- The text of the error that a call ends in. -/
def errorText : Reply → Option String
  | .rejected _ text => some text
  | .answered (.finished _) => none
  | .answered (.errored e) => some e.display
  | .answered .elapsed => some ("tool execution timeout after " ++ rt.policy.toolTimeout.debug)

/-- The texts that a failed call puts into its error: the name of an unknown tool, the message of
the validator, or name and message of the tool's error. -/
def failureTexts (w : World) (call : ToolCall) : List String :=
  match rt.registry.get call.name with
  | none => [call.name]
  | some tool =>
      match validateArguments host tool.spec.parametersSchema call.arguments with
      | some message => [message]
      | none =>
          match tool.execute w call.arguments with
          | .errored e => e.texts
          | .finished _ | .elapsed => []

/-- The message of a failed outcome is an object with the text of the error under `error`. -/
def ErrorIsJson (w : World) (call : ToolCall) : Prop :=
  ∀ outcome e, rt.resultOf call (rt.replyAt host w call) = .ok outcome → outcome.output = .error e →
    ∃ error text, rt.errorText (rt.replyAt host w call) = some error ∧
      outcome.message = .toolText call.id call.name text ∧
      (Value.object [("error", .string error)]).IsReadFrom text

variable {host rt}

/-- A call that returns has become what the world makes of it. -/
theorem wp_reach {E : Stop → World → Prop} [Tolerant E] (call : ToolCall) (w : World) :
    wp (rt.reach host call) (fun reply _ => reply = rt.replyAt host w call) E w := by
  unfold reach replyAt
  cases rt.registry.get call.name with
  | none => rfl
  | some tool =>
    dsimp only
    cases validateArguments host tool.spec.parametersSchema call.arguments with
    | some message => rfl
    | none =>
      simp only [wp_bind, wp_get]
      exact wp_perform rfl

/-- The message of a failed outcome. -/
theorem message_of_failed {call : ToolCall} {reply : Reply} {outcome : ToolExecutionOutcome}
    {e : ToolError} (h : rt.resultOf call reply = .ok outcome) (he : outcome.output = .error e) :
    rt.policy.continueOnToolFailure = true ∧ ∃ error, rt.errorText reply = some error ∧
      outcome.message = .toolText call.id call.name ("\x7b\"error\":\"" ++ error ++ "\"\x7d") := by
  have hfailed : ∀ {e : ToolError} {text : String} {thrown : RuntimeError},
      rt.failedOutcome call e text thrown = .ok outcome →
        rt.policy.continueOnToolFailure = true ∧ outcome = .failed call e text := by
    intro e text thrown h
    unfold failedOutcome at h
    split at h
    · next hcontinue => exact ⟨hcontinue, (Except.ok.inj h).symm⟩
    · cases h
  cases reply with
  | rejected e text =>
    obtain ⟨hcontinue, rfl⟩ := hfailed h
    exact ⟨hcontinue, text, rfl, rfl⟩
  | answered answer =>
    cases answer with
    | finished value =>
      cases h
      cases he
    | errored e =>
      obtain ⟨hcontinue, rfl⟩ := hfailed h
      exact ⟨hcontinue, _, rfl, rfl⟩
    | elapsed =>
      obtain ⟨hcontinue, rfl⟩ := hfailed h
      exact ⟨hcontinue, _, rfl, rfl⟩

/-- An error becomes an outcome when the policy goes on after failures. -/
theorem exists_failed {call : ToolCall} {reply : Reply} {error : String}
    (h : rt.errorText reply = some error) (hcontinue : rt.policy.continueOnToolFailure = true) :
    ∃ outcome e, rt.resultOf call reply = .ok outcome ∧ outcome.output = .error e := by
  have hfailed : ∀ (e : ToolError) (text : String) (thrown : RuntimeError),
      rt.failedOutcome call e text thrown = .ok (.failed call e text) := by
    intro e text thrown
    rw [failedOutcome, if_pos hcontinue]
  cases reply with
  | rejected e text => exact ⟨_, e, hfailed .., rfl⟩
  | answered answer =>
    cases answer with
    | finished value => cases h
    | errored e => exact ⟨_, e, hfailed .., rfl⟩
    | elapsed => exact ⟨_, _, hfailed .., rfl⟩

/-- The text of an error is plain when what it is made of is. -/
theorem isPlainText_errorText_iff (w : World) (call : ToolCall) :
    (∀ error, rt.errorText (rt.replyAt host w call) = some error → IsPlainText error) ↔
      ∀ text ∈ rt.failureTexts host w call, IsPlainText text := by
  have hmissing : IsPlainText "tool not found: " := by decide
  have htimeout : IsPlainText "tool execution timeout after " := by decide
  unfold replyAt failureTexts
  cases rt.registry.get call.name with
  | none => simp [errorText, isPlainText_append, hmissing]
  | some tool =>
    dsimp only
    cases validateArguments host tool.spec.parametersSchema call.arguments with
    | some message => simp [errorText]
    | none =>
      dsimp only
      cases tool.execute w call.arguments with
      | finished value => simp [errorText]
      | errored e => simp [errorText, isPlainText_display]
      | elapsed => simp [errorText, isPlainText_append, htimeout, isPlainText_debug]

/-- The object of an error is read from its text exactly when the error is plain. -/
theorem isReadFrom_error_iff (error : String) :
    (Value.object [("error", .string error)]).IsReadFrom
      ("\x7b\"error\":\"" ++ error ++ "\"\x7d") ↔ IsPlainText error := by
  have hfront : "\x7b\"error\":\"" = "\x7b\"" ++ "error" ++ "\":\"" := rfl
  rw [hfront]
  exact isReadFrom_unescaped_iff "error" error (show IsPlainText "error" by decide)

theorem errorIsJson_iff_plain (w : World) (call : ToolCall) : rt.ErrorIsJson host w call ↔
    (rt.policy.continueOnToolFailure = true →
      ∀ text ∈ rt.failureTexts host w call, IsPlainText text) := by
  constructor
  · intro h hcontinue
    refine (isPlainText_errorText_iff w call).mp fun error herror => ?_
    obtain ⟨outcome, e, hresult, houtput⟩ := exists_failed herror hcontinue
    obtain ⟨error', text, herror', hmessage, hread⟩ := h outcome e hresult houtput
    obtain ⟨-, shown, hshown, hmessage'⟩ := message_of_failed hresult houtput
    obtain rfl := Option.some.inj (herror.symm.trans herror')
    obtain rfl := Option.some.inj (herror.symm.trans hshown)
    have htext := hmessage.symm.trans hmessage'
    simp only [Message.toolText, ContentPart.ofText, Message.tool.injEq, List.cons.injEq,
      ContentPart.text.injEq, and_true, true_and] at htext
    rwa [htext, isReadFrom_error_iff] at hread
  · intro h outcome e hresult houtput
    obtain ⟨hcontinue, error, herror, hmessage⟩ := message_of_failed hresult houtput
    have hplain := (isPlainText_errorText_iff w call).mpr (h hcontinue) error herror
    exact ⟨error, _, herror, hmessage, (isReadFrom_error_iff error).mpr hplain⟩

/-- **A failed call is answered with a JSON object** that holds the text of its error exactly when
all that the error is made of is plain. A call that runs into its timeout is always answered so. -/
theorem errorIsJson_iff (host : Host) (rt : ToolRuntime) (w : World) (call : ToolCall) :
    wp (rt.executeSingle host call)
        (fun result _ => result = rt.resultOf call (rt.replyAt host w call)) (fun _ _ => True) w ∧
      (rt.ErrorIsJson host w call ↔
        (rt.policy.continueOnToolFailure = true →
          ∀ text ∈ rt.failureTexts host w call, IsPlainText text)) := by
  have : Tolerant fun (_ : Stop) (_ : World) => True := ⟨fun _ => trivial⟩
  refine ⟨?_, errorIsJson_iff_plain w call⟩
  rw [executeSingle_eq, wp_map]
  exact wp_mono (wp_reach (E := fun _ _ => True) call w) (fun _ _ hreply => congrArg _ hreply)
    fun _ _ _ => trivial

/-- A call of an unknown tool with a quote in its name. -/
theorem quotedName_notJson : ¬ ErrorIsJson .benign ⟨⟨[]⟩, {}⟩ (.ofSession 7 [])
    ⟨"call_1", "say\"hi", .null⟩ := by
  rw [errorIsJson_iff_plain]
  intro h
  have hplain := h rfl "say\"hi" List.mem_cons_self
  revert hplain
  decide

end ToolRuntime

end Behest
