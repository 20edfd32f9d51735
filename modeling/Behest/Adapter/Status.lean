import Behest.Runtime.RunLoop
import Behest.Text.Slice

/-!
# Errors of refused requests

The error that an adapter makes of a response's status and body
(`behest-adapter-openai/src/http.rs`, `behest-adapter-anthropic/src/http.rs`), and what is left
in it of a message that the request was too long.
-/

namespace Behest

/-- The bytes of a body that an error keeps. -/
def bodyLimit : Nat := 512

/-- Source: `openai/http.rs:99–108`, `anthropic/http.rs:82–91`. -/
def truncateBody (body : String) : String :=
  if body.utf8ByteSize ≤ bodyLimit then body
  else
    let chars := body.toList
    String.ofList (Text.sliceTo chars (Text.floorCharBoundary chars bodyLimit)) ++ "..."

/-- The error of a response, with the seconds of its `Retry-After` header. -/
def errorOfStatus (provider : String) (status : Nat) (body : String) (retryAfter : Option Nat) :
    ProviderError :=
  if status = 401 ∨ status = 403 then .authentication provider
  else if status = 400 then .badRequest provider (truncateBody body)
  else if status = 429 then .rateLimited provider retryAfter
  else if 500 ≤ status ∧ status ≤ 599 then .overloaded provider
  else .provider provider (some status) (truncateBody body)

/-- Source: `openai/http.rs:55–83`. -/
def OpenAi.statusToError := errorOfStatus

/-- Source: `anthropic/http.rs:38–66`. -/
def Anthropic.statusToError := errorOfStatus

namespace ProviderError

/-- The texts that report a request longer than the context window.
Source: `behest-core/src/error.rs:142–149`. -/
def overflowMarkers : List String :=
  ["context_length_exceeded", "maximum context length", "too many tokens", "reduce the length",
    "token limit", "prompt is too long", "input length exceeds", "context window"]

/-- The message of an error that carries what the provider said. -/
def message? : ProviderError → Option String
  | badRequest _ message | provider _ _ message => some message
  | _ => none

theorem containsText_iff (message needle : String) :
    containsText message needle = true ↔ needle.toList <:+: message.toList := by
  rw [containsText, List.any_eq_true, List.infix_iff_prefix_suffix]
  simp only [List.mem_tails, List.isPrefixOf_iff_prefix]
  exact exists_congr fun _ => and_comm

theorem isContextOverflow_iff (e : ProviderError) : e.isContextOverflow = true ↔
    ∃ message, e.message? = some message ∧
      ∃ marker ∈ overflowMarkers, marker.toList <:+: message.toList := by
  cases e <;> simp [isContextOverflow, message?, overflowMarkers, containsText_iff, or_assoc]

end ProviderError

open ProviderError

/-- The body says that the request was too long. -/
def ReportsOverflow (body : String) : Prop :=
  ∃ marker ∈ overflowMarkers, marker.toList <:+: body.toList

/-- It says so in the bytes that an error keeps. -/
def ReportsOverflowEarly (body : String) : Prop :=
  ∃ marker ∈ overflowMarkers, ∃ front, front ++ marker.toList <+: body.toList ∧
    String.utf8Len (front ++ marker.toList) ≤ bodyLimit

theorem ReportsOverflowEarly.reportsOverflow {body : String} (h : ReportsOverflowEarly body) :
    ReportsOverflow body := by
  obtain ⟨marker, hmarker, front, hfront, -⟩ := h
  exact ⟨marker, hmarker, (List.suffix_append front _).isInfix.trans hfront.isInfix⟩

/-- No marker has a dot, and none is empty: the ellipsis completes none. -/
theorem overflowMarkers_ellipsis : ∀ marker ∈ overflowMarkers,
    (∀ c ∈ "...".toList, c ∉ marker.toList) ∧ marker.toList ≠ [] := by
  have hmarkers : ∀ marker ∈ overflowMarkers, '.' ∉ marker.toList ∧ marker.toList ≠ [] := by
    decide
  intro marker hmarker
  refine ⟨fun c hc => ?_, (hmarkers marker hmarker).2⟩
  have hdots : "...".toList = List.replicate 3 '.' := rfl
  rw [hdots] at hc
  exact List.eq_of_mem_replicate hc ▸ (hmarkers marker hmarker).1

/-- What the text of an error still reports. -/
theorem reportsOverflow_truncateBody (body : String) : ReportsOverflow (truncateBody body) ↔
    if body.utf8ByteSize ≤ bodyLimit then ReportsOverflow body else ReportsOverflowEarly body := by
  unfold truncateBody
  split
  · rfl
  · rw [ReportsOverflow, ReportsOverflowEarly]
    refine exists_congr fun marker => and_congr_right fun hmarker => ?_
    obtain ⟨hdots, hne⟩ := overflowMarkers_ellipsis marker hmarker
    rw [String.toList_append, String.toList_ofList, Text.sliceTo_floorCharBoundary,
      Text.infix_append_of_disjoint hdots hne, Text.infix_sliceTo_iff]

/-- The errors of a status either all carry the body, shortened, or none does. -/
theorem message?_errorOfStatus (provider : String) (status : Nat) (body : String)
    (retryAfter : Option Nat) :
    (errorOfStatus provider status body retryAfter).message? = some (truncateBody body) ∨
      (errorOfStatus provider status body retryAfter).message? = none := by
  unfold errorOfStatus
  repeat' split
  all_goals simp [message?]

/-- Whatever request an adapter that makes such errors is refused: if the error carries what the
provider said, and it said that the request was too long, then the error tells so and the loop
compacts the history. -/
def RecognisesOverflow
    (statusToError : String → Nat → String → Option Nat → ProviderError) (body : String) : Prop :=
  ∀ provider status retryAfter,
    (statusToError provider status body retryAfter).message?.isSome = true →
      ReportsOverflow body →
        (statusToError provider status body retryAfter).isContextOverflow = true ∧
          TurnTransition.resolve .callingModel
            (AgentRuntime.modelOutcome
              (.error (.provider (statusToError provider status body retryAfter)))) =
              .compactAndRetry

theorem recognisesOverflow_errorOfStatus_iff (body : String) :
    RecognisesOverflow errorOfStatus body ↔
      (ReportsOverflow body → ReportsOverflow (truncateBody body)) := by
  constructor
  · intro h hreports
    obtain ⟨message, hmessage, hfound⟩ :=
      (isContextOverflow_iff _).mp (h "" 400 none rfl hreports).1
    obtain rfl : truncateBody body = message := Option.some.inj hmessage
    exact hfound
  · intro h provider status retryAfter hsome hreports
    have hmessage := (message?_errorOfStatus provider status body retryAfter).resolve_right
      (Option.isSome_iff_ne_none.mp hsome)
    have hoverflow := (isContextOverflow_iff _).mpr ⟨_, hmessage, h hreports⟩
    refine ⟨hoverflow, ?_⟩
    rw [AgentRuntime.modelOutcome, if_pos hoverflow]
    rfl

/-- **An overflow is recognised exactly when it is reported early**: in both adapters a report is
lost when the body is longer than what an error keeps and says so nowhere in front of that. -/
theorem recognisesOverflow_iff (body : String) :
    (RecognisesOverflow OpenAi.statusToError body ∧
        RecognisesOverflow Anthropic.statusToError body) ↔
      (ReportsOverflow body → body.utf8ByteSize ≤ bodyLimit ∨ ReportsOverflowEarly body) := by
  have hboth : (RecognisesOverflow OpenAi.statusToError body ∧
      RecognisesOverflow Anthropic.statusToError body) ↔ RecognisesOverflow errorOfStatus body :=
    and_self_iff
  rw [hboth, recognisesOverflow_errorOfStatus_iff, reportsOverflow_truncateBody]
  refine forall_congr' fun hreports => ?_
  split
  · next hshort => simp [hshort, hreports]
  · next hlong => simp [hlong]

/-- Characters of two bytes each, and then the report. -/
def lateReport (count : Nat) : String :=
  String.ofList (List.replicate count 'é') ++ "context window"

section LateReport

variable (count : Nat)

theorem toList_lateReport :
    (lateReport count).toList = List.replicate count 'é' ++ "context window".toList := by
  rw [lateReport, String.toList_append, String.toList_ofList]

theorem reportsOverflow_lateReport : ReportsOverflow (lateReport count) := by
  refine ⟨"context window", by decide, ?_⟩
  rw [toList_lateReport]
  exact (List.suffix_append ..).isInfix

variable {count} (h : bodyLimit ≤ count * 2)

include h in
theorem lateReport_long : ¬ (lateReport count).utf8ByteSize ≤ bodyLimit := by
  have hreport : 0 < String.utf8Len "context window".toList := by decide
  have hsize : 'é'.utf8Size = 2 := rfl
  rw [← String.utf8Len_toList, toList_lateReport, String.utf8Len_append, Text.utf8Len_replicate,
    hsize]
  omega

include h in
theorem not_reportsOverflowEarly_lateReport : ¬ ReportsOverflowEarly (lateReport count) := by
  rintro ⟨marker, hmarker, front, hfront, hle⟩
  have hlength : bodyLimit ≤ String.utf8Len (List.replicate count 'é') := by
    rw [Text.utf8Len_replicate]
    exact h
  rw [toList_lateReport] at hfront
  -- a marker in front of the limit would be made of the repeated character
  have hin := Text.prefix_of_utf8Len_le hfront (hle.trans hlength)
  have hmarkers : ∀ marker ∈ overflowMarkers, marker.toList.any (· != 'é') = true := by decide
  obtain ⟨c, hc, hne⟩ := List.any_eq_true.mp (hmarkers marker hmarker)
  exact bne_iff_ne.mp hne (List.eq_of_mem_replicate (hin.subset (List.mem_append_right _ hc)))

end LateReport

/-- A report among the first 512 characters, but behind the first 512 bytes. -/
theorem lateReport_unrecognised :
    ¬ (RecognisesOverflow OpenAi.statusToError (lateReport 256) ∧
      RecognisesOverflow Anthropic.statusToError (lateReport 256)) := by
  rintro ⟨hopen, -⟩
  have hlimit : bodyLimit ≤ 256 * 2 := by decide
  have hkept := (recognisesOverflow_errorOfStatus_iff (lateReport 256)).mp hopen
    (reportsOverflow_lateReport 256)
  rw [reportsOverflow_truncateBody, if_neg (lateReport_long hlimit)] at hkept
  exact not_reportsOverflowEarly_lateReport hlimit hkept

end Behest
