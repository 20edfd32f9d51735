import Mathlib.Data.List.Nodup
import Behest.Runtime.Streaming

/-!
# Streamed and complete answers

What the run loop makes of the stream of a provider, beside the complete answer of the same
provider. The accumulator keeps the calls in a hash map, so their order is not one of the
stream: two answers are alike when they agree in whatever order the map has.
-/

namespace Behest

open Effect AgentRuntime

/-- The finish reason and the usage after an event of a stream. -/
def ChatStreamEvent.finish (last : FinishReason × Option TokenUsage) :
    ChatStreamEvent → FinishReason × Option TokenUsage
  | .finished reason usage => (reason, usage)
  | _ => last

/-- What the run loop returns for a stream that it reads to the end. -/
def streamAnswer (host : Host) (items : List StreamItem) : Option ModelAnswer :=
  if unbroken items then
    let last := (delivered items).foldl ChatStreamEvent.finish (.stop, none)
    some ⟨((delivered items).foldl StreamAccumulator.take {}).toMessage host, last.1, last.2⟩
  else none

/-- The same text, calls, finish reason and usage as the complete answer, for every order in
which the accumulator can hand the calls back. -/
def AnswersAlike (parseJson : String → Option Value) (items : List StreamItem)
    (whole : ChatResponse) : Prop :=
  ∀ host : Host, host.parseJson = parseJson → (∀ calls, (host.valuesOrder calls).Perm calls) →
    ∃ answer, streamAnswer host items = some answer ∧
      messageText answer.message = messageText whole.message ∧
      answer.message.toolCalls = whole.message.toolCalls ∧
      answer.finish = whole.finishReason ∧ answer.usage = whole.usage

/-! ### The run loop -/

/-- The run loop returns the answer of its stream. -/
theorem wp_consumeStream_streamAnswer (host : Host) (provider : ChatProvider) (runId : Uuid)
    (items : List StreamItem) (acc : StreamAccumulator) (finish : FinishReason)
    (usage : Option TokenUsage) (w : World) :
    wp (consumeStream host provider runId acc finish usage items)
      (fun answer _ => unbroken items = true ∧
        answer.message = ((delivered items).foldl StreamAccumulator.take acc).toMessage host ∧
        (answer.finish, answer.usage) =
          (delivered items).foldl ChatStreamEvent.finish (finish, usage))
      (fun _ _ => True) w := by
  induction items generalizing acc finish usage w with
  | nil => exact ⟨rfl, rfl, rfl⟩
  | cons item rest ih =>
    cases item with
    | idle => trivial
    | failed e => trivial
    | event e =>
      cases e with
      | started => exact ih acc finish usage w
      | finished reason last => exact ih acc reason last w
      | textDelta delta => exact (wp_bind _).mpr (wp_perform_crash ⟨trivial, ih _ finish usage _⟩)
      | toolCallStarted id name =>
        exact (wp_bind _).mpr (wp_perform_crash ⟨trivial, ih _ finish usage _⟩)
      | toolCallArgumentsDelta id delta =>
        exact (wp_bind _).mpr (wp_perform_crash ⟨trivial, ih _ finish usage _⟩)
      | toolCallCompleted call =>
        exact (wp_bind _).mpr (wp_perform_crash ⟨trivial, ih acc finish usage _⟩)

theorem wp_callStreaming_streamAnswer (host : Host) (provider : ChatProvider)
    (request : ChatRequest) (runId : Uuid) (w : World) :
    wp (callStreaming host provider request runId)
      (fun answer _ => ∃ items, provider.stream w request = .ok items ∧
        streamAnswer host items = some answer) (fun _ _ => True) w := by
  unfold callStreaming
  simp only [wp_bind, wp_get]
  apply wp_stream_crash
  refine ⟨trivial, ?_⟩
  split
  · trivial
  · cases hreply : provider.stream w request with
    | error e => trivial
    | ok items =>
      apply wp_mono (wp_consumeStream_streamAnswer host provider runId items {} .stop none _)
      · rintro ⟨message, finish, usage⟩ _ ⟨hread, rfl, hlast⟩
        refine ⟨items, rfl, ?_⟩
        rw [streamAnswer, if_pos hread, ← hlast]
      · exact fun _ _ _ => trivial

/-! ### Parts of a message and of a stream -/

/-- The text of a part, as far as the run loop reads it. -/
def ContentPart.plain : ContentPart → String
  | .text t _ => t
  | _ => ""

theorem messageText_assistant (content : List ContentPart) (calls : List ToolCall) :
    messageText (.assistant content calls) = String.join (content.map ContentPart.plain) := by
  change (if (String.join (content.map ContentPart.plain)).isEmpty then none
    else some (String.join (content.map ContentPart.plain))).getD "" = _
  by_cases hempty : (String.join (content.map ContentPart.plain)).isEmpty = true
  · rw [if_pos hempty, String.isEmpty_iff.mp hempty]
    rfl
  · rw [if_neg hempty]
    rfl

theorem eq_ok_of_toOption {ε α : Type} {x : Except ε α} {a : α} (h : x.toOption = some a) :
    x = .ok a := by
  cases x with
  | error _ => cases h
  | ok b => exact congrArg Except.ok (Option.some.inj h)

theorem deltaText_append (front back : List ChatStreamEvent) :
    deltaText (front ++ back) = deltaText front ++ deltaText back := by
  simp [deltaText, List.filterMap_append]

theorem deltaText_textDeltas (deltas : List String) :
    deltaText (deltas.map .textDelta) = String.join deltas := by
  simp [deltaText, List.filterMap_map, Function.comp_def, ChatStreamEvent.delta]

theorem reportedCalls_append (front back : List ChatStreamEvent) :
    reportedCalls (front ++ back) = reportedCalls front ++ reportedCalls back := by
  simp [reportedCalls, List.filterMap_append]

theorem argumentsText_append (id : String) (front back : List ChatStreamEvent) :
    argumentsText id (front ++ back) = argumentsText id front ++ argumentsText id back := by
  induction front with
  | nil => exact String.empty_append.symm
  | cons e rest ih =>
    cases e with
    | toolCallArgumentsDelta id' delta =>
      rw [List.cons_append, argumentsText, argumentsText, ih]
      split
      · exact String.append_assoc.symm
      · rfl
    | _ => exact ih

theorem argumentsText_deltas (id : String) (pieces : List String) :
    argumentsText id (pieces.map (.toolCallArgumentsDelta id)) = String.join pieces := by
  induction pieces with
  | nil => rfl
  | cons piece rest ih => rw [List.map_cons, argumentsText, if_pos rfl, ih, String.join_cons]

/-- An event that starts a call. -/
def ChatStreamEvent.begins : ChatStreamEvent → Bool
  | .toolCallStarted _ _ => true
  | _ => false

/-- An event about a call. -/
def ChatStreamEvent.ofCall : ChatStreamEvent → Bool
  | .toolCallStarted _ _ | .toolCallArgumentsDelta _ _ | .toolCallCompleted _ => true
  | .started | .textDelta _ | .finished _ _ => false

theorem startedCalls_append_of_begins {front : List ChatStreamEvent}
    (h : ∀ e ∈ front, e.begins = false) (back : List ChatStreamEvent) :
    startedCalls (front ++ back) = startedCalls back := by
  induction front with
  | nil => rfl
  | cons e rest ih =>
    obtain ⟨he, hrest⟩ := List.forall_mem_cons.mp h
    cases e with
    | toolCallStarted id name => cases he
    | _ => exact ih hrest

theorem startedCalls_of_begins {events : List ChatStreamEvent}
    (h : ∀ e ∈ events, e.begins = false) : startedCalls events = [] := by
  rw [← List.append_nil events, startedCalls_append_of_begins h]
  rfl

theorem starts_of_begins (id : String) {events : List ChatStreamEvent}
    (h : ∀ e ∈ events, e.begins = false) : starts id events = false := by
  induction events with
  | nil => rfl
  | cons e rest ih =>
    obtain ⟨he, hrest⟩ := List.forall_mem_cons.mp h
    cases e with
    | toolCallStarted id name => cases he
    | _ => exact ih hrest

theorem argumentsText_of_ofCall (id : String) {events : List ChatStreamEvent}
    (h : ∀ e ∈ events, e.ofCall = false) : argumentsText id events = "" := by
  induction events with
  | nil => rfl
  | cons e rest ih =>
    obtain ⟨he, hrest⟩ := List.forall_mem_cons.mp h
    cases e with
    | toolCallArgumentsDelta id name => cases he
    | _ => exact ih hrest

theorem reportedCalls_of_ofCall {events : List ChatStreamEvent}
    (h : ∀ e ∈ events, e.ofCall = false) : reportedCalls events = [] := by
  induction events with
  | nil => rfl
  | cons e rest ih =>
    obtain ⟨he, hrest⟩ := List.forall_mem_cons.mp h
    cases e with
    | toolCallCompleted call => cases he
    | _ => exact ih hrest

/-- An event that the accumulator reads for its calls. -/
def ChatStreamEvent.tells : ChatStreamEvent → Bool
  | .toolCallStarted _ _ | .toolCallArgumentsDelta _ _ => true
  | .started | .textDelta _ | .toolCallCompleted _ | .finished _ _ => false

theorem starts_filter_tells (id : String) (events : List ChatStreamEvent) :
    starts id (events.filter ChatStreamEvent.tells) = starts id events := by
  induction events with
  | nil => rfl
  | cons e rest ih =>
    cases e with
    | toolCallStarted id' name => exact congrArg (_ || ·) ih
    | _ => exact ih

theorem argumentsText_filter_tells (id : String) (events : List ChatStreamEvent) :
    argumentsText id (events.filter ChatStreamEvent.tells) = argumentsText id events := by
  induction events with
  | nil => rfl
  | cons e rest ih =>
    cases e with
    | toolCallArgumentsDelta id' delta =>
      change argumentsText id (.toolCallArgumentsDelta id' delta ::
        rest.filter ChatStreamEvent.tells) = _
      rw [argumentsText, argumentsText, ih]
    | _ => exact ih

theorem startedCalls_filter_tells (events : List ChatStreamEvent) :
    startedCalls (events.filter ChatStreamEvent.tells) = startedCalls events := by
  induction events with
  | nil => rfl
  | cons e rest ih =>
    cases e with
    | toolCallStarted id name =>
      change startedCalls (.toolCallStarted id name :: rest.filter ChatStreamEvent.tells) = _
      rw [startedCalls, startedCalls, ih, starts_filter_tells, argumentsText_filter_tells]
    | _ => exact ih

theorem begins_of_ofCall {e : ChatStreamEvent} (h : e.ofCall = false) : e.begins = false := by
  cases e with
  | toolCallStarted id name => cases h
  | _ => rfl

theorem delivered_append (events : List ChatStreamEvent) (items : List StreamItem) :
    delivered (events.map .event ++ items) = events ++ delivered items := by
  induction events with
  | nil => rfl
  | cons e rest ih => exact congrArg (e :: ·) ih

theorem unbroken_append (events : List ChatStreamEvent) (items : List StreamItem) :
    unbroken (events.map .event ++ items) = unbroken items := by
  induction events with
  | nil => rfl
  | cons e rest ih => exact ih

theorem delivered_events (events : List ChatStreamEvent) :
    delivered (events.map .event) = events := by
  rw [← List.append_nil (events.map StreamItem.event), delivered_append]
  exact List.append_nil events

theorem unbroken_events (events : List ChatStreamEvent) :
    unbroken (events.map .event) = true := by
  rw [← List.append_nil (events.map StreamItem.event), unbroken_append]
  rfl

/-! ### The calls of the accumulator -/

theorem starts_of_mem {c : ToolCallAccumulator} {events : List ChatStreamEvent}
    (h : c ∈ startedCalls events) : starts c.id events = true := by
  induction events with
  | nil => cases h
  | cons e rest ih =>
    cases e with
    | toolCallStarted id name =>
      by_cases hlater : starts id rest = true
      · rw [startedCalls, if_pos hlater] at h
        simp only [starts, List.any_cons, Bool.or_eq_true]
        exact .inr (ih h)
      · rw [startedCalls, if_neg hlater, List.mem_cons] at h
        simp only [starts, List.any_cons, Bool.or_eq_true]
        rcases h with rfl | h
        · exact .inl (beq_self_eq_true _)
        · exact .inr (ih h)
    | _ => exact ih h

/-- Each identifier has one call. -/
theorem nodup_startedCalls (events : List ChatStreamEvent) :
    ((startedCalls events).map ToolCallAccumulator.id).Nodup := by
  induction events with
  | nil => exact List.nodup_nil
  | cons e rest ih =>
    cases e with
    | toolCallStarted id name =>
      rw [startedCalls]
      split
      · exact ih
      · next hlater =>
        refine List.nodup_cons.mpr ⟨fun hmem => hlater ?_, ih⟩
        obtain ⟨c, hc, rfl⟩ := List.mem_map.mp hmem
        exact starts_of_mem hc
    | _ => exact ih

/-- A call that the accumulator has put together. -/
def ToolCallAccumulator.call (parseJson : String → Option Value) (c : ToolCallAccumulator) :
    ToolCall :=
  ⟨c.id, c.name, (parseJson c.arguments).getD .null⟩

/-- A list of calls that is the same in every order has at most one. -/
theorem forall_order_iff (parseJson : String → Option Value) {entries : List ToolCallAccumulator}
    (h : (entries.map ToolCallAccumulator.id).Nodup) (calls : List ToolCall) :
    (∀ order : List ToolCallAccumulator → List ToolCallAccumulator,
        (∀ entries, (order entries).Perm entries) →
          (order entries).map (ToolCallAccumulator.call parseJson) = calls) ↔
      entries.length ≤ 1 ∧ entries.map (ToolCallAccumulator.call parseJson) = calls := by
  constructor
  · intro hall
    have hsame := hall id fun _ => .refl _
    have hreverse := hall List.reverse fun entries => entries.reverse_perm
    refine ⟨?_, hsame⟩
    have hids := congrArg (List.map ToolCall.id) (hsame.trans hreverse.symm)
    have hcall : ToolCall.id ∘ ToolCallAccumulator.call parseJson = ToolCallAccumulator.id := rfl
    rw [List.map_map, List.map_map, hcall, id_eq, List.map_reverse] at hids
    have hlength : (entries.map ToolCallAccumulator.id).length = entries.length :=
      List.length_map _
    by_contra hlong
    -- the first identifier is the last one
    have hfirst := congrArg (fun ids => ids[0]?) hids
    have hpos : 0 < (entries.map ToolCallAccumulator.id).length := by omega
    simp only [List.getElem?_reverse hpos] at hfirst
    have hindex := (List.getElem?_inj hpos h).mp hfirst
    omega
  · rintro ⟨hlength, hcalls⟩ order hperm
    have hentries : order entries = entries := by
      rcases Nat.le_one_iff_eq_zero_or_eq_one.mp hlength with hlength | hlength
      · obtain rfl := List.length_eq_zero_iff.mp hlength
        exact (hperm []).eq_nil
      · obtain ⟨c, rfl⟩ := List.length_eq_one_iff.mp hlength
        exact (hperm [c]).eq_singleton
    rw [hentries, hcalls]

/-- Answers are alike when the stream is read to its end and describes at most one call, and
the complete answer has what the stream describes. -/
theorem answersAlike_iff (parseJson : String → Option Value) (items : List StreamItem)
    (whole : ChatResponse) :
    AnswersAlike parseJson items whole ↔
      unbroken items = true ∧ deltaText (delivered items) = messageText whole.message ∧
        ((startedCalls (delivered items)).length ≤ 1 ∧
          (startedCalls (delivered items)).map (ToolCallAccumulator.call parseJson) =
            whole.message.toolCalls) ∧
        (delivered items).foldl ChatStreamEvent.finish (.stop, none) =
          (whole.finishReason, whole.usage) := by
  rw [← forall_order_iff parseJson (nodup_startedCalls _)]
  constructor
  · intro h
    have hanswer := fun order hperm =>
      h { Host.benign with parseJson := parseJson, valuesOrder := order } rfl hperm
    obtain ⟨answer, hsome, htext, -, hfinish, husage⟩ := hanswer id fun _ => .refl _
    have hread : unbroken items = true := by
      by_contra hbroken
      rw [streamAnswer, if_neg hbroken] at hsome
      cases hsome
    refine ⟨hread, ?_, fun order hperm => ?_, ?_⟩
    · rw [streamAnswer, if_pos hread] at hsome
      cases hsome
      rw [messageText_toMessage, text_foldl_take] at htext
      simpa using htext
    · obtain ⟨answer, hsome, -, hcalls, -⟩ := hanswer order hperm
      rw [streamAnswer, if_pos hread] at hsome
      cases hsome
      exact (toolCalls_foldl_take _ _).symm.trans hcalls
    · rw [streamAnswer, if_pos hread] at hsome
      cases hsome
      exact Prod.ext hfinish husage
  · rintro ⟨hread, htext, hcalls, hlast⟩ host rfl hperm
    rw [streamAnswer, if_pos hread, hlast]
    refine ⟨_, rfl, ?_, ?_, rfl, rfl⟩
    · rw [messageText_toMessage, text_foldl_take, ← htext]
      simp
    · exact (toolCalls_foldl_take _ _).trans (hcalls host.valuesOrder hperm)

end Behest
