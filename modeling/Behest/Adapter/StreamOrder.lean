import Behest.Adapter.Answer
import Behest.Adapter.OpenAi

/-!
# The calls of a stream in their order

A stream starts tool calls, each with an identifier of its own, and sends their arguments in
pieces. The accumulator keeps the calls in a hash map and parses what arguments it has, so the
order of the starts is kept for a single call only, and a call without arguments has the value
null.
-/

namespace Behest

/-- The calls that are started, by identifier and name. -/
def startedPairs (events : List ChatStreamEvent) : List (String × String) :=
  events.filterMap fun
    | .toolCallStarted id name => some (id, name)
    | _ => none

/-- There is an argument delta for the identifier. -/
def hasArguments (id : String) (events : List ChatStreamEvent) : Bool :=
  events.any fun
    | .toolCallArgumentsDelta id' _ => id' == id
    | _ => false

/-- The argument deltas for the identifier that follow its start, joined. -/
def argumentsAfterStart (id : String) : List ChatStreamEvent → String
  | [] => ""
  | .toolCallStarted id' _ :: rest =>
      if id' = id then argumentsText id rest else argumentsAfterStart id rest
  | _ :: rest => argumentsAfterStart id rest

/-- What the arguments of a call parse to, an empty object when there are none. -/
def argumentsValue (parseJson : String → Option Value) (events : List ChatStreamEvent)
    (id : String) : Value :=
  if hasArguments id events then (parseJson (argumentsText id events)).getD .null
  else .object []

/-- The calls in the order of their starts, each with its arguments. -/
def orderedCalls (parseJson : String → Option Value) (events : List ChatStreamEvent) :
    List ToolCall :=
  (startedPairs events).map fun s => ⟨s.1, s.2, argumentsValue parseJson events s.1⟩

/-- The message holds the text of the deltas and the calls in their order, for every order in
which the accumulator can hand the calls back. -/
def OrderPreserving (parseJson : String → Option Value) (events : List ChatStreamEvent) : Prop :=
  ∀ host : Host, host.parseJson = parseJson → (∀ calls, (host.valuesOrder calls).Perm calls) →
    let message := (events.foldl StreamAccumulator.take {}).toMessage host
    messageText message = deltaText events ∧ message.toolCalls = orderedCalls parseJson events

variable {parseJson : String → Option Value} {events : List ChatStreamEvent}

/-! ### Started calls -/

theorem starts_iff {id : String} :
    starts id events = true ↔ id ∈ (startedPairs events).map Prod.fst := by
  induction events with
  | nil => simp [starts, startedPairs]
  | cons e rest ih =>
    cases e with
    | toolCallStarted id' name =>
      have hstarts : starts id (.toolCallStarted id' name :: rest) =
          (id' == id || starts id rest) := rfl
      rw [hstarts, Bool.or_eq_true, beq_iff_eq, ih, eq_comm]
      exact List.mem_cons.symm
    | _ => exact ih

/-- With identifiers of their own, no call is started over. -/
theorem startedCalls_eq (h : ((startedPairs events).map Prod.fst).Nodup) :
    startedCalls events =
      (startedPairs events).map fun s => ⟨s.1, s.2, argumentsAfterStart s.1 events⟩ := by
  induction events with
  | nil => rfl
  | cons e rest ih =>
    cases e with
    | toolCallStarted id name =>
      obtain ⟨hnew, hrest⟩ := List.nodup_cons.mp h
      have hpairs : startedPairs (.toolCallStarted id name :: rest) =
          (id, name) :: startedPairs rest := rfl
      rw [startedCalls, if_neg fun hstarts => hnew (starts_iff.mp hstarts), ih hrest, hpairs,
        List.map_cons, argumentsAfterStart, if_pos rfl]
      congr 1
      refine List.map_congr_left fun s hs => ?_
      have hmem : s.1 ∈ (startedPairs rest).map Prod.fst := List.mem_map_of_mem hs
      have hne : id ≠ s.1 := by
        intro heq
        exact hnew (heq ▸ hmem)
      rw [argumentsAfterStart, if_neg hne]
    | _ => exact ih h

theorem hasArguments_delta (id id' delta : String) (events : List ChatStreamEvent) :
    hasArguments id (.toolCallArgumentsDelta id' delta :: events) =
      (id' == id || hasArguments id events) := rfl

theorem argumentsText_eq_empty {id : String} (h : hasArguments id events = false) :
    argumentsText id events = "" := by
  induction events with
  | nil => rfl
  | cons e rest ih =>
    cases e with
    | toolCallArgumentsDelta id' delta =>
      rw [hasArguments_delta, Bool.or_eq_false_iff, beq_eq_false_iff_ne] at h
      rw [argumentsText, if_neg h.1]
      exact ih h.2
    | _ => exact ih h

theorem argumentsAfterStart_eq_empty {id : String} (h : hasArguments id events = false) :
    argumentsAfterStart id events = "" := by
  induction events with
  | nil => rfl
  | cons e rest ih =>
    cases e with
    | toolCallArgumentsDelta id' delta =>
      rw [hasArguments_delta, Bool.or_eq_false_iff] at h
      exact ih h.2
    | toolCallStarted id' name =>
      have hrest : hasArguments id rest = false := h
      rw [argumentsAfterStart, argumentsText_eq_empty hrest, ih hrest]
      split <;> rfl
    | _ => exact ih h

/-! ### The message -/

/-- A message is as ordered as its calls. -/
theorem orderPreserving_iff_calls : OrderPreserving parseJson events ↔
    ∀ order : List ToolCallAccumulator → List ToolCallAccumulator,
      (∀ entries, (order entries).Perm entries) →
        (order (startedCalls events)).map (ToolCallAccumulator.call parseJson) =
          orderedCalls parseJson events := by
  constructor
  · intro h order hperm
    have hcalls := (h { Host.benign with parseJson := parseJson, valuesOrder := order } rfl hperm).2
    exact (toolCalls_foldl_take _ _).symm.trans hcalls
  · rintro h host rfl hperm
    refine ⟨?_, (toolCalls_foldl_take _ _).trans (h host.valuesOrder hperm)⟩
    rw [messageText_toMessage, text_foldl_take]
    simp

/-- **The message of a stream keeps the order of its calls, with the values of their arguments,
exactly when at most one call is started, it has arguments, and those that follow its start parse
to what all of them parse to**. -/
theorem orderPreserving_iff (hids : ((startedPairs events).map Prod.fst).Nodup)
    (hempty : parseJson "" = none) : OrderPreserving parseJson events ↔
      (startedPairs events).length ≤ 1 ∧ ∀ s ∈ startedPairs events,
        hasArguments s.1 events = true ∧
          (parseJson (argumentsAfterStart s.1 events)).getD .null =
            (parseJson (argumentsText s.1 events)).getD .null := by
  rw [orderPreserving_iff_calls, forall_order_iff parseJson (nodup_startedCalls events),
    startedCalls_eq hids, List.length_map, List.map_map, orderedCalls, List.map_inj_left]
  refine and_congr_right fun _ => forall₂_congr fun s _ => ?_
  have hcall : ((ToolCallAccumulator.call parseJson ∘
      fun s : String × String => ⟨s.1, s.2, argumentsAfterStart s.1 events⟩) s) =
      ⟨s.1, s.2, (parseJson (argumentsAfterStart s.1 events)).getD .null⟩ := rfl
  rw [hcall, ToolCall.mk.injEq, argumentsValue]
  cases hargs : hasArguments s.1 events with
  | true => simp
  | false =>
    rw [argumentsAfterStart_eq_empty hargs, hempty]
    simp

/-- A parser that knows the empty object. -/
def parseEmptyObject (text : String) : Option Value :=
  if text = "\x7b\x7d" then some (.object []) else none

/-- A text, and a call whose arguments come in two pieces. -/
theorem oneCall_orderPreserving : OrderPreserving parseEmptyObject
    [.textDelta "Reading", .toolCallStarted "1" "read", .toolCallArgumentsDelta "1" "\x7b",
      .textDelta " it", .toolCallArgumentsDelta "1" "\x7d"] :=
  (orderPreserving_iff (by decide) (by decide)).mpr ⟨by decide, by
    intro s hs
    obtain rfl : s = ("1", "read") := List.mem_singleton.mp hs
    exact ⟨rfl, rfl⟩⟩

/-- Two calls may come out in either order, and a call without arguments is null, where a complete
answer has an empty object. -/
theorem twoCalls_noArguments :
    let two : List ChatStreamEvent := [.toolCallStarted "1" "read",
      .toolCallArgumentsDelta "1" "\x7b\x7d", .toolCallStarted "2" "write",
      .toolCallArgumentsDelta "2" "\x7b\x7d"]
    let silent : List ChatStreamEvent := [.toolCallStarted "1" "now"]
    ¬ OrderPreserving parseEmptyObject two ∧ ¬ OrderPreserving parseEmptyObject silent ∧
      OpenAi.convertResponseToolCalls parseEmptyObject [⟨some "1", none, ⟨some "now", none⟩⟩] =
        orderedCalls parseEmptyObject silent := by
  refine ⟨fun h => ?_, fun h => ?_, rfl⟩
  · have hids := congrArg (List.map ToolCall.id) (orderPreserving_iff_calls.mp h List.reverse
      fun entries => entries.reverse_perm)
    exact absurd hids (by decide)
  · have hvalue := congrArg (List.map ToolCall.arguments)
      (orderPreserving_iff_calls.mp h id fun _ => .refl _)
    cases hvalue

end Behest
