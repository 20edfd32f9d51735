import Mathlib.Data.List.Induction
import Behest.Runtime.Run

/-!
# The state of a run

`behest-runtime/src/state.rs`: the view of a run that is folded from its record and its
event log. Events carry no timestamps here, so the time of the last update is left out.
-/

namespace Behest

/-- An event in the log of a run. Source: `behest-runtime/src/store.rs:25–34`. -/
structure RunEventRecord where
  sequence : Nat
  runId : Uuid
  event : AgentEvent

/-- Source: `state.rs:24–51`. -/
structure RunState where
  runId : Uuid
  sessionId : Uuid
  status : RunStatus
  provider : String
  model : String
  metadata : Value
  iteration : Nat
  totalUsage : TokenUsage
  lastFinish : Option FinishReason
  lastError : Option String
  eventCount : Nat
  createdAt : Nat

namespace RunState

/-- Source: `state.rs:93–159`. -/
def apply (s : RunState) : AgentEvent → RunState
  | .runStarted _ _ provider model =>
      { s with status := .sessionLoaded, provider := provider, model := model }
  | .modelStarted _ _ _ iteration => { s with iteration := iteration, status := .callingModel }
  | .usageRecorded _ usage => { s with totalUsage := s.totalUsage.merge usage }
  | .runCompleted _ finishReason _ =>
      { s with status := .completed, lastFinish := some finishReason }
  | .runFailed _ error => { s with status := .failed, lastError := some error }
  | .runCancelled _ => { s with status := .cancelled }
  | _ => s

/-- The state before the first event. -/
def blank (record : RunRecord) (eventCount : Nat) : RunState where
  runId := record.id
  sessionId := record.sessionId
  status := .pending
  provider := record.provider
  model := record.model
  metadata := record.metadata
  iteration := 0
  totalUsage := .new 0 0
  lastFinish := none
  lastError := none
  eventCount := eventCount
  createdAt := record.createdAt

/-- Source: `state.rs:61–85`. -/
def create (record : RunRecord) (events : List RunEventRecord) : RunState :=
  events.foldl (fun s e => s.apply e.event) (blank record events.length)

/-- Events are counted beside the fold, not by it. -/
theorem apply_eventCount (s : RunState) (n : Nat) (event : AgentEvent) :
    { s with eventCount := n }.apply event = { s.apply event with eventCount := n } := by
  cases event <;> rfl

theorem eventCount_apply (s : RunState) (event : AgentEvent) :
    (s.apply event).eventCount = s.eventCount := by
  cases event <;> rfl

private theorem foldl_eventCount (s : RunState) (n : Nat) (events : List RunEventRecord) :
    events.foldl (fun s e => s.apply e.event) { s with eventCount := n } =
      { events.foldl (fun s e => s.apply e.event) s with eventCount := n } := by
  induction events generalizing s with
  | nil => rfl
  | cons e rest ih =>
    simp only [List.foldl_cons]
    rw [apply_eventCount, ih]

@[simp] theorem create_eventCount (record : RunRecord) (events : List RunEventRecord) :
    (create record events).eventCount = events.length := by
  have h : create record events = { create record events with eventCount := events.length } :=
    foldl_eventCount (blank record events.length) events.length events
  rw [h]

/-- **One more event is folded by applying and counting it**. -/
theorem create_append (record : RunRecord) (events : List RunEventRecord) (e : RunEventRecord) :
    create record (events ++ [e]) =
      { (create record events).apply e.event with eventCount := events.length + 1 } := by
  unfold create
  rw [List.foldl_append, List.length_append, List.length_singleton]
  have h := foldl_eventCount (blank record events.length) (events.length + 1) events
  rw [show blank record (events.length + 1) =
    { blank record events.length with eventCount := events.length + 1 } from rfl, h]
  exact apply_eventCount _ _ _

/-- Neither the status nor the update time of the record is read. -/
theorem create_update_status (record : RunRecord) (status : RunStatus) (updatedAt : Nat)
    (events : List RunEventRecord) :
    create { record with status := status, updatedAt := updatedAt } events =
      create record events := rfl

/-- The status an event announces. -/
def announced : AgentEvent → Option RunStatus
  | .runStarted _ _ _ _ => some .sessionLoaded
  | .modelStarted _ _ _ _ => some .callingModel
  | .runCompleted _ _ _ => some .completed
  | .runFailed _ _ => some .failed
  | .runCancelled _ => some .cancelled
  | _ => none

/-- The status a log announces last; a run is pending until one is announced. -/
def lastAnnounced (events : List RunEventRecord) : RunStatus :=
  (events.filterMap fun e => announced e.event).getLast?.getD .pending

theorem status_apply (s : RunState) (event : AgentEvent) :
    (s.apply event).status = (announced event).getD s.status := by
  cases event <;> rfl

/-- **The status of a folded state is the one announced last**. -/
theorem status_create (record : RunRecord) (events : List RunEventRecord) :
    (create record events).status = lastAnnounced events := by
  induction events using List.reverseRecOn with
  | nil => rfl
  | append_singleton events e ih =>
    rw [create_append]
    show ((create record events).apply e.event).status = _
    rw [status_apply, ih]
    unfold lastAnnounced
    rw [List.filterMap_append]
    cases h : announced e.event with
    | none => simp [h]
    | some status => simp [h]

end RunState

end Behest
