import Mathlib.Logic.Function.Basic
import Behest.Effect.Program
import Behest.Runtime.Run

/-!
# The world of a runtime

What an agent runtime can observe and change: the session, run, execution and snapshot
stores, the fingerprints of admitted inputs, and a transcript of every call to a
collaborator with what the collaborator did. The stores are the in-memory ones of the
repository with arbitrary faults. Collaborators outside the model (clock, identifiers,
timeouts, faults, hashing, JSON) are the fields of `Host`; they may depend on the whole
world, so every behaviour of a collaborator over a run is some host.
-/

namespace Behest

open Effect

/-- Source: `behest-runtime/src/compaction/mod.rs:131–143`. -/
structure CompactionResult where
  summaryText : String
  compactionUserId : Uuid
  summaryMessageId : Uuid
  tailStartId : Uuid
  tokensSaved : Nat

/-- Why a compaction was attempted. -/
inductive CompactionKind where
  | proactive
  | reactive
deriving DecidableEq

/-- Source: `behest-runtime/src/tool_runtime.rs:33–40`. -/
structure ToolExecutionOutcome where
  call : ToolCall
  output : Except ToolError Value
  message : Message

/-- What a model call returns. -/
structure ModelAnswer where
  message : Message
  finish : FinishReason
  usage : Option TokenUsage

/-- Calls to the session store. -/
inductive SessionOp where
  | getSession (id : Uuid)
  | createSession (id : Uuid)
  | appendMessage (record : MessageRecord)
  | listMessages (id : Uuid)
  | getLatestCompaction (id : Uuid)

/-- Calls to the run store. -/
inductive RunOp where
  | createRun (record : RunRecord)
  | updateRunStatus (id : Uuid) (status : RunStatus)

/-- Calls to the snapshot store. -/
inductive SnapshotOp where
  | save (snapshot : Snapshot)
  | load (id : Uuid)
  | delete (id : Uuid)

/-- One entry of the transcript: a call with the fault it met, or an answer received. -/
inductive Action where
  | drew
  | emitted (event : AgentEvent)
  | session (op : SessionOp) (fault : Option StorageError)
  | run (op : RunOp) (fault : Option RuntimeError)
  | snapshot (op : SnapshotOp) (fault : Option RuntimeError)
  | recordedExecution (execution : ToolExecution) (fault : Option StorageError)
  | eventStored (store : String) (event : AgentEvent) (fault : Option RuntimeError)
  | acquired (sessionId : Uuid) (busy : Bool)
  | admitted (seen : List Nat)
  | providerLookup (id : String) (found : Bool)
  | requested (provider : String) (streaming : Bool) (request : ChatRequest)
  | toolCalled (call : ToolCall)
  | contextBuilt (answer : Except RuntimeError ChatRequest)
  | compacted (kind : CompactionKind) (answer : Except RuntimeError (Option CompactionResult))
  | modelAnswered (iteration : Nat) (request : ChatRequest)
      (answer : Except RuntimeError ModelAnswer)
  | toolsAnswered (calls : List ToolCall)
      (answer : Except RuntimeError (List ToolExecutionOutcome))

/-- The state a runtime works on. -/
structure World where
  sessions : Uuid → Option (List MessageRecord)
  runs : Uuid → Option RunRecord
  snapshots : Uuid → Option Snapshot
  executions : List ToolExecution
  seenFingerprints : List Nat
  trace : List Action

namespace Action

/-- Effect on the session store. Source: `behest-store/src/memory/session.rs:36–119`. -/
def onSessions (sessions : Uuid → Option (List MessageRecord)) :
    Action → Uuid → Option (List MessageRecord)
  | session (.createSession id) none => Function.update sessions id (some [])
  | session (.appendMessage record) none =>
      Function.update sessions record.sessionId
        ((sessions record.sessionId).map (· ++ [record]))
  | _ => sessions

/-- The action changes the messages of some session. -/
@[simp] def touchesMessages : Action → Bool
  | session (.createSession _) none | session (.appendMessage _) none => true
  | _ => false

/-- Effect on the run store. Source: `behest-runtime/src/memory.rs:58–90`. -/
def onRuns (runs : Uuid → Option RunRecord) : Action → Uuid → Option RunRecord
  | run (.createRun record) none => Function.update runs record.id (some record)
  | run (.updateRunStatus id status) none =>
      Function.update runs id ((runs id).map fun r => { r with status := status })
  | _ => runs

/-- Effect on the snapshot store. Source: `behest-runtime/src/snapshot.rs:98–160`. -/
def onSnapshots (snapshots : Uuid → Option Snapshot) : Action → Uuid → Option Snapshot
  | snapshot (.save s) none => Function.update snapshots s.runId (some s)
  | snapshot (.delete id) none => Function.update snapshots id none
  | _ => snapshots

/-- Effect on the execution store. Source: `behest-store/src/memory/execution.rs:44–48`. -/
def onExecutions (executions : List ToolExecution) : Action → List ToolExecution
  | recordedExecution execution none => executions ++ [execution]
  | _ => executions

/-- Effect on the fingerprints of admitted inputs. -/
def onSeen (seen : List Nat) : Action → List Nat
  | admitted seen' => seen'
  | _ => seen

end Action

namespace World

/-- The world after an action: its effect, and its entry in the transcript. -/
def apply (w : World) (a : Action) : World where
  sessions := a.onSessions w.sessions
  runs := a.onRuns w.runs
  snapshots := a.onSnapshots w.snapshots
  executions := a.onExecutions w.executions
  seenFingerprints := a.onSeen w.seenFingerprints
  trace := w.trace ++ [a]

/-- The world after some actions. -/
def after (w : World) (as : List Action) : World := as.foldl World.apply w

theorem after_append (w : World) (as bs : List Action) :
    w.after (as ++ bs) = (w.after as).after bs := List.foldl_append

@[simp] theorem apply_sessions (w : World) (a : Action) :
    (w.apply a).sessions = a.onSessions w.sessions := rfl

@[simp] theorem apply_runs (w : World) (a : Action) : (w.apply a).runs = a.onRuns w.runs := rfl

@[simp] theorem apply_snapshots (w : World) (a : Action) :
    (w.apply a).snapshots = a.onSnapshots w.snapshots := rfl

@[simp] theorem apply_executions (w : World) (a : Action) :
    (w.apply a).executions = a.onExecutions w.executions := rfl

@[simp] theorem apply_trace (w : World) (a : Action) : (w.apply a).trace = w.trace ++ [a] := rfl

/-- The stored messages of a session; an unknown session has none. -/
def messages (w : World) (sessionId : Uuid) : List MessageRecord :=
  (w.sessions sessionId).getD []

/-- Only a created session or an accepted message changes what a session holds. -/
@[simp] theorem messages_apply (w : World) (a : Action) (id : Uuid)
    (h : ¬ a.touchesMessages) : (w.apply a).messages id = w.messages id := by
  unfold messages
  rw [apply_sessions]
  cases a with
  | session op fault => cases op <;> cases fault <;> first | rfl | exact absurd rfl h
  | _ => rfl

/-- The status of a run, when the run exists. -/
def status (w : World) (runId : Uuid) : Option RunStatus := (w.runs runId).map RunRecord.status

/-- A run that exists goes on existing. -/
theorem isSome_runs_apply {w : World} {runId : Uuid} (a : Action) (h : (w.runs runId).isSome) :
    ((w.apply a).runs runId).isSome := by
  rw [apply_runs]
  cases a with
  | run op fault =>
    cases fault with
    | some e => cases op <;> exact h
    | none =>
      cases op with
      | createRun record =>
        by_cases hid : runId = record.id
        · simp [Action.onRuns, hid]
        · simpa [Action.onRuns, Function.update_of_ne hid] using h
      | updateRunStatus id status =>
        by_cases hid : runId = id
        · subst hid
          simpa [Action.onRuns] using h
        · simpa [Action.onRuns, Function.update_of_ne hid] using h
  | _ => exact h

/-- Only accepted calls to the run store change the status of a run. -/
theorem status_apply {w : World} {a : Action} (runId : Uuid) (h : ∀ op, a ≠ .run op none) :
    (w.apply a).status runId = w.status runId := by
  unfold status
  rw [apply_runs]
  cases a with
  | run op fault =>
    cases fault with
    | some e => cases op <;> rfl
    | none => exact absurd rfl (h op)
  | _ => rfl

/-- A status that is accepted is the status of the run. -/
theorem status_apply_update {w : World} {runId : Uuid} {status : RunStatus}
    (h : (w.runs runId).isSome) :
    (w.apply (.run (.updateRunStatus runId status) none)).status runId = some status := by
  obtain ⟨record, hrecord⟩ := Option.isSome_iff_exists.mp h
  simp [World.status, Action.onRuns, hrecord]

/-- The in-memory session store refuses a message for a session it does not hold. -/
def sessionRefusal (w : World) : SessionOp → Option StorageError
  | .appendMessage record =>
      if (w.sessions record.sessionId).isNone then
        some (.notFound (Uuid.display record.sessionId))
      else none
  | _ => none

/-- A message that is not refused is appended to its session. -/
theorem messages_append {w : World} {record : MessageRecord} {sessionId : Uuid}
    (hid : record.sessionId = sessionId) (h : w.sessionRefusal (.appendMessage record) = none) :
    (w.apply (.session (.appendMessage record) none)).messages sessionId =
      w.messages sessionId ++ [record] := by
  subst hid
  unfold messages sessionRefusal at *
  rw [apply_sessions]
  simp only [Action.onSessions, Function.update_self]
  cases hs : w.sessions record.sessionId with
  | none => simp [hs] at h
  | some messages => rfl

/-- The in-memory run store refuses a status for a run it does not hold. -/
def runRefusal (w : World) : RunOp → Option RuntimeError
  | .updateRunStatus id _ => if (w.runs id).isNone then some (.runNotFound id) else none
  | _ => none

end World

/-- Why a program of the runtime stopped without a value. `crashed` is the process ending
where it stands, `panicked` an unreachable branch, `outOfFuel` a loop cut off by the model. -/
inductive Stop where
  | failed (e : RuntimeError)
  | panicked
  | crashed
  | outOfFuel

/-- Programs of the runtime. -/
abbrev M (α : Type) := EStateM Stop World α

/-- Accumulator for a single tool call. Source: `behest-runtime/src/accumulator.rs:100–105`. -/
structure ToolCallAccumulator where
  id : String
  name : String
  arguments : String

/-- The collaborators outside the model. -/
structure Host where
  uuid : World → Uuid
  now : World → Nat
  crashes : World → Bool
  elapsed : World → Bool
  busy : World → Uuid → Bool
  sessionFault : World → SessionOp → Option StorageError
  runFault : World → RunOp → Option RuntimeError
  snapshotFault : World → SnapshotOp → Option RuntimeError
  executionFault : World → Option StorageError
  eventStores : List String
  eventFault : World → Option RuntimeError
  callHash : String → Value → Nat
  textHash : String → Nat
  parseJson : String → Option Value
  validate : Value → Value → Option (List String)
  valuesOrder : List ToolCallAccumulator → List ToolCallAccumulator

/-- Return an error as `?` does. -/
def fail {α : Type} (e : RuntimeError) : M α := throw (Stop.failed e)

/-- Read the error a program returns; a crash, a panic or the end of fuel still stops. -/
def caught {α : Type} (x : M α) : M (Except RuntimeError α) :=
  attempt (fun
    | .failed e => some e
    | _ => none) x

namespace Host

variable (host : Host)

/-- Perform an action; the process may end right after it. -/
def perform (a : Action) : M Unit := do
  modify fun w => w.apply a
  if host.crashes (← get) then throw Stop.crashed

/-- Perform a call whose fault ends the program. -/
def call (a : Action) (fault : Option RuntimeError) : M Unit := do
  host.perform a
  match fault with
  | some e => fail e
  | none => pure ()

/-- A generated identifier. -/
def newId : M Uuid := do
  let w ← get
  host.perform .drew
  return host.uuid w

/-- The current time. -/
def readClock : M Nat := do
  let w ← get
  host.perform .drew
  return host.now w

/-- A call to the session store. -/
def onSession (op : SessionOp) : M Unit := do
  let w ← get
  let fault := (host.sessionFault w op).or (w.sessionRefusal op)
  host.call (.session op fault) (fault.map RuntimeError.storage)

/-- A call to the run store. -/
def onRun (op : RunOp) : M Unit := do
  let w ← get
  let fault := (host.runFault w op).or (w.runRefusal op)
  host.call (.run op fault) fault

/-- A call to the snapshot store. -/
def onSnapshot (op : SnapshotOp) : M Unit := do
  let w ← get
  let fault := host.snapshotFault w op
  host.call (.snapshot op fault) fault

/-- Source: `behest-runtime/src/agent.rs:478–492`. -/
def emit (event : AgentEvent) : M Unit := host.perform (.emitted event)

/-- The messages of a session, as `SessionStore::list_messages` returns them. -/
def listMessages (sessionId : Uuid) : M (List MessageRecord) := do
  host.onSession (.listMessages sessionId)
  return (← get).messages sessionId

/-- Source: `behest-runtime/src/store.rs:313–321`. -/
def appendMessage (sessionId : Uuid) (message : Message) : M Uuid := do
  let id ← host.newId
  let createdAt ← host.readClock
  host.onSession (.appendMessage (messageToRecord id createdAt sessionId message))
  return id

end Host

/-! ### A host on which nothing goes wrong -/

/-- No fault, crash or timeout; identifiers and hashes are as simple as they can be. -/
def Host.benign : Host where
  uuid w := 1000 + w.trace.length
  now w := w.trace.length
  crashes _ := false
  elapsed _ := false
  busy _ _ := false
  sessionFault _ _ := none
  runFault _ _ := none
  snapshotFault _ _ := none
  executionFault _ := none
  eventStores := []
  eventFault _ := none
  callHash name _ := name.utf8ByteSize
  textHash text := text.utf8ByteSize
  parseJson _ := none
  validate _ _ := none
  valuesOrder accumulators := accumulators

/-- A world that holds one session. -/
def World.ofSession (sessionId : Uuid) (messages : List MessageRecord) : World where
  sessions id := if id = sessionId then some messages else none
  runs _ := none
  snapshots _ := none
  executions := []
  seenFingerprints := []
  trace := []

end Behest
