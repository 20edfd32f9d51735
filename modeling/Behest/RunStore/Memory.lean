import Mathlib.Data.List.AList
import Behest.Effect.Locking
import Behest.RunStore.State

/-!
# The in-memory run store

`behest-runtime/src/memory.rs`: three maps behind three locks, with the methods of
`RunStore` as the sequences of lock acquisitions, releases and map accesses they are. A
guard that is a temporary is released at the end of its statement. The clock is an argument.
-/

namespace Behest

open Effect

/-- Source: `memory.rs:31–36`. -/
structure MemoryRunStore where
  runs : AList fun _ : Uuid => RunRecord
  events : AList fun _ : Uuid => List RunEventRecord
  projections : AList fun _ : Uuid => RunState
  sequence : Nat

namespace MemoryRunStore

/-- The locks of the store, one for each map. -/
inductive Lock where
  | runs
  | events
  | projections
deriving DecidableEq

abbrev StoreMethod (α : Type) := Method Lock MemoryRunStore α

/-- Source: `memory.rs:41–48`. -/
def new : MemoryRunStore := ⟨∅, ∅, ∅, 0⟩

/-- The log of a run; a run without events has none. -/
def log (s : MemoryRunStore) (runId : Uuid) : List RunEventRecord :=
  (s.events.lookup runId).getD []

def putRun (record : RunRecord) (s : MemoryRunStore) : MemoryRunStore :=
  { s with runs := s.runs.insert record.id record }

def putProjection (runId : Uuid) (state : RunState) (s : MemoryRunStore) : MemoryRunStore :=
  { s with projections := s.projections.insert runId state }

/-- `RunRecord::update_status` on the record of a run, when it exists.
Source: `behest-runtime/src/run.rs:165–168`. -/
def setStatus (runId : Uuid) (status : RunStatus) (now : Nat) (s : MemoryRunStore) :
    MemoryRunStore :=
  match s.runs.lookup runId with
  | some record =>
      { s with runs := s.runs.insert runId { record with status := status, updatedAt := now } }
  | none => s

/-- Push an event to the log it belongs to. -/
def push (record : RunEventRecord) (s : MemoryRunStore) : MemoryRunStore :=
  { s with events := s.events.insert record.runId (s.log record.runId ++ [record]) }

@[simp] theorem runs_putRun (record : RunRecord) (s : MemoryRunStore) :
    (s.putRun record).runs = s.runs.insert record.id record := rfl

@[simp] theorem projections_putRun (record : RunRecord) (s : MemoryRunStore) :
    (s.putRun record).projections = s.projections := rfl

@[simp] theorem log_putRun (record : RunRecord) (s : MemoryRunStore) (runId : Uuid) :
    (s.putRun record).log runId = s.log runId := rfl

@[simp] theorem runs_putProjection (id : Uuid) (state : RunState) (s : MemoryRunStore) :
    (s.putProjection id state).runs = s.runs := rfl

@[simp] theorem projections_putProjection (id : Uuid) (state : RunState) (s : MemoryRunStore) :
    (s.putProjection id state).projections = s.projections.insert id state := rfl

@[simp] theorem log_putProjection (id : Uuid) (state : RunState) (s : MemoryRunStore)
    (runId : Uuid) : (s.putProjection id state).log runId = s.log runId := rfl

@[simp] theorem runs_push (record : RunEventRecord) (s : MemoryRunStore) :
    (s.push record).runs = s.runs := rfl

@[simp] theorem projections_push (record : RunEventRecord) (s : MemoryRunStore) :
    (s.push record).projections = s.projections := rfl

@[simp] theorem log_push_self (s : MemoryRunStore) (record : RunEventRecord) :
    (s.push record).log record.runId = s.log record.runId ++ [record] := by
  simp [log, push]

theorem log_push_of_ne (s : MemoryRunStore) {record : RunEventRecord} {runId : Uuid}
    (h : runId ≠ record.runId) : (s.push record).log runId = s.log runId := by
  simp [log, push, AList.lookup_insert_ne h]

/-- Source: `memory.rs:59–65`. -/
def createRun (record : RunRecord) : StoreMethod (Except RuntimeError Unit) := do
  let _ ← .holding .runs .exclusive (.change (putRun record))
  let _ ← .holding .projections .exclusive
    (.change (putProjection record.id (.create record [])))
  return .ok ()

/-- Source: `memory.rs:67–69`. -/
def getRun (runId : Uuid) : StoreMethod (Option RunRecord) := do
  return (← .holding .runs .shared .look).runs.lookup runId

/-- Source: `memory.rs:71–73`. -/
def getRunState (runId : Uuid) : StoreMethod (Option RunState) := do
  return (← .holding .projections .shared .look).projections.lookup runId

/-- Source: `memory.rs:75–88`. -/
def updateRunStatus (runId : Uuid) (status : RunStatus) (now : Nat) :
    StoreMethod (Except RuntimeError Unit) :=
  .holding .runs .exclusive do
    match (← .change (setStatus runId status now)).runs.lookup runId with
    | none => return .error (.runNotFound runId)
    | some _ =>
        .holding .projections .exclusive do
          match (← .look).projections.lookup runId with
          | some state =>
              let _ ← .change (putProjection runId { state with status := status })
              return .ok ()
          | none => return .ok ()

/-- A run without a projection gets one from its record. Source: `memory.rs:104–111`. -/
def projectAnew (record : RunEventRecord) : StoreMethod (Except RuntimeError Unit) :=
  .holding .runs .shared do
    match (← .look).runs.lookup record.runId with
    | some run =>
        let state := (RunState.create run []).apply record.event
        let _ ← .change (putProjection record.runId { state with eventCount := 1 })
        return .ok ()
    | none => return .ok ()

/-- Source: `memory.rs:90–114`. -/
def appendEvent (record : RunEventRecord) : StoreMethod (Except RuntimeError Unit) := do
  let before ← .change fun s => { s with sequence := s.sequence + 1 }
  let record := { record with sequence := before.sequence }
  .holding .events .exclusive <| .holding .projections .exclusive do
    let _ ← .change (push record)
    match (← .look).projections.lookup record.runId with
    | some state =>
        let state := state.apply record.event
        let _ ← .change
          (putProjection record.runId { state with eventCount := state.eventCount + 1 })
        return .ok ()
    | none => projectAnew record

/-- Source: `memory.rs:116–124`. -/
def listEvents (runId : Uuid) : StoreMethod (List RunEventRecord) := do
  return (← .holding .events .shared .look).log runId

/-- In the order of the map, which is not specified. Source: `memory.rs:126–135`. -/
def listRuns (sessionId : Uuid) : StoreMethod (List RunRecord) := do
  let s ← .holding .runs .shared .look
  return (s.runs.entries.map Sigma.snd).filter fun r => r.sessionId == sessionId

/-- Source: `memory.rs:170–175`. -/
def deleteRun (runId : Uuid) : StoreMethod (Except RuntimeError Unit) := do
  let _ ← .holding .runs .exclusive (.change fun s => { s with runs := s.runs.erase runId })
  let _ ← .holding .events .exclusive (.change fun s => { s with events := s.events.erase runId })
  let _ ← .holding .projections .exclusive
    (.change fun s => { s with projections := s.projections.erase runId })
  return .ok ()

/-- What the trait computes for a store without projections.
Source: `behest-runtime/src/store.rs:79–85`. -/
def replayRunState (runId : Uuid) : StoreMethod (Option RunState) := do
  match ← getRun runId with
  | none => return none
  | some record => return some (.create record (← listEvents runId))

end MemoryRunStore

end Behest
