import Behest.Runtime.Input
import Behest.Runtime.RunLoop

/-!
# Starting and resuming a run

`run` and `resume` of `behest-runtime/src/agent.rs`: what precedes the turn loop, and the
state the loop starts from. Tool scopes, which only bound the life of registered tools, are
left out.
-/

namespace Behest

open Effect Compaction

/-- A record of a run that has just been accepted. Source: `run.rs:142–163`. -/
def RunRecord.new (id sessionId : Uuid) (request : RunRequest) (now : Nat) : RunRecord where
  id := id
  sessionId := sessionId
  status := .pending
  provider := request.provider
  model := request.model
  metadata := request.metadata
  clientRequestId := request.clientRequestId
  createdAt := now
  updatedAt := now

namespace LoopState

/-- The variables of a new run. Source: `agent.rs:298–303, 326–342`. -/
def start (policy : RuntimePolicy) : LoopState where
  resumeFrom := .checkingPolicy
  iteration := 0
  totalUsage := .new 0 0
  lastFinish := none
  assistantMessage := none
  assistantMsgId := none
  outputRecoveryCount := 0
  doomDetector := .new policy.doomLoop
  breaker := .new policy.compaction.circuitBreakerThreshold

/-- The variables restored from a snapshot. Source: `agent.rs:387–408`. -/
def ofSnapshot (policy : RuntimePolicy) (s : Snapshot) : LoopState where
  resumeFrom := s.currentState
  iteration := s.iteration
  totalUsage := s.totalUsage
  lastFinish := s.lastFinish
  assistantMessage := s.assistantMessage
  assistantMsgId := s.assistantMsgId
  outputRecoveryCount := s.outputRecoveryCount
  doomDetector := .new policy.doomLoop
  breaker := .new policy.compaction.circuitBreakerThreshold

end LoopState

namespace AgentRuntime

variable (host : Host) (rt : AgentRuntime)

/-- Source: `store.rs:298–315`. -/
def ensureSession : Option Uuid → M Uuid
  | some id => do
      host.onSession (.getSession id)
      if ((← get).sessions id).isNone then fail (.sessionNotFound id)
      return id
  | none => do
      let id ← host.newId
      host.onSession (.createSession id)
      return id

/-- A session that another run holds is refused at once. Source: `session_gate.rs:63–86`. -/
def acquire (sessionId : Uuid) : M Unit := do
  let busy := host.busy (← get) sessionId
  host.perform (.acquired sessionId busy)
  if busy then fail (.sessionBusy sessionId)

/-- Source: `agent.rs:265–277`. -/
def admitInput (sessionId : Uuid) (content : String) : M Unit := do
  let id ← host.newId
  let submitted := InputRecord.new host.textHash id sessionId content
  let (record, _, seen) :=
    InputAdmission.admitRecord rt.policy.inputAdmission submitted (← get).seenFingerprints
  host.perform (.admitted seen)
  if record.state = .rejected then
    fail (.inputRejected record.id (record.rejectionReason.getD ""))

/-- Source: `agent.rs:288–296`. -/
def createRun (runId sessionId : Uuid) (request : RunRequest) : M Unit := do
  let now ← host.readClock
  host.onRun (.createRun (.new runId sessionId request now))

/-- Source: `agent.rs:318–321, 375–378`. -/
def chatProvider (id : String) : M ChatProvider := do
  host.perform (.providerLookup id (rt.providers.chat id).isSome)
  match rt.providers.chat id with
  | some provider => return provider
  | none => fail (.providerNotFound id)

/-- What the loop is given besides its variables. Source: `agent.rs:323–324, 380–381`. -/
def runContext (runId sessionId : Uuid) (provider : ChatProvider) (request : RunRequest) :
    RunContext where
  runId := runId
  sessionId := sessionId
  provider := provider
  request := request
  toolSpecs := rt.tools.registry.specs
  hasTools := !rt.tools.registry.specs.isEmpty

/-- The part of `run` after the run is created. Source: `agent.rs:305–344`. -/
def startRun (fuel : Nat) (runId sessionId : Uuid) (request : RunRequest) : M RunOutput := do
  host.emit (.runStarted runId sessionId request.provider request.model)
  updateStatus host runId .sessionLoaded
  let _ ← host.appendMessage sessionId (.userText request.input)
  let provider ← chatProvider host rt request.provider
  runLoop host rt (rt.runContext runId sessionId provider request) fuel (.start rt.policy)

/-- Source: `agent.rs:253–344`. -/
def run (fuel : Nat) (request : RunRequest) : M RunOutput := do
  let runId ← match request.runId with
    | some id => pure id
    | none => host.newId
  let sessionId ← ensureSession host request.sessionId
  acquire host sessionId
  admitInput host rt sessionId request.input
  createRun host runId sessionId request
  startRun host rt fuel runId sessionId request

/-- The part of `resume` after the snapshot is loaded. Source: `agent.rs:365–409`. -/
def resumeFrom (fuel : Nat) (runId : Uuid) (snapshot : Snapshot) : M RunOutput := do
  acquire host snapshot.sessionId
  let provider ← chatProvider host rt snapshot.request.provider
  updateStatus host runId (TurnTransition.statusFor snapshot.currentState)
  runLoop host rt (rt.runContext runId snapshot.sessionId provider snapshot.request) fuel
    (.ofSnapshot rt.policy snapshot)

/-- Source: `agent.rs:355–410`. -/
def resume (fuel : Nat) (runId : Uuid) : M RunOutput :=
  if rt.hasSnapshotStore then do
    host.onSnapshot (.load runId)
    match (← get).snapshots runId with
    | none => fail (.runNotFound runId)
    | some snapshot => resumeFrom host rt fuel runId snapshot
  else fail (.recoveryFailed "snapshot store not configured")

end AgentRuntime

end Behest
