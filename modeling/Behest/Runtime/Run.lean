import Behest.Runtime.Turn

/-!
# Runs, snapshots and events

The records a run leaves behind: its entry in the run store, its recovery snapshot, its
tool executions and the events it emits. Event timestamps are left out.
-/

namespace Behest

/-- Source: `behest-runtime/src/run.rs:45–65`. -/
structure RunRequest where
  sessionId : Option Uuid
  runId : Option Uuid
  provider : String
  model : String
  input : String
  metadata : Value
  toolChoice : ToolChoice
  clientRequestId : Option String

/-- Source: `behest-runtime/src/run.rs:118–137`. -/
structure RunRecord where
  id : Uuid
  sessionId : Uuid
  status : RunStatus
  provider : String
  model : String
  metadata : Value
  clientRequestId : Option String
  createdAt : Nat
  updatedAt : Nat

/-- Source: `behest-runtime/src/snapshot.rs:16–43`. -/
structure Snapshot where
  runId : Uuid
  sessionId : Uuid
  status : RunStatus
  iteration : Nat
  currentState : TurnState
  totalUsage : TokenUsage
  lastFinish : Option FinishReason
  assistantMessage : Option Message
  assistantMsgId : Option Uuid
  request : RunRequest
  outputRecoveryCount : Nat
  timestamp : Nat

/-- Source: `behest-store/src/lib.rs:772–779`. -/
inductive ToolExecutionStatus where
  | pending
  | success
  | failed
deriving DecidableEq

/-- Source: `behest-store/src/lib.rs:697–721`. -/
structure ToolExecution where
  id : Uuid
  sessionId : Uuid
  messageId : Uuid
  callId : String
  toolName : String
  arguments : Value
  result : Option Value
  status : ToolExecutionStatus
  error : Option String
  duration : Duration
  createdAt : Nat

/-- Source: `behest-event/src/agent_event.rs:215–226`. -/
inductive ToolExecutionResult where
  | success (output : Value)
  | failure (error : String)

/-- The events of a run. Source: `behest-event/src/agent_event.rs:18–57`. -/
inductive AgentEvent where
  | runStarted (runId sessionId : Uuid) (provider model : String)
  | contextBuilt (runId : Uuid) (messageCount : Nat)
  | modelStarted (runId : Uuid) (provider model : String) (iteration : Nat)
  | textDelta (runId : Uuid) (delta : String)
  | toolCallStarted (runId : Uuid) (callId toolName : String)
  | toolCallDelta (runId : Uuid) (callId delta : String)
  | toolCallCompleted (runId : Uuid) (call : ToolCall)
  | toolExecutionStarted (runId : Uuid) (callId toolName : String)
  | toolExecutionFinished (runId : Uuid) (callId toolName : String) (result : ToolExecutionResult)
      (durationMs : Nat)
  | assistantMessageCommitted (runId messageId : Uuid)
  | toolMessageCommitted (runId messageId : Uuid)
  | usageRecorded (runId : Uuid) (usage : TokenUsage)
  | cacheMetrics (runId : Uuid) (cacheCreationInputTokens cacheReadInputTokens
      cachedInputTokens : Nat)
  | runCompleted (runId : Uuid) (finishReason : FinishReason) (iterations : Nat)
  | runFailed (runId : Uuid) (error : String)
  | runCancelled (runId : Uuid)
  | doomLoopDetected (runId : Uuid) (description : String)
  | compactionCircuitOpened (runId : Uuid) (consecutiveFailures : Nat)

namespace AgentEvent

/-- Source: `behest-event/src/agent_event.rs:62–84`. -/
def runId : AgentEvent → Uuid
  | runStarted id _ _ _ | contextBuilt id _ | modelStarted id _ _ _ | textDelta id _
  | toolCallStarted id _ _ | toolCallDelta id _ _ | toolCallCompleted id _
  | toolExecutionStarted id _ _ | toolExecutionFinished id _ _ _ _
  | assistantMessageCommitted id _ | toolMessageCommitted id _ | usageRecorded id _
  | cacheMetrics id _ _ _ | runCompleted id _ _ | runFailed id _ | runCancelled id
  | doomLoopDetected id _ | compactionCircuitOpened id _ => id

/-- Source: `behest-event/src/agent_event.rs:88–93`. -/
def isTerminal : AgentEvent → Bool
  | runCompleted _ _ _ | runFailed _ _ | runCancelled _ => true
  | _ => false

end AgentEvent

/-- Source: `behest-runtime/src/agent.rs:550–562`. -/
structure RunOutput where
  runId : Uuid
  sessionId : Uuid
  iterations : Nat
  finishReason : FinishReason
  totalUsage : TokenUsage

end Behest
