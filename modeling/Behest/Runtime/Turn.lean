import Behest.Core.Error
import Behest.Runtime.Policy

/-!
# Turn states

The states of one turn of the agent loop, the outcome of a state, and the resolver from
state and outcome to the action taken (`behest-runtime/src/turn.rs`).
-/

namespace Behest

/-- Source: `behest-runtime/src/run.rs:14–33`. -/
inductive RunStatus where
  | pending
  | sessionLoaded
  | buildingContext
  | callingModel
  | waitingForTools
  | persisting
  | completed
  | failed
  | cancelled
deriving DecidableEq

/-- Source: `behest-runtime/src/run.rs:38–40`. -/
def RunStatus.isTerminal : RunStatus → Bool
  | completed | failed | cancelled => true
  | _ => false

/-- Source: `behest-runtime/src/turn.rs:20–35`. -/
inductive TurnState where
  | checkingPolicy
  | buildingContext
  | callingModel
  | compacting
  | processingResponse
  | executingTools
  | persisting
deriving DecidableEq

/-- Source: `behest-runtime/src/turn.rs:41–75`. -/
inductive TurnOutcome where
  | success
  | policyExceeded (reason : String)
  | contextOverflow
  | providerError (message : String)
  | pipelineError (message : String)
  | noToolCalls
  | notToolCalls (finishReason : FinishReason)
  | toolFailure (message : String)
  | outputTruncated

/-- The action after a transition. The text of a `Fail` names the cause; the text of the
catch-all arm, a debug rendering, is never shown and is left out.
Source: `behest-runtime/src/turn.rs:79–94`. -/
inductive TurnAction where
  | continue (next : TurnState)
  | breakLoop
  | compactAndRetry
  | fail (reason : String)
deriving DecidableEq

namespace TurnTransition

/-- Source: `behest-runtime/src/turn.rs:105–164`. -/
def resolve : TurnState → TurnOutcome → TurnAction
  | .checkingPolicy, .policyExceeded reason => .fail reason
  | .checkingPolicy, .success => .continue .buildingContext
  | .buildingContext, .success | .compacting, .success
  | .processingResponse, .outputTruncated => .continue .callingModel
  | .buildingContext, .pipelineError _ | .compacting, .pipelineError _ =>
      .fail "context build failed"
  | .callingModel, .success => .continue .processingResponse
  | .callingModel, .contextOverflow => .compactAndRetry
  | .callingModel, .providerError _ => .fail "provider error"
  | .processingResponse, .noToolCalls | .processingResponse, .notToolCalls _ => .breakLoop
  | .processingResponse, .success => .continue .executingTools
  | .executingTools, .success => .continue .persisting
  | .executingTools, .toolFailure _ => .fail "tool execution failed"
  | .persisting, .success => .continue .checkingPolicy
  | .persisting, .pipelineError _ => .fail "persistence failed"
  | _, _ => .fail "unexpected outcome"

/-- Source: `behest-runtime/src/turn.rs:168–178`. -/
def statusFor : TurnState → RunStatus
  | .checkingPolicy | .compacting | .buildingContext => .buildingContext
  | .callingModel | .processingResponse => .callingModel
  | .executingTools => .waitingForTools
  | .persisting => .persisting

/-- No turn state stands for a finished run. -/
@[simp] theorem isTerminal_statusFor (state : TurnState) :
    (statusFor state).isTerminal = false := by
  cases state <;> rfl

end TurnTransition

end Behest
