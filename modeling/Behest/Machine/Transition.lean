import Behest.Core.Message
import Behest.Effect.Machine

/-!
# The run machine of the core

`behest-core/src/run.rs`: the prompt loop as a transition function over eleven states. Started
from `idle` the machine never gets to four of them. A cancellation is final unless it comes
while the context is built or tools are executed.
-/

namespace Behest.Machine

open Effect

/-- Source: `run.rs:25–48`. -/
inductive RunState where
  | idle
  | buildingContext
  | callingModel
  | streamingModel
  | processingResponse
  | executingTools
  | waitingApproval
  | compacting
  | demoting
  | finished
  | aborted
deriving DecidableEq

/-- Source: `run.rs:52–105`. -/
inductive RunInput where
  | userMessageReceived (content : List ContentPart)
  | modelChunkReceived (delta : String)
  | modelCompleted (message : Message) (usage : TokenUsage)
  | toolCallRequested (calls : List ToolCall)
  | toolResultReceived (callId : String) (output : Value)
  | toolApprovalGranted (callId : String)
  | toolApprovalRejected (callId : String) (reason : Option String)
  | memoryCompactionCompleted (summary : String)
  | runtimeErrorReceived (error : String)
  | cancellationRequested

/-- Source: `run.rs:109–144`. -/
inductive RunAction where
  | requestModel (request : ChatRequest)
  | executeTool (calls : List ToolCall)
  | requestToolApproval (call : ToolCall) (reason : String)
  | compactMemory
  | demoteMemory
  | finishRun (reason : FinishReason) (usage : TokenUsage)
  | abortRun (error : String)
  | noop

/-- Source: `run.rs:148–166`. -/
structure RunConfig where
  maxIterations : Nat := 10
  maxTokens : Option Nat := none
  continueOnToolFailure : Bool := true

/-- Source: `run.rs:22`. -/
def cancelledMsg : String := "cancelled"

/-- The answer to a completion; `total` is the usage a finished run is reported with.
Source: `run.rs:212–229` and `run.rs:244–261`. -/
def completed (message : Message) (total : TokenUsage) : RunState × List RunAction :=
  if message.toolCalls.isEmpty then (.finished, [.finishRun .stop total])
  else (.executingTools, [.executeTool message.toolCalls])

/-- The configuration is not read. Source: `run.rs:181–312`. -/
def transition (_config : RunConfig) : RunState → RunInput → RunState × List RunAction
  | .idle, .userMessageReceived _ => (.buildingContext, [.noop])
  | .idle, .cancellationRequested => (.aborted, [.abortRun "cancelled before start"])
  | .buildingContext, .userMessageReceived _ => (.callingModel, [.noop])
  | .callingModel, .modelChunkReceived _ => (.streamingModel, [.noop])
  | .callingModel, .modelCompleted message _ => completed message (.new 0 0)
  | .callingModel, .runtimeErrorReceived error => (.aborted, [.abortRun error])
  | .callingModel, .cancellationRequested => (.aborted, [.abortRun cancelledMsg])
  | .streamingModel, .modelChunkReceived _ => (.streamingModel, [.noop])
  | .streamingModel, .modelCompleted message usage => completed message usage
  | .streamingModel, .runtimeErrorReceived error => (.aborted, [.abortRun error])
  | .streamingModel, .cancellationRequested => (.aborted, [.abortRun cancelledMsg])
  | .processingResponse, .toolCallRequested calls => (.executingTools, [.executeTool calls])
  | .executingTools, .toolResultReceived _ _ => (.executingTools, [.noop])
  | .executingTools, .runtimeErrorReceived _ => (.buildingContext, [.noop])
  | .waitingApproval, .toolApprovalGranted callId =>
      (.executingTools, [.executeTool [⟨callId, "", .null⟩]])
  | .waitingApproval, .toolApprovalRejected _ _ => (.buildingContext, [.noop])
  | .compacting, .memoryCompactionCompleted _ => (.buildingContext, [.noop])
  | .finished, _ => (.finished, [])
  | .aborted, _ => (.aborted, [])
  | state, _ => (state, [.noop])

variable (config : RunConfig)

/-- The state of a run after some inputs. -/
def reached (inputs : List RunInput) : RunState := stateAfter (transition config) .idle inputs

namespace RunState

/-- Source: `run.rs:301`. -/
def isTerminal : RunState → Bool
  | .finished | .aborted => true
  | _ => false

/-- The machine waits for the model. -/
def awaitsModel : RunState → Bool
  | .callingModel | .streamingModel => true
  | _ => false

/-- No transition from `idle` gets there. -/
def isRemote : RunState → Bool
  | .processingResponse | .waitingApproval | .compacting | .demoting => true
  | _ => false

/-- A cancellation request is dropped here. -/
def dropsCancellation : RunState → Bool
  | .buildingContext | .executingTools => true
  | _ => false

end RunState

variable {config}

theorem isRemote_transition {state : RunState} (h : state.isRemote = false) (input : RunInput) :
    (transition config state input).1.isRemote = false := by
  cases state <;> first | (cases h; done) | skip
  all_goals cases input
  all_goals first | rfl | (simp only [transition, completed]; split <;> rfl)

/-- Four states are never reached. -/
theorem isRemote_reached (inputs : List RunInput) : (reached config inputs).isRemote = false :=
  stateAfter_invariant (fun state : RunState => state.isRemote = false) rfl
    (fun _ input h => isRemote_transition h input) inputs

theorem transition_terminal {state : RunState} (h : state.isTerminal = true) (input : RunInput) :
    transition config state input = (state, []) := by
  cases state <;> first | rfl | cases h

/-- Where a cancellation request leads. -/
theorem transition_cancelled (state : RunState) (h : state.isRemote = false) :
    (transition config state .cancellationRequested).1 =
      if state.isTerminal || state.dropsCancellation then state else .aborted := by
  cases state <;> first | rfl | cases h

/-! ### Cancellation -/

/-- The action works on the run. -/
def RunAction.works : RunAction → Bool
  | .requestModel _ | .executeTool _ => true
  | _ => false

variable (config) in
/-- A run that is cancelled before its end is aborted, and no later input asks the model or
executes tools. -/
def CancelsFinally (inputs : List RunInput) : Prop :=
  ∀ before after, inputs = before ++ .cancellationRequested :: after →
    (reached config before).isTerminal = false →
      reached config (before ++ [.cancellationRequested]) = .aborted ∧
      ∀ action ∈ outputs (transition config)
        (reached config (before ++ [.cancellationRequested])) after, action.works = false

variable (config) in
/-- **A cancellation is final exactly when none comes while the context is built or tools are
executed**. -/
theorem cancelsFinally_iff (inputs : List RunInput) :
    CancelsFinally config inputs ↔
      ∀ before after, inputs = before ++ .cancellationRequested :: after →
        reached config before ≠ .buildingContext ∧ reached config before ≠ .executingTools := by
  have hcancelled : ∀ before, reached config (before ++ [.cancellationRequested]) =
      if (reached config before).isTerminal || (reached config before).dropsCancellation then
        reached config before else .aborted := fun before =>
    (stateAfter_concat before _).trans
      (transition_cancelled _ (isRemote_reached before))
  constructor
  · intro hfinal before after hinputs
    have hmoved := hcancelled before
    constructor
    all_goals
      intro hstate
      have haborted := (hfinal before after hinputs (by rw [hstate]; rfl)).1
      rw [haborted, hstate] at hmoved
      cases hmoved
  · intro hheard before after hinputs hrunning
    obtain ⟨hbuilding, hexecuting⟩ := hheard before after hinputs
    have hdrops : (reached config before).dropsCancellation = false := by
      cases hstate : reached config before <;> first | rfl | contradiction
    have haborted : reached config (before ++ [.cancellationRequested]) = .aborted := by
      rw [hcancelled, hrunning, hdrops]
      rfl
    refine ⟨haborted, ?_⟩
    rw [haborted, (at_rest (fun input => transition_terminal rfl input) after).2]
    exact nofun

/-- A call of a tool. -/
def echoCall : Message := .assistant [] [⟨"call_1", "echo", .null⟩]

/-- Cancelled while tools are executed, the run goes on and executes tools again. -/
theorem cancelled_executes :
    ¬ CancelsFinally {} [.userMessageReceived [], .userMessageReceived [],
      .modelCompleted echoCall (.new 0 0), .cancellationRequested, .runtimeErrorReceived "timeout",
      .userMessageReceived [], .modelCompleted echoCall (.new 0 0)] := by
  intro hfinal
  have haborted := (hfinal [.userMessageReceived [], .userMessageReceived [],
    .modelCompleted echoCall (.new 0 0)] _ rfl rfl).1
  cases haborted

end Behest.Machine
