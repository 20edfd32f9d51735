import Behest.Runtime.DoomLoop
import Behest.Runtime.Model

/-!
# The turn loop

`run_loop_inner` of `behest-runtime/src/run_loop.rs`. A pass goes through six sections, each
gated on the state the loop resumes from; a section goes on to the next one, starts another
pass (`continue`), or leaves the loop (`break`). The loop runs for a bounded number of
passes here, and reports when they were not enough.
-/

namespace Behest

open Effect Compaction

/-- What stays the same during a run. Source: `run_loop.rs:85–91`. -/
structure RunContext where
  runId : Uuid
  sessionId : Uuid
  provider : ChatProvider
  request : RunRequest
  toolSpecs : List ToolSpec
  hasTools : Bool

/-- The variables of the loop. Source: `run_loop.rs:92–100, 144`. -/
structure LoopState where
  resumeFrom : TurnState
  iteration : Nat
  totalUsage : TokenUsage
  lastFinish : Option FinishReason
  assistantMessage : Option Message
  assistantMsgId : Option Uuid
  outputRecoveryCount : Nat
  doomDetector : DoomLoopDetector
  breaker : CompactionCircuitBreaker

/-- How a section ends. -/
inductive Flow (α : Type) where
  | next (a : α)
  | again (l : LoopState)
  | leave (l : LoopState)

/-- Source: `run_loop.rs:474–477`. -/
def continuationPrompt : String :=
  "Your previous response was truncated due to output length limit. " ++
    "Please continue from where you left off."

namespace LoopState

/-- The snapshot taken in a state. Source: `agent.rs:425–440`. -/
def snapshot (l : LoopState) (ctx : RunContext) (state : TurnState) (timestamp : Nat) :
    Snapshot where
  runId := ctx.runId
  sessionId := ctx.sessionId
  status := TurnTransition.statusFor state
  iteration := l.iteration
  currentState := state
  totalUsage := l.totalUsage
  lastFinish := l.lastFinish
  assistantMessage := l.assistantMessage
  assistantMsgId := l.assistantMsgId
  request := ctx.request
  outputRecoveryCount := l.outputRecoveryCount
  timestamp := timestamp

end LoopState

namespace AgentRuntime

variable (host : Host) (rt : AgentRuntime) (ctx : RunContext)

/-- Source: `agent.rs:411–444`. -/
def saveSnapshot (l : LoopState) (state : TurnState) : M Unit :=
  if rt.hasSnapshotStore then do
    let timestamp ← host.readClock
    host.onSnapshot (.save (l.snapshot ctx state timestamp))
  else pure ()

/-- Enter a state: its snapshot, then its status. -/
def enter (l : LoopState) (state : TurnState) : M Unit := do
  saveSnapshot host rt ctx l state
  updateStatus host ctx.runId (TurnTransition.statusFor state)

/-! ### CheckingPolicy -/

/-- Source: `run_loop.rs:170–193`. -/
def policyOutcome (l : LoopState) : TurnOutcome :=
  if l.iteration > rt.policy.maxIterations then
    .policyExceeded ("iteration " ++ toString l.iteration ++ " exceeds limit "
      ++ toString rt.policy.maxIterations)
  else
    match rt.policy.maxTokens with
    | some budget =>
        if l.totalUsage.totalTokens ≥ budget then
          .policyExceeded ("token budget " ++ toString budget ++ " exceeded: "
            ++ toString l.totalUsage.totalTokens ++ " used")
        else .success
    | none => .success

/-- The error of an exceeded policy. Source: `run_loop.rs:197–209`. -/
def policyError (l : LoopState) : RuntimeError :=
  if l.iteration > rt.policy.maxIterations then .iterationLimitExceeded rt.policy.maxIterations
  else .tokenBudgetExceeded l.totalUsage.totalTokens (rt.policy.maxTokens.getD 0)

/-- Source: `run_loop.rs:147–215`. -/
def checkingPolicy (l : LoopState) : M LoopState :=
  if l.resumeFrom = .checkingPolicy then do
    let l := { l with iteration := l.iteration + 1 }
    saveSnapshot host rt ctx l .checkingPolicy
    match TurnTransition.resolve .checkingPolicy (rt.policyOutcome l) with
    | .fail _ =>
        failRun host ctx.runId (rt.policyError l)
        fail (rt.policyError l)
    | .continue _ => return l
    | _ => throw Stop.panicked
  else return l

/-! ### BuildingContext -/

/-- What follows a failed compaction. Source: `run_loop.rs:273–290, 397–416`. -/
def compactionFailed {α : Type} (l : LoopState) (e : RuntimeError) : M α := do
  let (opened, breaker) := l.breaker.recordFailure
  if opened then
    host.emit (.compactionCircuitOpened ctx.runId breaker.consecutiveFailures)
  fail e

/-- Source: `run_loop.rs:240–293`. -/
def proactiveCompaction (l : LoopState) : M LoopState :=
  if rt.policy.compaction.auto && !l.breaker.isOpen then
    match ctx.provider.capabilities.maxInputTokens, ctx.provider.capabilities.maxOutputTokens with
    | some modelContext, some maxOutput => do
        let records ← host.listMessages ctx.sessionId
        match ← observed host
            (rt.compaction.compactIfNeeded host records modelContext maxOutput ctx.sessionId)
            (.compacted .proactive) with
        | .ok (some _) => return { l with breaker := l.breaker.recordSuccess }
        | .ok none => return l
        | .error e => compactionFailed host ctx l e
    | _, _ => return l
  else return l

/-- The input that goes into the request. Source: `run_loop.rs:301–305`. -/
def requestInput (l : LoopState) : Option String :=
  if l.iteration = 1 then some ctx.request.input else none

/-- The tools that go into the request. Source: `run_loop.rs:306`. -/
def requestTools : Option (List ToolSpec) := if ctx.hasTools then some ctx.toolSpecs else none

/-- Source: `run_loop.rs:218–316`. -/
def buildingContext (l : LoopState) : M (LoopState × Option ChatRequest) :=
  if l.resumeFrom = .checkingPolicy ∨ l.resumeFrom = .buildingContext
      ∨ l.resumeFrom = .callingModel then do
    enter host rt ctx l .buildingContext
    let l ← proactiveCompaction host rt ctx l
    let request ← orFail (← observed host
      (rt.context.build host ctx.sessionId ctx.request.model (requestInput ctx l)
        (requestTools ctx))
      .contextBuilt)
    host.emit (.contextBuilt ctx.runId request.messages.length)
    return (l, some request)
  else return (l, none)

/-! ### CallingModel -/

/-- Source: `run_loop.rs:357–365`. -/
def modelOutcome : Except RuntimeError ModelAnswer → TurnOutcome
  | .ok _ => .success
  | .error (.provider e) =>
      if e.isContextOverflow then .contextOverflow else .providerError e.display
  | .error e => .providerError e.display

/-- Source: `run_loop.rs:370–420`. -/
def reactiveCompaction (l : LoopState) : M LoopState :=
  if rt.policy.compaction.auto then do
    let modelContext := ctx.provider.capabilities.maxInputTokens.getD 128000
    let records ← host.listMessages ctx.sessionId
    match ← observed host
        (some <$> rt.compaction.compactAfterOverflow host records modelContext ctx.sessionId)
        (.compacted .reactive) with
    | .ok _ => return { l with breaker := l.breaker.recordSuccess }
    | .error e => compactionFailed host ctx l e
  else return l

/-- Account for an answer and store its message. Source: `run_loop.rs:433–456`. -/
def commitAnswer (l : LoopState) (answer : ModelAnswer) : M LoopState := do
  match answer.usage with
  | some usage =>
      host.emit (.usageRecorded ctx.runId usage)
      emitCacheMetrics host ctx.runId usage
  | none => pure ()
  let msgId ← host.appendMessage ctx.sessionId answer.message
  host.emit (.assistantMessageCommitted ctx.runId msgId)
  return { l with
    totalUsage := match answer.usage with
      | some usage => l.totalUsage.merge usage
      | none => l.totalUsage
    lastFinish := some answer.finish
    assistantMessage := some answer.message
    assistantMsgId := some msgId }

/-- Source: `run_loop.rs:319–460`. -/
def callingModel (l : LoopState) (chatRequest : Option ChatRequest) : M (Flow LoopState) :=
  if l.resumeFrom = .checkingPolicy ∨ l.resumeFrom = .callingModel then do
    let l := { l with resumeFrom := .checkingPolicy }
    enter host rt ctx l .callingModel
    host.emit (.modelStarted ctx.runId ctx.request.provider ctx.request.model l.iteration)
    match chatRequest with
    | none => fail (.recoveryFailed "chat request missing in CallingModel")
    | some request =>
        let answer ← observed host (callModel host ctx.provider request ctx.runId)
          (.modelAnswered l.iteration request)
        match TurnTransition.resolve .callingModel (modelOutcome answer) with
        | .continue _ =>
            let l ← commitAnswer host ctx l (← orFail answer)
            return .next l
        | .compactAndRetry =>
            let l ← reactiveCompaction host rt ctx l
            return .again l
        | .fail _ =>
            match answer with
            | .error e => fail e
            | .ok _ => throw Stop.panicked
        | .breakLoop => throw Stop.panicked
  else return .next l

/-! ### ProcessingResponse -/

/-- Source: `run_loop.rs:496–504`. -/
def responseOutcome (calls : List ToolCall) (finish : FinishReason) : TurnOutcome :=
  if calls.isEmpty then .noToolCalls
  else if finish ≠ .toolCalls then .notToolCalls finish
  else .success

/-- Source: `run_loop.rs:462–525`. -/
def processingResponse (l : LoopState) : M (Flow (LoopState × List ToolCall)) :=
  if l.resumeFrom = .checkingPolicy ∨ l.resumeFrom = .processingResponse then do
    let l := { l with resumeFrom := .checkingPolicy }
    match l.assistantMessage with
    | none => fail (.recoveryFailed "assistant message missing in ProcessingResponse")
    | some message =>
        match l.lastFinish with
        | none => fail (.recoveryFailed "last finish missing in ProcessingResponse")
        | some finish =>
            if finish = .length ∧ l.outputRecoveryCount < rt.policy.maxOutputRecoveryAttempts then
              let _ ← host.appendMessage ctx.sessionId (.userText continuationPrompt)
              match TurnTransition.resolve .processingResponse .outputTruncated with
              | .continue _ =>
                  return .again { l with outputRecoveryCount := l.outputRecoveryCount + 1 }
              | _ => throw Stop.panicked
            else
              match TurnTransition.resolve .processingResponse
                  (responseOutcome message.toolCalls finish) with
              | .breakLoop => return .leave l
              | .continue _ => return .next (l, message.toolCalls)
              | _ => throw Stop.panicked
  else return .next (l, (l.assistantMessage.map Message.toolCalls).getD [])

/-! ### ExecutingTools -/

/-- Record the calls and fail the run at the first loop they complete.
Source: `run_loop.rs:558–588`. -/
def checkDoomLoop (l : LoopState) : List ToolCall → M LoopState
  | [] => return l
  | call :: rest =>
      match l.doomDetector.recordAndCheck host.callHash call.name call.arguments with
      | (some found, _) => do
          host.emit (.doomLoopDetected ctx.runId found.description)
          failRun host ctx.runId (.doomLoopDetected found.description)
          fail (.doomLoopDetected found.description)
      | (none, detector) => checkDoomLoop { l with doomDetector := detector } rest

/-- Store the message of an outcome. Source: `run_loop.rs:600–611`. -/
def storeOutcome (outcome : ToolExecutionOutcome) : M Unit := do
  let toolMsgId ← host.appendMessage ctx.sessionId outcome.message
  host.emit (.toolMessageCommitted ctx.runId toolMsgId)

/-- Source: `run_loop.rs:528–613`. -/
def executingTools (l : LoopState) (toolCalls : List ToolCall) : M LoopState :=
  if l.resumeFrom = .checkingPolicy ∨ l.resumeFrom = .executingTools then do
    let l := { l with resumeFrom := .checkingPolicy }
    enter host rt ctx l .executingTools
    match l.assistantMsgId with
    | none => fail (.recoveryFailed "assistant message ID missing in ExecutingTools")
    | some msgId =>
        let l ← checkDoomLoop host ctx l toolCalls
        let outcomes ← orFail (← observed host
          (rt.tools.executeBatch host toolCalls ctx.sessionId msgId) (.toolsAnswered toolCalls))
        outcomes.forM (storeOutcome host ctx)
        return l
  else return l

/-! ### Persisting -/

/-- Source: `run_loop.rs:632–638`. -/
def persistingOutcome (finish : FinishReason) : TurnOutcome :=
  if finish = .toolCalls then .success else .notToolCalls finish

/-- Source: `run_loop.rs:616–645`. -/
def persisting (l : LoopState) : M (Flow LoopState) :=
  if l.resumeFrom = .checkingPolicy ∨ l.resumeFrom = .persisting then do
    let l := { l with resumeFrom := .checkingPolicy }
    enter host rt ctx l .persisting
    match l.lastFinish with
    | none => fail (.recoveryFailed "last finish missing in Persisting")
    | some finish =>
        match TurnTransition.resolve .persisting (persistingOutcome finish) with
        | .breakLoop => return .leave l
        | .continue _ => return .next l
        | _ => throw Stop.panicked
  else return .next l

/-! ### Closed gates -/

section Skip

variable {host rt ctx} {l : LoopState}

theorem checkingPolicy_skip (h : l.resumeFrom ≠ .checkingPolicy) :
    checkingPolicy host rt ctx l = pure l := if_neg h

theorem buildingContext_skip (h : ¬ (l.resumeFrom = .checkingPolicy ∨
    l.resumeFrom = .buildingContext ∨ l.resumeFrom = .callingModel)) :
    buildingContext host rt ctx l = pure (l, none) := if_neg h

theorem callingModel_skip {request : Option ChatRequest}
    (h : ¬ (l.resumeFrom = .checkingPolicy ∨ l.resumeFrom = .callingModel)) :
    callingModel host rt ctx l request = pure (.next l) := if_neg h

theorem processingResponse_skip (h : ¬ (l.resumeFrom = .checkingPolicy ∨
    l.resumeFrom = .processingResponse)) :
    processingResponse host rt ctx l =
      pure (.next (l, (l.assistantMessage.map Message.toolCalls).getD [])) := if_neg h

theorem executingTools_skip {calls : List ToolCall} (h : ¬ (l.resumeFrom = .checkingPolicy ∨
    l.resumeFrom = .executingTools)) : executingTools host rt ctx l calls = pure l := if_neg h

theorem persisting_skip (h : ¬ (l.resumeFrom = .checkingPolicy ∨ l.resumeFrom = .persisting)) :
    persisting host rt ctx l = pure (.next l) := if_neg h

end Skip

/-! ### The loop -/

/-- The part of a pass after the response. Source: `run_loop.rs:527–648`. -/
def answerCalls (l : LoopState) (toolCalls : List ToolCall) : M (Pass LoopState LoopState) := do
  let l ← executingTools host rt ctx l toolCalls
  match ← persisting host rt ctx l with
  | .again l => return .again l
  | .leave l => return .done l
  | .next l => return .again { l with assistantMessage := none, assistantMsgId := none }

/-- The part of a pass after the model call. Source: `run_loop.rs:462–648`. -/
def respond (l : LoopState) : M (Pass LoopState LoopState) := do
  match ← processingResponse host rt ctx l with
  | .again l => return .again l
  | .leave l => return .done l
  | .next (l, toolCalls) => answerCalls host rt ctx l toolCalls

/-- The part of a pass after the policy check. Source: `run_loop.rs:217–648`. -/
def consult (l : LoopState) : M (Pass LoopState LoopState) := do
  let (l, chatRequest) ← buildingContext host rt ctx l
  match ← callingModel host rt ctx l chatRequest with
  | .again l => return .again l
  | .leave l => return .done l
  | .next l => respond host rt ctx l

/-- One pass. Source: `run_loop.rs:146–648`. -/
def pass (l : LoopState) : M (Pass LoopState LoopState) := do
  let l ← checkingPolicy host rt ctx l
  consult host rt ctx l

/-- Source: `run_loop.rs:651–674`. -/
def completeRun (l : LoopState) : M RunOutput := do
  updateStatus host ctx.runId .completed
  let finish := l.lastFinish.getD .stop
  host.emit (.runCompleted ctx.runId finish l.iteration)
  return ⟨ctx.runId, ctx.sessionId, l.iteration, finish, l.totalUsage⟩

/-- Source: `run_loop.rs:125–675`. -/
def runLoopInner (fuel : Nat) (l : LoopState) : M RunOutput := do
  let l ← iterate (pass host rt ctx) Stop.outOfFuel fuel l
  completeRun host ctx l

/-- Run `x`, then `cleanup` whether `x` returned a value or an error, ignoring the errors of
`cleanup`. -/
def andThen {α : Type} (x : M α) (cleanup : M Unit) : M α := do
  let result ← caught x
  let _ ← caught cleanup
  orFail result

/-- Source: `run_loop.rs:83–122`. -/
def runLoop (fuel : Nat) (l : LoopState) : M RunOutput :=
  andThen (runLoopInner host rt ctx fuel l) (deleteSnapshot host rt ctx.runId)

end AgentRuntime

end Behest
