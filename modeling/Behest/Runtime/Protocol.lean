import Behest.Compaction.Spec
import Behest.Effect.Trail
import Behest.Runtime.Entry
import Behest.Tool.Batch

/-!
# The protocol of a run

What a run does to its collaborators, without the loop that does it: the phases between its
decisive actions, and the actions allowed in each phase. A phase holds what the run owes the
session: a response to store, calls to answer, outcomes to store. The protocol reads the
stored messages where a request is built from them.
-/

namespace Behest

open Effect Compaction

/-- A run as its collaborators see it. -/
structure Setting where
  host : Host
  rt : AgentRuntime
  runId : Uuid
  sessionId : Uuid
  request : RunRequest

namespace Setting

/-- The context of the turn loop, once the provider is known. -/
def context (S : Setting) (provider : ChatProvider) : RunContext :=
  S.rt.runContext S.runId S.sessionId provider S.request

end Setting

/-! ### Snapshots -/

/-- The snapshots the turn loop takes. The iteration has been counted, and is within the
limit except where the limit is about to be checked; a snapshot taken after the model has
asked for tools knows the response that did. -/
structure Savable (policy : RuntimePolicy) (s : Snapshot) : Prop where
  state : s.currentState ≠ .compacting ∧ s.currentState ≠ .processingResponse
  started : 1 ≤ s.iteration
  bounded : s.currentState ≠ .checkingPolicy → s.iteration ≤ policy.maxIterations
  asked : s.currentState = .executingTools ∨ s.currentState = .persisting →
    s.lastFinish = some .toolCalls ∧ s.assistantMsgId.isSome ∧
      ∃ message, s.assistantMessage = some message ∧ message.toolCalls ≠ []

/-! ### Phases -/

/-- What a run is about to do. -/
inductive Phase where
  /-- The run exists, its input is not stored yet. -/
  | opening
  /-- Nothing is owed. -/
  | idle
  /-- A request has been built for the model. -/
  | built (iteration : Nat) (request : ChatRequest)
  /-- The request was too long, and the history is to be read for a compaction. -/
  | overflowed
  /-- A compaction is under way. -/
  | compacting (kind : CompactionKind)
  /-- A store failed a compaction that has not reported it yet. -/
  | aborted (kind : CompactionKind)
  /-- The model has answered. -/
  | answered (answer : ModelAnswer)
  /-- The answer is stored; its calls, if it may make any, are open. -/
  | committed (message : Message) (finish : FinishReason)
  /-- The calls are answered, the outcomes are to be stored. -/
  | executed (outcome : ToolExecutionOutcome) (rest : List ToolExecutionOutcome)
  /-- The calls completed a loop. -/
  | condemned
  /-- A compaction failed, and the breaker is about to open. -/
  | tripped
  /-- A compaction failed the run. -/
  | degraded
  /-- A collaborator failed the run. -/
  | halted
  /-- The status of the run is decided. -/
  | closing (status : RunStatus)
  /-- The end of the run was announced. -/
  | ended (status : RunStatus)

namespace Phase

/-- The run goes on. -/
def Live : Phase → Prop
  | opening | idle | built _ _ | compacting _ | answered _ | committed _ _ | executed _ _
  | condemned => True
  | overflowed | aborted _ | tripped | degraded | halted | closing _ | ended _ => False

/-- The run has ended, or nothing more will be done for it. -/
def Over : Phase → Prop
  | degraded | halted | ended _ => True
  | _ => False

/-- Where the refusal of a collaborator leads: a compaction still reports it. -/
def refused : Phase → Phase
  | compacting kind => aborted kind
  | _ => halted

/-- Where a failed compaction leads: the first failure opens a breaker that tolerates none. -/
def afterFailure (threshold : Nat) : Phase := if threshold ≤ 1 then tripped else degraded

/-- The phase in which outcomes are to be stored. -/
def storing : List ToolExecutionOutcome → Phase
  | [] => idle
  | outcome :: rest => executed outcome rest

/-- The outcomes that are to be stored answer their calls. -/
def Honest : Phase → Prop
  | executed outcome rest => ∀ o ∈ outcome :: rest, Answers o.call o
  | _ => True

theorem honest_storing {outcomes : List ToolExecutionOutcome}
    (h : ∀ o ∈ outcomes, Answers o.call o) : (storing outcomes).Honest := by
  cases outcomes with
  | nil => trivial
  | cons outcome rest => exact h

theorem honest_afterFailure (threshold : Nat) : (afterFailure threshold).Honest := by
  unfold afterFailure
  split <;> trivial

@[simp] theorem live_storing (outcomes : List ToolExecutionOutcome) : (storing outcomes).Live := by
  cases outcomes <;> trivial

end Phase

/-- A phase, with the calls seen by the doom loop detector. -/
structure Stage where
  phase : Phase
  detector : DoomLoopDetector

/-! ### Actions -/

namespace Action

/-- A collaborator refuses a call the run depends on. -/
def isFault : Action → Bool
  | session _ fault => fault.isSome
  | run _ fault => fault.isSome
  | snapshot (.delete _) _ => false
  | snapshot _ fault => fault.isSome
  | acquired _ busy => busy
  | providerLookup _ found => !found
  | _ => false

end Action

namespace AgentEvent

/-- The breaker of compactions has opened. -/
def isOpening : AgentEvent → Bool
  | compactionCircuitOpened _ _ => true
  | _ => false

end AgentEvent

namespace Setting

variable (S : Setting)

/-- The actions that change nothing a run is accountable for. -/
def Quiet : Action → Prop
  | .drew | .toolCalled _ | .recordedExecution _ _ | .eventStored _ _ _ | .requested _ _ _ => True
  | .acquired _ busy => busy = false
  | .providerLookup _ found => found = true
  | .emitted event => event.isTerminal = false ∧ event.isOpening = false
  | .session (.createSession _) _ | .session (.appendMessage _) _ => False
  | .session _ fault => fault = none
  | .run (.updateRunStatus id status) fault =>
      id = S.runId ∧ status.isTerminal = false ∧ fault = none
  | .snapshot (.save s) fault => Savable S.rt.policy s ∧ s.runId = S.runId ∧ fault = none
  | .snapshot (.load _) fault => fault = none
  | _ => False

/-- The store accepts a message of the session. -/
def Stores (w : World) (message : Message) (a : Action) : Prop :=
  ∃ id createdAt, let r := messageToRecord id createdAt S.sessionId message
    a = .session (.appendMessage r) none ∧ w.sessionRefusal (.appendMessage r) = none

/-- The request is made of the visible history, with the input when one is given. -/
def Assembled (w : World) (userMessage : Option String) (request : ChatRequest) : Prop :=
  ∃ id fragments tools, (S.rt.context.adapters = [] → fragments = []) ∧
    request = S.rt.context.assemble S.request.model fragments
      (S.rt.context.history id (w.messages S.sessionId)) userMessage tools

/-- One action of a run. -/
inductive Step (w : World) : Stage → Action → Stage → Prop where
  | quiet {p d a} (live : p.Live) (h : S.Quiet a) : Step w ⟨p, d⟩ a ⟨p, d⟩
  | fault {p d a} (live : p.Live) (h : a.isFault = true) : Step w ⟨p, d⟩ a ⟨p.refused, d⟩
  | cleanup {p d} (fault) (ended : p.Over) :
      Step w ⟨p, d⟩ (.snapshot (.delete S.runId) fault) ⟨p, d⟩
  | greet {d a} (h : S.Stores w (.userText S.request.input) a) : Step w ⟨.opening, d⟩ a ⟨.idle, d⟩
  -- compaction
  | considered {d} :
      Step w ⟨.idle, d⟩ (.session (.listMessages S.sessionId) none) ⟨.compacting .proactive, d⟩
  | historyRead {d} :
      Step w ⟨.overflowed, d⟩ (.session (.listMessages S.sessionId) none)
        ⟨.compacting .reactive, d⟩
  | historyRefused {d e} :
      Step w ⟨.overflowed, d⟩ (.session (.listMessages S.sessionId) (some e)) ⟨.halted, d⟩
  | compactionWrite {kind d r} (h : CompactionRecord S.sessionId r)
      (stored : w.sessionRefusal (.appendMessage r) = none) :
      Step w ⟨.compacting kind, d⟩ (.session (.appendMessage r) none) ⟨.compacting kind, d⟩
  | compacted {kind d result} :
      Step w ⟨.compacting kind, d⟩ (.compacted kind (.ok result)) ⟨.idle, d⟩
  | compactionFailed {p d kind e} (hp : p = .compacting kind ∨ p = .aborted kind) :
      Step w ⟨p, d⟩ (.compacted kind (.error e))
        ⟨.afterFailure S.rt.policy.compaction.circuitBreakerThreshold, d⟩
  | breakerOpened {d n} :
      Step w ⟨.tripped, d⟩ (.emitted (.compactionCircuitOpened S.runId n)) ⟨.degraded, d⟩
  -- a request and its answer
  | contextBuilt {d iteration request}
      (h : S.Assembled w (if iteration = 1 then some S.request.input else none) request) :
      Step w ⟨.idle, d⟩ (.contextBuilt (.ok request)) ⟨.built iteration request, d⟩
  | contextDiscarded {d request} :
      Step w ⟨.idle, d⟩ (.contextBuilt (.ok request)) ⟨.idle, d⟩
  | contextFailed {p d e} (hp : p = .idle ∨ p = .halted) :
      Step w ⟨p, d⟩ (.contextBuilt (.error e)) ⟨.halted, d⟩
  | modelAnswered {d iteration request answer} :
      Step w ⟨.built iteration request, d⟩ (.modelAnswered iteration request (.ok answer))
        ⟨.answered answer, d⟩
  | modelOverflowed {d iteration request e} (h : e.isContextOverflow = true) :
      Step w ⟨.built iteration request, d⟩
        (.modelAnswered iteration request (.error (.provider e)))
        ⟨if S.rt.policy.compaction.auto then .overflowed else .idle, d⟩
  | modelFailed {d iteration request e}
      (h : ∀ e', e = .provider e' → e'.isContextOverflow = false) :
      Step w ⟨.built iteration request, d⟩ (.modelAnswered iteration request (.error e))
        ⟨.halted, d⟩
  | commit {d answer a} (h : S.Stores w answer.message a) :
      Step w ⟨.answered answer, d⟩ a ⟨.committed answer.message answer.finish, d⟩
  | recover {d message a} (h : S.Stores w (.userText continuationPrompt) a) :
      Step w ⟨.committed message .length, d⟩ a ⟨.idle, d⟩
  -- tools
  | loopFound {d message found}
      (h : d.checkCalls S.host.callHash message.toolCalls = .error found) :
      Step w ⟨.committed message .toolCalls, d⟩
        (.emitted (.doomLoopDetected S.runId found.description)) ⟨.condemned, d⟩
  | toolsAnswered {d d' message outcomes} (calls : message.toolCalls ≠ [])
      (h : d.checkCalls S.host.callHash message.toolCalls = .ok d')
      (answers : List.Forall₂ Answers message.toolCalls outcomes) :
      Step w ⟨.committed message .toolCalls, d⟩ (.toolsAnswered message.toolCalls (.ok outcomes))
        ⟨.storing outcomes, d'⟩
  | toolsFailed {d message e} :
      Step w ⟨.committed message .toolCalls, d⟩ (.toolsAnswered message.toolCalls (.error e))
        ⟨.halted, d⟩
  | store {d outcome rest a} (h : S.Stores w outcome.message a) :
      Step w ⟨.executed outcome rest, d⟩ a ⟨.storing rest, d⟩
  -- the end
  | failing {p d} (fault) (hp : p = .idle ∨ p = .condemned) :
      Step w ⟨p, d⟩ (.run (.updateRunStatus S.runId .failed) fault) ⟨.closing .failed, d⟩
  | finishing {message finish d} (h : message.toolCalls = [] ∨ finish ≠ .toolCalls) :
      Step w ⟨.committed message finish, d⟩ (.run (.updateRunStatus S.runId .completed) none)
        ⟨.closing .completed, d⟩
  | announceFailure {d text} :
      Step w ⟨.closing .failed, d⟩ (.emitted (.runFailed S.runId text)) ⟨.ended .failed, d⟩
  | announceCompletion {d finish iterations} :
      Step w ⟨.closing .completed, d⟩ (.emitted (.runCompleted S.runId finish iterations))
        ⟨.ended .completed, d⟩

variable {S : Setting} {w w' : World} {st st' : Stage} {as : List Action}

/-- Only snapshots that can be saved are saved. -/
theorem Step.savable {s : Snapshot} (h : S.Step w st (.snapshot (.save s) none) st') :
    Savable S.rt.policy s ∧ s.runId = S.runId := by
  cases h with
  | quiet _ h => exact ⟨h.1, h.2.1⟩
  | fault _ h => cases h
  | greet h | commit h | recover h | store h =>
    obtain ⟨_, _, ha, _⟩ := h
    cases ha

theorem savable_of_trail {s : Snapshot} (h : Trail World.apply S.Step w st as w' st')
    (hs : .snapshot (.save s) none ∈ as) : Savable S.rt.policy s ∧ s.runId = S.runId := by
  obtain ⟨before, after, rfl⟩ := List.append_of_mem hs
  obtain ⟨_, _, _, _, hstep, _⟩ := h.split
  exact hstep.savable

/-! ### What the session holds -/

theorem Quiet.not_touches {a : Action} (h : S.Quiet a) : ¬ a.touchesMessages := by
  cases a with
  | session op fault => cases op <;> first | exact h.elim | (cases h; exact nofun)
  | _ => exact nofun

theorem not_touches_of_isFault {a : Action} (h : a.isFault = true) : ¬ a.touchesMessages := by
  cases a with
  | session op fault =>
    cases fault with
    | none => cases h
    | some e => cases op <;> exact nofun
  | _ => exact nofun

/-- A message that is stored is the last one the session holds. -/
theorem Stores.messages {a : Action} {message : Message} (h : S.Stores w message a) :
    ∃ r, a = .session (.appendMessage r) none ∧ r.isOrdinary = true ∧
      recordToMessage r = message ∧
      (w.apply a).messages S.sessionId = w.messages S.sessionId ++ [r] := by
  obtain ⟨id, createdAt, rfl, hstored⟩ := h
  refine ⟨_, rfl, isOrdinary_messageToRecord _ _ _ _, recordToMessage_messageToRecord _ _ _ _, ?_⟩
  apply World.messages_append _ hstored
  cases message <;> rfl

/-- A step leaves the session as it is, or adds a record to it. -/
theorem Step.messages {a : Action} (h : S.Step w st a st') :
    ¬ a.touchesMessages ∨ ∃ r, a = .session (.appendMessage r) none ∧
      (w.apply a).messages S.sessionId = w.messages S.sessionId ++ [r] := by
  cases h with
  | quiet _ h => exact .inl h.not_touches
  | fault _ h => exact .inl (not_touches_of_isFault h)
  | greet h | commit h | recover h | store h =>
    obtain ⟨r, ha, -, -, hmessages⟩ := h.messages
    exact .inr ⟨r, ha, hmessages⟩
  | compactionWrite h hstored => exact .inr ⟨_, rfl, World.messages_append h.session hstored⟩
  | _ => exact .inl nofun

/-- The outcomes that are to be stored answer their calls. -/
theorem Step.honest {a : Action} (h : S.Step w st a st') (hst : st.phase.Honest) :
    st'.phase.Honest := by
  cases h with
  | quiet _ _ => exact hst
  | @fault p _ _ _ _ => cases p <;> trivial
  | cleanup _ _ => exact hst
  | compactionFailed _ => exact Phase.honest_afterFailure _
  | modelOverflowed _ => split <;> trivial
  | toolsAnswered _ _ answers => exact Phase.honest_storing (answers_call answers).2
  | store _ => exact Phase.honest_storing fun o ho => hst o (List.mem_cons_of_mem _ ho)
  | _ => trivial

/-- The transcript grows by the actions of a trail. -/
theorem trace_of_trail (h : Trail World.apply S.Step w st as w' st') :
    w'.trace = w.trace ++ as := h.log_eq World.trace World.apply_trace

/-- The actions of a run lead from one world and stage to another. -/
abbrev Follows (w : World) (st : Stage) (w' : World) (st' : Stage) : Prop :=
  Arrives World.apply S.Step w st w' st'

end Setting

end Behest
