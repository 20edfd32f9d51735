import Behest.Runtime.Calls
import Behest.Tool.Output

/-!
# The tool runtime

`behest-runtime/src/tool_runtime.rs`: one call is looked up, validated, run against a
timeout and turned into a tool message; a batch runs its concurrency-safe calls together
and the others one by one, records every execution, and returns the outcomes in the order
of the calls. Calls that run together complete here one after the other; `Tool.Parallel` has
their interleaving.
-/

namespace Behest

open Effect

/-- How the execution of a tool ends. -/
inductive ToolAnswer where
  | finished (value : Value)
  | errored (e : ToolError)
  | elapsed

/-- Source: `behest-tool/src/lib.rs:102–204`. -/
structure Tool where
  spec : ToolSpec
  isConcurrencySafe : Bool
  execute : World → Value → ToolAnswer

/-- The tools visible to a run. -/
structure ToolRegistry where
  tools : List Tool

namespace ToolRegistry

def get (registry : ToolRegistry) (name : String) : Option Tool :=
  registry.tools.find? fun t => t.spec.name == name

def specs (registry : ToolRegistry) : List ToolSpec := registry.tools.map Tool.spec

end ToolRegistry

/-- Source: `tool_runtime.rs:43–47`. -/
structure ToolRuntime where
  registry : ToolRegistry
  policy : RuntimePolicy

/-- The outcome of a call that ended in an error whose text is shown to the model. -/
def ToolExecutionOutcome.failed (call : ToolCall) (e : ToolError) (text : String) :
    ToolExecutionOutcome :=
  ⟨call, .error e, .toolText call.id call.name ("\x7b\"error\":\"" ++ text ++ "\"\x7d")⟩

namespace ToolRuntime

variable (host : Host) (rt : ToolRuntime)

/-- `none` when the arguments are accepted. Source: `tool_runtime.rs:321–338`. -/
def validateArguments (schema arguments : Value) : Option String :=
  if schema.isObject then
    (host.validate schema arguments).map fun errors =>
      "validation errors: " ++ String.intercalate "; " errors
  else none

/-- An error of one call: the batch fails with it, or it becomes the outcome. -/
def failedOutcome (call : ToolCall) (e : ToolError) (text : String) (thrown : RuntimeError) :
    Except RuntimeError ToolExecutionOutcome :=
  if rt.policy.continueOnToolFailure then .ok (.failed call e text) else .error thrown

/-- The outcome of a call that reached its tool. Source: `tool_runtime.rs:264–318`. -/
def outcomeOf (call : ToolCall) : ToolAnswer → Except RuntimeError ToolExecutionOutcome
  | .finished value =>
      let text := ToolOutput.truncateOutput value.render rt.policy.toolOutput (some call.name)
      .ok ⟨call, .ok value, .toolText call.id call.name text⟩
  | .errored e => rt.failedOutcome call e e.display (.tool e)
  | .elapsed =>
      let text := "tool execution timeout after " ++ rt.policy.toolTimeout.debug
      rt.failedOutcome call (.execution call.name text) text (.toolTimeout call.name)

/-- Source: `tool_runtime.rs:213–319`. -/
def executeSingle (call : ToolCall) : M (Except RuntimeError ToolExecutionOutcome) :=
  match rt.registry.get call.name with
  | none =>
      let e := ToolError.notFound call.name
      return rt.failedOutcome call e ("tool not found: " ++ call.name) (.tool e)
  | some tool =>
      match validateArguments host tool.spec.parametersSchema call.arguments with
      | some message =>
          let e := ToolError.invalidArguments call.name message
          return rt.failedOutcome call e message (.tool e)
      | none => do
          let w ← get
          host.perform (.toolCalled call)
          return rt.outcomeOf call (tool.execute w call.arguments)

/-- A fault of the execution store is only logged. Source: `tool_runtime.rs:340–367`. -/
def recordExecution (sessionId messageId : Uuid) (outcome : ToolExecutionOutcome) : M Unit := do
  let id ← host.newId
  let createdAt ← host.readClock
  let execution : ToolExecution :=
    { id, sessionId, messageId, callId := outcome.call.id, toolName := outcome.call.name,
      arguments := outcome.call.arguments, result := outcome.output.toOption,
      status := match outcome.output with
        | .ok _ => .success
        | .error _ => .failed
      error := match outcome.output with
        | .ok _ => none
        | .error e => some e.display
      duration := ⟨0⟩, createdAt }
  let w ← get
  host.perform (.recordedExecution execution (host.executionFault w))

/-- The calls of one group with their positions. -/
abbrev Indexed := Nat × ToolCall

/-- Run the calls of the concurrent group; all of them finish before any result is read. -/
def runConcurrent (group : List Indexed) :
    M (List (Nat × Except RuntimeError ToolExecutionOutcome)) :=
  group.mapM fun entry => do
    let result ← rt.executeSingle host entry.2
    return (entry.1, result)

/-- Record the results of the concurrent group up to the first error. -/
def settleConcurrent (sessionId messageId : Uuid)
    (results : List (Nat × Except RuntimeError ToolExecutionOutcome)) :
    M (List (Nat × ToolExecutionOutcome)) :=
  results.mapM fun entry => do
    match entry.2 with
    | .error e => fail e
    | .ok outcome =>
        recordExecution host sessionId messageId outcome
        return (entry.1, outcome)

/-- Run and record the other calls one at a time. -/
def runExclusive (sessionId messageId : Uuid) (group : List Indexed) :
    M (List (Nat × ToolExecutionOutcome)) :=
  group.mapM fun entry => do
    match ← rt.executeSingle host entry.2 with
    | .error e => fail e
    | .ok outcome =>
        recordExecution host sessionId messageId outcome
        return (entry.1, outcome)

/-- The results by position; a missing one is unreachable. -/
def inOrder (count : Nat) (results : List (Nat × ToolExecutionOutcome)) :
    Option (List ToolExecutionOutcome) :=
  (List.range count).mapM fun i => (results.find? fun entry => entry.1 == i).map Prod.snd

/-- The call may run beside others. -/
def isConcurrent (call : ToolCall) : Bool :=
  match rt.registry.get call.name with
  | some tool => tool.isConcurrencySafe
  | none => false

/-- Source: `tool_runtime.rs:115–211`. -/
def executeBatch (calls : List ToolCall) (sessionId messageId : Uuid) :
    M (List ToolExecutionOutcome) := do
  let indexed := calls.zipIdx.map Prod.swap
  let concurrentGroup := indexed.filter fun entry => rt.isConcurrent entry.2
  let exclusiveGroup := indexed.filter fun entry => !rt.isConcurrent entry.2
  let concurrent ← settleConcurrent host sessionId messageId
    (← rt.runConcurrent host concurrentGroup)
  let exclusive ← rt.runExclusive host sessionId messageId exclusiveGroup
  match inOrder calls.length (concurrent ++ exclusive) with
  | some outcomes => return outcomes
  | none => throw Stop.panicked

end ToolRuntime

end Behest
