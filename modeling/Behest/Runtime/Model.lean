import Behest.Runtime.Agent

/-!
# Model calls

`call_model`, `call_streaming` and `call_complete` of `behest-runtime/src/run_loop.rs`: a
streamed answer where the provider can stream, and a complete answer where it cannot or
where the stream failed for another reason than a timeout. The deltas of a stream are put together
by the accumulator of `behest-runtime/src/accumulator.rs`; its calls are the entries of a hash map,
so the order in which they come out is the host's.
-/

namespace Behest

/-- Source: `accumulator.rs:13–16`. -/
structure StreamAccumulator where
  text : String := ""
  calls : List ToolCallAccumulator := []

namespace StreamAccumulator

/-- Source: `accumulator.rs:26–28`. -/
def appendText (acc : StreamAccumulator) (delta : String) : StreamAccumulator :=
  { acc with text := acc.text ++ delta }

/-- An entry with the same identifier is replaced. Source: `accumulator.rs:31–40`. -/
def startToolCall (acc : StreamAccumulator) (id name : String) : StreamAccumulator :=
  { acc with calls := acc.calls.filter (fun c => c.id != id) ++ [⟨id, name, ""⟩] }

/-- Source: `accumulator.rs:43–47`. -/
def appendToolArguments (acc : StreamAccumulator) (id delta : String) : StreamAccumulator :=
  { acc with calls := acc.calls.map fun c =>
      if c.id == id then { c with arguments := c.arguments ++ delta } else c }

variable (host : Host)

/-- Arguments that are not JSON become null. Source: `accumulator.rs:58–67`. -/
def toolCalls (acc : StreamAccumulator) : List ToolCall :=
  (host.valuesOrder acc.calls).map fun c =>
    ⟨c.id, c.name, (host.parseJson c.arguments).getD .null⟩

/-- Source: `accumulator.rs:75–93`. -/
def toMessage (acc : StreamAccumulator) : Message :=
  .assistant (if acc.text.isEmpty then [] else [.ofText acc.text]) (acc.toolCalls host)

end StreamAccumulator

end Behest

namespace Behest.AgentRuntime

open Effect

/-- Text of an assistant message, if it has any. Source: `run_loop.rs:821–835`. -/
def extractAssistantText : Message → Option String
  | .assistant content _ =>
      let text := String.join (content.map fun
        | .text t _ => t
        | _ => "")
      if text.isEmpty then none else some text
  | _ => none

variable (host : Host)

/-- Read the stream to its end. Source: `run_loop.rs:733–786`. -/
def consumeStream (provider : ChatProvider) (runId : Uuid) (acc : StreamAccumulator)
    (finish : FinishReason) (usage : Option TokenUsage) : List StreamItem → M ModelAnswer
  | [] => return ⟨acc.toMessage host, finish, usage⟩
  | .idle :: _ => fail (.provider (.timeout provider.id))
  | .failed e :: _ => fail (.provider e)
  | .event (.textDelta delta) :: rest => do
      host.emit (.textDelta runId delta)
      consumeStream provider runId (acc.appendText delta) finish usage rest
  | .event (.toolCallStarted id name) :: rest => do
      host.emit (.toolCallStarted runId id name)
      consumeStream provider runId (acc.startToolCall id name) finish usage rest
  | .event (.toolCallArgumentsDelta id delta) :: rest => do
      host.emit (.toolCallDelta runId id delta)
      consumeStream provider runId (acc.appendToolArguments id delta) finish usage rest
  | .event (.toolCallCompleted call) :: rest => do
      host.emit (.toolCallCompleted runId call)
      consumeStream provider runId acc finish usage rest
  | .event (.finished finish usage) :: rest =>
      consumeStream provider runId acc finish usage rest
  | .event .started :: rest => consumeStream provider runId acc finish usage rest

/-- Source: `run_loop.rs:707–789`. -/
def callStreaming (provider : ChatProvider) (request : ChatRequest) (runId : Uuid) :
    M ModelAnswer := do
  let elapsed := host.elapsed (← get)
  let reply ← host.stream provider request
  if elapsed then fail (.provider (.timeout provider.id))
  else
    match reply with
    | .error e => fail (.provider e)
    | .ok items => consumeStream host provider runId {} .stop none items

/-- The events of a complete answer. Source: `run_loop.rs:802–816`. -/
def announce (runId : Uuid) (message : Message) : M Unit := do
  match extractAssistantText message with
  | some text => host.emit (.textDelta runId text)
  | none => pure ()
  message.toolCalls.forM fun call => host.emit (.toolCallCompleted runId call)

/-- Source: `run_loop.rs:791–819`. -/
def callComplete (provider : ChatProvider) (request : ChatRequest) (runId : Uuid) :
    M ModelAnswer := do
  let elapsed := host.elapsed (← get)
  let reply ← host.complete provider request
  if elapsed then fail (.provider (.timeout provider.id))
  else
    match reply with
    | .error e => fail (.provider e)
    | .ok response =>
        announce host runId response.message
        return ⟨response.message, response.finishReason, response.usage⟩

/-- Source: `run_loop.rs:678–705`. -/
def callModel (provider : ChatProvider) (request : ChatRequest) (runId : Uuid) :
    M ModelAnswer := do
  if provider.capabilities.chatStream then
    match ← caught (callStreaming host provider request runId) with
    | .ok answer => return answer
    | .error (.provider (.timeout id)) => fail (.provider (.timeout id))
    | .error _ => callComplete host provider request runId
  else callComplete host provider request runId

end Behest.AgentRuntime
