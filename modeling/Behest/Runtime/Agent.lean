import Behest.Compaction.Service
import Behest.Context.Pipeline
import Behest.Tool.Runtime

/-!
# The agent runtime

The components of `behest-runtime/src/agent.rs` and the helpers that its turn loop and its
entry points share. Logging and the optional event publisher are left out.
-/

namespace Behest

open Effect Compaction Context

/-- Source: `agent.rs:40–58`. -/
structure AgentRuntime where
  providers : ProviderRegistry
  context : ContextPipeline
  tools : ToolRuntime
  policy : RuntimePolicy
  compaction : CompactionService
  hasSnapshotStore : Bool

namespace AgentRuntime

/-- Source: `agent.rs:72–110`. -/
def new (providers : ProviderRegistry) (tools : ToolRegistry) (policy : RuntimePolicy)
    (hasSnapshotStore : Bool) : AgentRuntime where
  providers := providers
  context := .new
  tools := ⟨tools, policy⟩
  policy := policy
  compaction := ⟨providers, policy.compaction⟩
  hasSnapshotStore := hasSnapshotStore

variable (host : Host) (rt : AgentRuntime)

/-- Source: `agent.rs:530–536`. -/
def updateStatus (runId : Uuid) (status : RunStatus) : M Unit :=
  host.onRun (.updateRunStatus runId status)

/-- A fault of the status update is only logged. Source: `agent.rs:542–551`. -/
def failRun (runId : Uuid) (e : RuntimeError) : M Unit := do
  let _ ← caught (updateStatus host runId .failed)
  host.emit (.runFailed runId e.display)

/-- Source: `agent.rs:451–456`. -/
def deleteSnapshot (runId : Uuid) : M Unit :=
  if rt.hasSnapshotStore then host.onSnapshot (.delete runId) else pure ()

/-- A fault of an event store is only logged. Source: `agent.rs:493–521`. -/
def emitCacheMetrics (runId : Uuid) (usage : TokenUsage) : M Unit := do
  let creation := usage.cacheCreationInputTokens.getD 0
  let read := usage.cacheReadInputTokens.getD 0
  let cached := usage.cachedInputTokens.getD 0
  if creation == 0 && read == 0 && cached == 0 then return ()
  let event := AgentEvent.cacheMetrics runId creation read cached
  host.emit event
  host.eventStores.forM fun store => do
    host.perform (.eventStored store event (host.eventFault (← get)))

/-- Run a collaborator and enter what it answers in the transcript. -/
def observed {α : Type} (x : M α) (entry : Except RuntimeError α → Action) :
    M (Except RuntimeError α) := do
  let answer ← caught x
  host.perform (entry answer)
  return answer

/-- The `?` on an answer. -/
def orFail {α : Type} : Except RuntimeError α → M α
  | .ok a => pure a
  | .error e => fail e

end AgentRuntime

end Behest
