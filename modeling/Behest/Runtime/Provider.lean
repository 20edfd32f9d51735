import Behest.Runtime.World

/-!
# Providers

Chat providers as the runtime sees them: capabilities, a complete call and a streamed call
(`behest-provider/src/traits.rs`), and the registry that finds them by identifier. A stream
is the finite list of what its consumer receives, where `idle` is the provider timeout
passing between two events.
-/

namespace Behest

/-- The capabilities the runtime reads. Source: `behest-core/src/capabilities.rs:11–48`. -/
structure Capabilities where
  chatStream : Bool
  maxInputTokens : Option Nat
  maxOutputTokens : Option Nat

/-- Source: `behest-core/src/events.rs:13–52`. -/
inductive ChatStreamEvent where
  | started
  | textDelta (delta : String)
  | toolCallStarted (id name : String)
  | toolCallArgumentsDelta (id delta : String)
  | toolCallCompleted (call : ToolCall)
  | finished (finishReason : FinishReason) (usage : Option TokenUsage)

/-- What the consumer of a stream receives. -/
inductive StreamItem where
  | event (e : ChatStreamEvent)
  | failed (e : ProviderError)
  | idle

/-- Source: `behest-provider/src/traits.rs:28–59`. -/
structure ChatProvider where
  id : String
  capabilities : Capabilities
  complete : World → ChatRequest → Except ProviderError ChatResponse
  stream : World → ChatRequest → Except ProviderError (List StreamItem)

/-- The chat providers in the iteration order of the source's hash map. -/
structure ProviderRegistry where
  chats : List ChatProvider

namespace ProviderRegistry

/-- Source: `behest-provider/src/registry.rs:62–64`. -/
def chat (registry : ProviderRegistry) (id : String) : Option ChatProvider :=
  registry.chats.find? fun p => p.id == id

/-- Source: `behest-provider/src/registry.rs:73–75`. -/
def chatIds (registry : ProviderRegistry) : List String := registry.chats.map ChatProvider.id

end ProviderRegistry

namespace Host

variable (host : Host)

/-- Ask a provider for a complete response. -/
def complete (provider : ChatProvider) (request : ChatRequest) :
    M (Except ProviderError ChatResponse) := do
  let w ← get
  host.perform (.requested provider.id false request)
  return provider.complete w request

/-- Ask a provider for a stream. -/
def stream (provider : ChatProvider) (request : ChatRequest) :
    M (Except ProviderError (List StreamItem)) := do
  let w ← get
  host.perform (.requested provider.id true request)
  return provider.stream w request

end Host

/-- The request of an action that asks a provider. -/
def Action.asked : Action → Option ChatRequest
  | .requested _ _ request => some request
  | _ => none

end Behest
