import Behest.Compaction.Prompt
import Behest.Compaction.Select
import Behest.Runtime.Provider

/-!
# The compaction service

`behest-runtime/src/compaction/mod.rs` and `overflow.rs`: the circuit breaker, the overflow
check, and the two compactions, which summarise the selected head and append a marker and
a summary to the session.
-/

namespace Behest.Compaction

inductive BreakerState where
  | closed
  | opened
deriving DecidableEq

/-- The time of opening, which nothing reads, is left out. Source: `mod.rs:49–62`. -/
structure CompactionCircuitBreaker where
  consecutiveFailures : Nat
  threshold : Nat
  state : BreakerState

namespace CompactionCircuitBreaker

/-- Source: `mod.rs:67–73`. -/
def new (threshold : Nat) : CompactionCircuitBreaker := ⟨0, threshold, .closed⟩

/-- Source: `mod.rs:102–104`. -/
def isOpen (b : CompactionCircuitBreaker) : Bool := b.state == .opened

/-- Source: `mod.rs:77–80`. -/
def recordSuccess (b : CompactionCircuitBreaker) : CompactionCircuitBreaker :=
  { b with consecutiveFailures := 0, state := .closed }

/-- The flag says that the breaker has just opened. Source: `mod.rs:85–97`. -/
def recordFailure (b : CompactionCircuitBreaker) : Bool × CompactionCircuitBreaker :=
  if b.isOpen then (false, b)
  else if b.consecutiveFailures + 1 ≥ b.threshold then
    (true, { b with consecutiveFailures := b.consecutiveFailures + 1, state := .opened })
  else (false, { b with consecutiveFailures := b.consecutiveFailures + 1 })

end CompactionCircuitBreaker

/-! ### Overflow -/

def usizeMax : Nat := 2 ^ 64 - 1

/-- Source: `overflow.rs:13`. -/
def compactionBuffer : Nat := 20000

/-- Source: `overflow.rs:28–39`. -/
def usableTokens (modelContext maxOutput : Nat) (reserved : Option Nat) : Nat :=
  if modelContext = 0 then usizeMax
  else modelContext - maxOutput - reserved.getD (min compactionBuffer maxOutput)

/-- Source: `overflow.rs:53–65`. -/
def isOverflow (totalTokens modelContext maxOutput : Nat) (autoEnabled : Bool) : Bool :=
  if !autoEnabled || modelContext == 0 then false
  else decide (usableTokens modelContext maxOutput none ≤ totalTokens)

/-! ### The service -/

/-- Source: `mod.rs:122–127`. -/
structure CompactionService where
  providers : ProviderRegistry
  config : CompactionConfig

/-- Plain text of a message. Source: `mod.rs:386–405`. -/
def extractTextContent (message : Message) : String :=
  String.join (message.content.map fun
    | .text t _ => t
    | _ => "")

/-- The marker of a compaction. Source: `mod.rs:269–284`. -/
def compactionMarker (id createdAt : Nat) (sessionId tailStartId : Uuid) : MessageRecord :=
  { MessageRecord.new id createdAt sessionId .user [.ofText "[compaction]"] with
    isCompaction := true, compactionMeta := some (.new tailStartId) }

/-- The summary of a compaction. Source: `mod.rs:290–308`. -/
def compactionSummary (id createdAt : Nat) (sessionId tailStartId : Uuid) (summaryText : String) :
    MessageRecord :=
  { MessageRecord.new id createdAt sessionId .assistant [.ofText summaryText] with
    isSummary := true
    compactionMeta := some ((CompactionMeta.new tailStartId).withSummary summaryText) }

/-- The marker returned by `get_latest_compaction`. Source: `behest-store/src/lib.rs:615–618`. -/
def latestCompaction (messages : List MessageRecord) : Option MessageRecord :=
  messages.reverse.find? MessageRecord.isCompaction

namespace CompactionService

variable (host : Host) (service : CompactionService)

/-- Source: `mod.rs:359–383`. -/
def resolveCompactionProvider : Except RuntimeError (ChatProvider × String) :=
  match service.config.provider.or service.providers.chatIds.head? with
  | none => .error (.providerNotFound "no provider configured for compaction")
  | some providerId =>
      match service.providers.chat providerId with
      | none => .error (.providerNotFound providerId)
      | some provider => .ok (provider, service.config.model.getD "gpt-4o-mini")

/-- The request sent to the compaction model. -/
def compactionRequest (model prompt : String) : ChatRequest :=
  ⟨model, [.userText prompt], [], .auto⟩

/-- Source: `mod.rs:329–353`. -/
def runCompactionLlm (provider : ChatProvider) (model prompt : String) : M String := do
  match ← host.complete provider (compactionRequest model prompt) with
  | .error e => fail (.provider e)
  | .ok response =>
      let summary := extractTextContent response.message
      if summary.isEmpty then
        fail (.provider (.decode provider.id "compaction LLM returned empty response"))
      else return summary

/-- What `compact_impl` returns when there is nothing to compact. -/
def nothingCompacted : CompactionResult := ⟨"", Uuid.nil, Uuid.nil, Uuid.nil, 0⟩

/-- Append the marker and the summary. Source: `mod.rs:268–313`. -/
def appendPair (sessionId tailStartId : Uuid) (summaryText : String) : M (Uuid × Uuid) := do
  let compactionUserId ← host.newId
  let createdAt ← host.readClock
  host.onSession
    (.appendMessage (compactionMarker compactionUserId createdAt sessionId tailStartId))
  let summaryMessageId ← host.newId
  let createdAt ← host.readClock
  host.onSession (.appendMessage
    (compactionSummary summaryMessageId createdAt sessionId tailStartId summaryText))
  return (compactionUserId, summaryMessageId)

/-- Source: `mod.rs:235–326`. -/
def compactImpl (messages : List MessageRecord) (provider : ChatProvider) (model : String)
    (sessionId : Uuid) (keepTokensOverride : Option Nat) : M CompactionResult := do
  let effectiveKeep := keepTokensOverride.getD service.config.keepTokens
  let selection := select messages service.config.tailTurns effectiveKeep
  if selection.head.isEmpty then return nothingCompacted
  let tailStartId := selection.tailStartId.getD Uuid.nil
  host.onSession (.getLatestCompaction sessionId)
  let previousSummary := ((latestCompaction ((← get).messages sessionId)).bind
    MessageRecord.compactionMeta).bind CompactionMeta.summaryText
  let summaryText ← runCompactionLlm host provider model
    (buildPrompt selection.head previousSummary)
  let (compactionUserId, summaryMessageId) ← appendPair host sessionId tailStartId summaryText
  return ⟨summaryText, compactionUserId, summaryMessageId, tailStartId,
    estimateRecordsTokens selection.head - estimateTokens summaryText⟩

/-- Source: `mod.rs:166–184`. -/
def compactIfNeeded (messages : List MessageRecord) (modelContext maxOutput : Nat)
    (sessionId : Uuid) : M (Option CompactionResult) := do
  if !isOverflow (estimateRecordsTokens messages) modelContext maxOutput service.config.auto then
    return none
  match service.resolveCompactionProvider with
  | .error e => fail e
  | .ok (provider, model) =>
      let result ← compactImpl host service messages provider model sessionId none
      return some result

/-- The budget kept by a reactive compaction. Source: `mod.rs:213–218`. -/
def safeKeep (modelContext : Nat) : Nat :=
  min (max (modelContext / 2) 1024) service.config.keepTokens

/-- Source: `mod.rs:197–229`. -/
def compactAfterOverflow (messages : List MessageRecord) (modelContext : Nat)
    (sessionId : Uuid) : M CompactionResult :=
  match service.resolveCompactionProvider with
  | .error e => fail e
  | .ok (provider, model) =>
      compactImpl host service messages provider model sessionId
        (some (service.safeKeep modelContext))

end CompactionService

end Behest.Compaction
