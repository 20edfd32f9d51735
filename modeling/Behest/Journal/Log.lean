import Behest.Core.Message

/-!
# The session journal

The append-only log of what happened in a conversation, and the prompt that is projected
from it (`behest-core/src/journal.rs`). Offsets are natural numbers.
-/

namespace Behest

/-- Source: `behest-core/src/journal.rs:76–89`. -/
structure ToolResult where
  callId : String
  toolName : String
  output : String
  isError : Bool
  value : Option Value

/-- A summary of the events before an offset. Source: `behest-core/src/journal.rs:317–324`. -/
structure SessionCheckpoint where
  compactedUntilOffset : Nat
  summary : Option String
  preservedMessages : List Message

/-- Source: `behest-core/src/journal.rs:328–348`. -/
inductive CompactionBoundary where
  | microcompact (tokensFreed : Nat)
  | autocompact (groupsDropped tokensFreed : Nat)
  | fullCompact (summaryChars tokensFreed : Nat)

/-- Source: `behest-core/src/journal.rs:39–70`. -/
inductive SessionEvent where
  | inputReceived (input : String)
  | messageAppended (message : Message)
  | toolCallStarted (call : ToolCall)
  | toolCallFinished (result : ToolResult)
  | checkpointCreated (checkpoint : SessionCheckpoint)
  | compactionBoundary (boundary : CompactionBoundary)

/-- Source: `behest-core/src/journal.rs:133–140`. -/
structure LogEntry where
  offset : Nat
  timestampMs : Nat
  event : SessionEvent

/-- Source: `behest-core/src/journal.rs:147–150`. -/
structure Journal where
  entries : List LogEntry
  nextOffset : Nat

/-- The conversation as a provider is sent it. Source: `behest-core/src/journal.rs:352–359`. -/
structure PromptProjection where
  summary : Option String
  messages : List Message
  openToolCalls : List ToolCall

/-! ### Open calls -/

/-- Open a call unless one with its identifier is open.
Source: `behest-core/src/journal.rs:277–279, 284–286`. -/
def openCall (calls : List ToolCall) (call : ToolCall) : List ToolCall :=
  if calls.any (fun c => c.id == call.id) then calls else calls ++ [call]

/-- Source: `behest-core/src/journal.rs:289`. -/
def closeCall (calls : List ToolCall) (callId : String) : List ToolCall :=
  calls.filter fun c => c.id != callId

/-- Source: `behest-core/src/journal.rs:443–453`. -/
def reopenMessage (calls : List ToolCall) (message : Message) : List ToolCall :=
  let calls := message.toolCalls.foldl openCall calls
  match message with
  | .tool toolCallId _ _ => closeCall calls toolCallId
  | _ => calls

/-- The calls that messages leave open. Source: `behest-core/src/journal.rs:439–457`. -/
def reopenToolCalls (messages : List Message) : List ToolCall := messages.foldl reopenMessage []

/-! ### The projection -/

namespace PromptProjection

def empty : PromptProjection := ⟨none, [], []⟩

/-- What a checkpoint stands for. Source: `behest-core/src/journal.rs:261–264, 293–296`. -/
def ofCheckpoint (checkpoint : SessionCheckpoint) : PromptProjection where
  summary := checkpoint.summary
  messages := checkpoint.preservedMessages
  openToolCalls := reopenToolCalls checkpoint.preservedMessages

/-- The effect of an event that is not skipped. Source: `behest-core/src/journal.rs:273–301`. -/
def apply (prompt : PromptProjection) : SessionEvent → PromptProjection
  | .messageAppended message => { prompt with
      messages := prompt.messages ++ [message]
      openToolCalls := message.toolCalls.foldl openCall prompt.openToolCalls }
  | .toolCallStarted call => { prompt with openToolCalls := openCall prompt.openToolCalls call }
  | .toolCallFinished result => { prompt with
      openToolCalls := closeCall prompt.openToolCalls result.callId }
  | .checkpointCreated checkpoint => ofCheckpoint checkpoint
  | .inputReceived _ | .compactionBoundary _ => prompt

/-- The effect of several events. -/
def applyAll (prompt : PromptProjection) (events : List SessionEvent) : PromptProjection :=
  events.foldl apply prompt

@[simp] theorem applyAll_nil (prompt : PromptProjection) : prompt.applyAll [] = prompt := rfl

@[simp] theorem applyAll_cons (prompt : PromptProjection) (e : SessionEvent)
    (events : List SessionEvent) :
    prompt.applyAll (e :: events) = (prompt.apply e).applyAll events := rfl

end PromptProjection

/-- The variables of the replay: entries below `compactedUntil` are skipped. -/
structure Replay where
  compactedUntil : Nat
  prompt : PromptProjection

namespace Replay

/-- The replay of the whole log. Source: `behest-core/src/journal.rs:254–257`. -/
def start : Replay := ⟨0, .empty⟩

/-- The replay from a checkpoint on. -/
def ofCheckpoint (checkpoint : SessionCheckpoint) : Replay :=
  ⟨checkpoint.compactedUntilOffset, .ofCheckpoint checkpoint⟩

/-- Where the entries after an event are skipped until. Source: `behest-core/src/journal.rs:293`. -/
def boundaryAfter (compactedUntil : Nat) : SessionEvent → Nat
  | .checkpointCreated checkpoint => checkpoint.compactedUntilOffset
  | _ => compactedUntil

/-- One pass of the loop. Source: `behest-core/src/journal.rs:269–302`. -/
def entry (r : Replay) (e : LogEntry) : Replay :=
  if e.offset < r.compactedUntil then r
  else ⟨boundaryAfter r.compactedUntil e.event, r.prompt.apply e.event⟩

end Replay

namespace Journal

/-- Source: `behest-core/src/journal.rs:170–175`. -/
def new : Journal := ⟨[], 0⟩

/-- Source: `behest-core/src/journal.rs:182–191`. -/
def fromEntries (entries : List LogEntry) : Journal :=
  ⟨entries, (entries.getLast?.map fun e => e.offset + 1).getD 0⟩

/-- Source: `behest-core/src/journal.rs:194–204`. -/
def record (j : Journal) (now : Nat) (event : SessionEvent) : Journal :=
  ⟨j.entries ++ [⟨j.nextOffset, now, event⟩], j.nextOffset + 1⟩

/-- Record events one after the other, each at its time. -/
def recordAll (j : Journal) (events : List (Nat × SessionEvent)) : Journal :=
  events.foldl (fun j e => j.record e.1 e.2) j

/-- Source: `behest-core/src/journal.rs:253–309`. -/
def buildPrompt (j : Journal) (checkpoints : List SessionCheckpoint) : PromptProjection :=
  let start := match checkpoints.getLast? with
    | some checkpoint => Replay.ofCheckpoint checkpoint
    | none => .start
  (j.entries.foldl Replay.entry start).prompt

/-- The entries at which events are recorded from an offset on. -/
def entriesFrom (offset : Nat) : List (Nat × SessionEvent) → List LogEntry
  | [] => []
  | (now, event) :: rest => ⟨offset, now, event⟩ :: entriesFrom (offset + 1) rest

theorem entries_recordAll (j : Journal) (events : List (Nat × SessionEvent)) :
    (j.recordAll events).entries = j.entries ++ entriesFrom j.nextOffset events := by
  induction events generalizing j with
  | nil => simp [recordAll, entriesFrom]
  | cons e rest ih =>
    change ((j.record e.1 e.2).recordAll rest).entries = _
    rw [ih, record, entriesFrom, List.append_assoc, List.singleton_append]

end Journal

end Behest
