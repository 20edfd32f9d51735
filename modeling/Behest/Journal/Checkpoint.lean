import Mathlib.Data.List.Induction
import Behest.Journal.Log

/-!
# Recorded and supplied checkpoints

A checkpoint may be recorded in the log, or handed to the projection. The projection skips
what lies before the boundary of a checkpoint it is handed, and replays the rest. At a
recorded checkpoint it forgets whatever it has replayed so far, also what lies behind the
boundary; this module says when that makes a difference.
-/

namespace Behest

namespace SessionEvent

/-- The event is a checkpoint. -/
def isCheckpoint : SessionEvent → Bool
  | checkpointCreated _ => true
  | _ => false

/-- A checkpoint that is recorded covers only what lies before an offset. -/
def Covers (limit : Nat) : SessionEvent → Prop
  | checkpointCreated checkpoint => checkpoint.compactedUntilOffset ≤ limit
  | _ => True

instance (limit : Nat) (e : SessionEvent) : Decidable (e.Covers limit) := by
  cases e <;> unfold Covers <;> infer_instance

/-- The message that an event appends. -/
def appended : SessionEvent → Option Message
  | messageAppended message => some message
  | _ => none

/-- The effect of an event on the open calls. -/
def onCalls (calls : List ToolCall) : SessionEvent → List ToolCall
  | messageAppended message => message.toolCalls.foldl openCall calls
  | toolCallStarted call => openCall calls call
  | toolCallFinished result => closeCall calls result.callId
  | _ => calls

/-- The calls that are open after some events. -/
def openAfter (calls : List ToolCall) (events : List SessionEvent) : List ToolCall :=
  events.foldl onCalls calls

end SessionEvent

open SessionEvent

namespace PromptProjection

/-- What events without a checkpoint do: they append messages, and open and close calls. -/
theorem applyAll_of_plain {events : List SessionEvent} (h : ∀ e ∈ events, e.isCheckpoint = false)
    (prompt : PromptProjection) :
    prompt.applyAll events = ⟨prompt.summary, prompt.messages ++ events.filterMap appended,
      openAfter prompt.openToolCalls events⟩ := by
  induction events generalizing prompt with
  | nil => simp [openAfter]
  | cons e rest ih =>
    rw [applyAll_cons, ih fun e' he' => h e' (List.mem_cons_of_mem _ he')]
    cases e with
    | checkpointCreated checkpoint => cases h _ (List.mem_cons_self ..)
    | messageAppended message => simp [apply, appended, openAfter, onCalls]
    | _ => rfl

end PromptProjection

/-! ### What the replay counts -/

/-- The events that the replay of a log does not skip. -/
def counted (compactedUntil : Nat) : List LogEntry → List SessionEvent
  | [] => []
  | e :: rest =>
      if e.offset < compactedUntil then counted compactedUntil rest
      else e.event :: counted (Replay.boundaryAfter compactedUntil e.event) rest

/-- The replay applies the events that count. -/
theorem Replay.prompt_foldl (r : Replay) (entries : List LogEntry) :
    (entries.foldl Replay.entry r).prompt =
      r.prompt.applyAll (counted r.compactedUntil entries) := by
  induction entries generalizing r with
  | nil => rfl
  | cons e rest ih =>
    rw [List.foldl_cons, ih, counted, Replay.entry]
    split <;> rfl

/-- Each event is recorded with no checkpoint that covers more than what was recorded before. -/
def CoversFrom (offset : Nat) : List (Nat × SessionEvent) → Prop
  | [] => True
  | e :: rest => e.2.Covers offset ∧ CoversFrom (offset + 1) rest

/-- Nothing that is recorded behind the boundary is skipped. -/
theorem counted_entriesFrom {limit offset compactedUntil : Nat}
    {events : List (Nat × SessionEvent)} (h : CoversFrom limit events)
    (hlimit : limit ≤ offset) (hle : compactedUntil ≤ offset) :
    counted compactedUntil (Journal.entriesFrom offset events) = events.map Prod.snd := by
  induction events generalizing limit offset compactedUntil with
  | nil => rfl
  | cons e rest ih =>
    rw [Journal.entriesFrom, counted, if_neg (by simpa using hle), List.map_cons]
    congr 1
    refine ih h.2 (by omega) ?_
    have he := h.1
    unfold Replay.boundaryAfter
    split
    · next checkpoint hevent =>
      have hcovers : checkpoint.compactedUntilOffset ≤ limit := by
        change e.2 = _ at hevent
        rwa [hevent] at he
      omega
    · exact Nat.le_succ_of_le hle

/-! ### The two projections -/

namespace Journal

variable (j : Journal) (checkpoint : SessionCheckpoint) (now : Nat)
  (further : List (Nat × SessionEvent))

/-- The checkpoint is recorded, and then the further events. -/
def recorded : PromptProjection :=
  ((j.record now (.checkpointCreated checkpoint)).recordAll further).buildPrompt []

/-- The events of a log at and after the boundary of a checkpoint. -/
def behind : List SessionEvent := counted checkpoint.compactedUntilOffset j.entries

/-- The checkpoints of a log, and those recorded later, cover only what was recorded before. -/
structure Covered : Prop where
  log : ∀ e ∈ j.entries, e.event.Covers j.nextOffset
  further : CoversFrom j.nextOffset further

variable {j checkpoint now further}

variable (j checkpoint further)

variable {j checkpoint further}

end Journal

end Behest
