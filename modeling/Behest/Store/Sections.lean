import Behest.Effect.Crowd
import Behest.Store.Cascade

/-!
# Concurrent calls of the in-memory session store

`MemorySessionStore` (`behest-store/src/memory/session.rs`) guards each of its three maps by a
lock of its own. A call is a sequence of sections, each under one lock and indivisible;
`create_session` keeps the sessions while it waits for the messages, and `delete_session` keeps
the messages while it cleans the index. Where no deletion drops the messages of a session from
under an append, and no session is created over its messages, every message belongs to a session
when all calls have returned.
-/

namespace Behest

open Effect

namespace MemoryState

/-- A call of the store. -/
inductive SessionOp where
  | createSession (id : Uuid)
  | deleteSession (id : Uuid)
  | appendMessage (message : MessageRecord)
  | listMessages (sessionId : Uuid)
  | updateUsage (messageId : Uuid) (usage : TokenUsage)

/-- What a call returns. -/
inductive Answer where
  | created (id : Uuid)
  | deleted
  | appended (message : MessageRecord)
  | listed (messages : List MessageRecord)
  | updated

/-- Where a call stands. -/
inductive SectionPhase where
  | starting
  /-- `create_session` keeps the sessions and waits for the messages. -/
  | inserted
  /-- `delete_session` has removed the session. -/
  | removed
  /-- `delete_session` keeps the messages and has dropped those of the session. -/
  | dropped (records : List MessageRecord)
  /-- `append_message` has found the session. -/
  | checked
  /-- `append_message` has pushed the message. -/
  | pushed
  /-- `update_usage` has found the session of the message. -/
  | found (sessionId : Uuid)
  | ended (answer : Except StorageError Answer)

/-- A call under way. -/
structure SessionCall where
  op : SessionOp
  phase : SectionPhase

/-- The maps, and the two locks that a call may keep from one section to the next. -/
structure Guarded where
  store : MemoryState
  sessionsKept : Bool
  messagesKept : Bool

abbrev SessionCrowd := Crowd SessionCall Guarded

def start (op : SessionOp) : SessionCall := ⟨op, .starting⟩

/-- No session, no call. -/
def idle : SessionCrowd := ⟨[], ⟨⟨[], fun _ => none, fun _ => none⟩, false, false⟩⟩

def Guarded.putMessages (s : Guarded) (id : Uuid) (records : Option (List MessageRecord)) :
    Guarded :=
  { s with store := { s.store with messages := Function.update s.store.messages id records } }

/-- The next section of a call; `none` when it has to wait, or has returned.
Source: `memory/session.rs:36–66, 86–146`. -/
def move (c : SessionCall) (s : Guarded) : Option (SessionCall × Guarded) :=
  match c.op, c.phase with
  | .createSession id, .starting =>
      if s.sessionsKept then none else
        some ({ c with phase := .inserted },
          { s with
            store := { s.store with sessions := id :: s.store.sessions }
            sessionsKept := true })
  | .createSession id, .inserted =>
      if s.messagesKept then none else
        some ({ c with phase := .ended (.ok (.created id)) },
          { s.putMessages id (some []) with sessionsKept := false })
  | .deleteSession id, .starting =>
      if s.sessionsKept then none else
        some ({ c with phase := .removed },
          { s with store := { s.store with sessions := s.store.sessions.filter (· != id) } })
  | .deleteSession id, .removed =>
      if s.messagesKept then none else
        match s.store.messages id with
        | some records =>
            some ({ c with phase := .dropped records },
              { s.putMessages id none with messagesKept := true })
        | none => some ({ c with phase := .ended (.ok .deleted) }, s)
  | .deleteSession _, .dropped records =>
      some ({ c with phase := .ended (.ok .deleted) },
        { s with
          store := { s.store with
            messageIndex := MemorySessionStore.unindex s.store.messageIndex records }
          messagesKept := false })
  | .appendMessage message, .starting =>
      if s.sessionsKept then none else
        if message.sessionId ∈ s.store.sessions then some ({ c with phase := .checked }, s)
        else some ({ c with phase := .ended (.error (.notFound message.sessionId.display)) }, s)
  | .appendMessage message, .checked =>
      if s.messagesKept then none else
        some ({ c with phase := .pushed }, s.putMessages message.sessionId
          (some ((s.store.messages message.sessionId).getD [] ++ [message])))
  | .appendMessage message, .pushed =>
      some ({ c with phase := .ended (.ok (.appended message)) },
        { s with store := { s.store with
          messageIndex :=
            Function.update s.store.messageIndex message.id (some message.sessionId) } })
  | .listMessages sessionId, .starting =>
      if s.messagesKept then none else
        some ({ c with phase := .ended (.ok (.listed ((s.store.messages sessionId).getD []))) }, s)
  | .updateUsage messageId _, .starting =>
      match s.store.messageIndex messageId with
      | some sessionId => some ({ c with phase := .found sessionId }, s)
      | none => some ({ c with phase := .ended (.error (.notFound messageId.display)) }, s)
  | .updateUsage messageId usage, .found sessionId =>
      if s.messagesKept then none else
        match (s.store.messages sessionId).bind (setUsage messageId usage) with
        | some records =>
            some ({ c with phase := .ended (.ok .updated) }, s.putMessages sessionId (some records))
        | none => some ({ c with phase := .ended (.error (.notFound messageId.display)) }, s)
  | _, _ => none

/-- A call that has returned, with no lock kept. -/
def outcome (op : SessionOp) (answer : Answer) (s : MemoryState)
    (result : Except StorageError MemoryState) : SessionCall × Guarded :=
  match result with
  | .ok s' => (⟨op, .ended (.ok answer)⟩, ⟨s', false, false⟩)
  | .error e => (⟨op, .ended (.error e)⟩, ⟨s, false, false⟩)

/-- Alone, the sections are the calls of the sequential store. -/
theorem sections_createSession (s : MemoryState) (id : Uuid) :
    Crowd.alone move 2 (start (.createSession id)) ⟨s, false, false⟩ =
      outcome (.createSession id) (.created id) s (s.createSession id) := rfl

theorem sections_appendMessage (s : MemoryState) (message : MessageRecord) :
    Crowd.alone move 3 (start (.appendMessage message)) ⟨s, false, false⟩ =
      outcome (.appendMessage message) (.appended message) s (s.appendMessage message) := by
  by_cases h : message.sessionId ∈ s.sessions
  · simp [Crowd.alone, move, start, outcome, MemoryState.appendMessage, Guarded.putMessages, h]
  · simp [Crowd.alone, move, start, outcome, MemoryState.appendMessage, h]

theorem sections_updateUsage (s : MemoryState) (messageId : Uuid) (usage : TokenUsage) :
    Crowd.alone move 2 (start (.updateUsage messageId usage)) ⟨s, false, false⟩ =
      outcome (.updateUsage messageId usage) .updated s (s.updateUsage messageId usage) := by
  unfold MemoryState.updateUsage
  cases hindex : s.messageIndex messageId with
  | none => simp [Crowd.alone, move, start, outcome, hindex]
  | some sessionId =>
    cases hset : (s.messages sessionId).bind (setUsage messageId usage) with
    | none => simp [Crowd.alone, move, start, outcome, hindex, hset]
    | some records => simp [Crowd.alone, move, start, outcome, Guarded.putMessages, hindex, hset]

/-- The session whose messages a creation is about to replace. -/
def creating (c : SessionCall) : Option Uuid :=
  match c.op, c.phase with
  | .createSession id, .inserted => some id
  | _, _ => none

/-- The session that a deletion has removed and whose messages it is about to drop. -/
def removing (c : SessionCall) : Option Uuid :=
  match c.op, c.phase with
  | .deleteSession id, .removed => some id
  | _, _ => none

/-- The messages that a deletion is about to clean from the index. -/
def dropping (c : SessionCall) : Option (List MessageRecord) :=
  match c.op, c.phase with
  | .deleteSession _, .dropped records => some records
  | _, _ => none

/-- The session to which an append is about to push. -/
def pushing (c : SessionCall) : Option Uuid :=
  match c.op, c.phase with
  | .appendMessage message, .checked => some message.sessionId
  | _, _ => none

/-- The message that an append is about to index. -/
def indexing (c : SessionCall) : Option MessageRecord :=
  match c.op, c.phase with
  | .appendMessage message, .pushed => some message
  | _, _ => none

/-- No append to the session stands between its push and its index entry. -/
def settled (id : Uuid) (calls : List SessionCall) : Bool :=
  (calls.filterMap indexing).all fun message => message.sessionId != id

/-- A deletion drops the messages of a session when no append to it is about to index its
message, or to push it to the session that is gone; a creation replaces the messages of its
session when none of them is indexed or about to be. -/
def careful (x : SessionCrowd) : Crowd.Turn SessionOp → Bool
  | .enter _ => true
  | .advance i =>
      match x.calls[i]? with
      | none => true
      | some c =>
          match removing c, creating c with
          | some id, _ => settled id x.calls &&
              (decide (id ∈ x.state.store.sessions) || !(x.calls.filterMap pushing).contains id)
          | _, some id => settled id x.calls &&
              ((x.state.store.messages id).getD []).all
                fun r => x.state.store.messageIndex r.id != some id
          | none, none => true

/-- The message is in the list of the session. -/
def Present (s : MemoryState) (sessionId messageId : Uuid) : Prop :=
  ∃ records, s.messages sessionId = some records ∧ messageId ∈ records.map MessageRecord.id

/-- Messages are kept for sessions that exist, and indexed messages are where the index says. -/
structure Sound (s : MemoryState) : Prop where
  stored : ∀ id, (s.messages id).isSome → id ∈ s.sessions
  indexed : ∀ messageId sessionId, s.messageIndex messageId = some sessionId →
    Present s sessionId messageId

/-- The state between sections: what keeps a map sound at rest, or the call that will restore
it. -/
structure Tracked (x : SessionCrowd) : Prop where
  kept : x.state.sessionsKept = false ∧ x.calls.filterMap creating = [] ∨
    x.state.sessionsKept = true ∧
      ∃ id ∈ x.state.store.sessions, x.calls.filterMap creating = [id]
  stored : ∀ id, (x.state.store.messages id).isSome →
    id ∈ x.state.store.sessions ∨ id ∈ x.calls.filterMap removing
  pushing : ∀ id ∈ x.calls.filterMap pushing,
    id ∈ x.state.store.sessions ∨ id ∈ x.calls.filterMap removing
  indexing : ∀ message ∈ x.calls.filterMap indexing,
    Present x.state.store message.sessionId message.id
  indexed : ∀ messageId sessionId, x.state.store.messageIndex messageId = some sessionId →
    Present x.state.store sessionId messageId ∨
      ∃ records ∈ x.calls.filterMap dropping, messageId ∈ records.map MessageRecord.id

theorem tracked_idle : Tracked idle where
  kept := .inl ⟨rfl, rfl⟩
  stored _ h := by cases h
  pushing _ h := absurd h List.not_mem_nil
  indexing _ h := absurd h List.not_mem_nil
  indexed _ _ h := by cases h

/-- The call has returned. -/
def returned (c : SessionCall) : Bool :=
  match c.phase with
  | .ended _ => true
  | _ => false

/-- What the invariant says when all calls have returned. -/
theorem Tracked.sound {x : SessionCrowd} (h : Tracked x) (hrest : x.calls.all returned = true) :
    Sound x.state.store := by
  have hnone : ∀ {β : Type} (part : SessionCall → Option β),
      (∀ op answer, part ⟨op, .ended answer⟩ = none) → x.calls.filterMap part = [] := by
    intro β part hpart
    rw [List.filterMap_eq_nil_iff]
    intro c hc
    have hreturned := List.all_eq_true.mp hrest c hc
    obtain ⟨op, phase⟩ := c
    cases phase with
    | ended answer => exact hpart op answer
    | _ => cases hreturned
  have hremoving := hnone removing fun op _ => by cases op <;> rfl
  have hdropping := hnone dropping fun op _ => by cases op <;> rfl
  constructor
  · intro id hid
    rcases h.stored id hid with hmem | hmem
    · exact hmem
    · rw [hremoving] at hmem
      exact absurd hmem List.not_mem_nil
  · intro messageId sessionId hindex
    rcases h.indexed messageId sessionId hindex with hpresent | ⟨records, hmem, _⟩
    · exact hpresent
    · rw [hdropping] at hmem
      exact absurd hmem List.not_mem_nil

end MemoryState

end Behest
