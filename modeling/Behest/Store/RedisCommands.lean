import Behest.Effect.Crowd
import Behest.Store.Backends

/-!
# The commands of the Redis session store

`append_message` and `update_usage` of `RedisSessionStore`
(`behest-store/src/redis/session.rs`) as sequences of Redis commands without a transaction.
Each command is indivisible; between two of them other calls send theirs, or the connection
breaks. An update reads a member of the sorted set, removes it and adds another one.
-/

namespace Behest

open Effect

namespace RedisState

variable {json : RedisJson}

/-- A call of the store. -/
inductive RedisOp where
  | appendMessage (message : MessageRecord)
  | updateUsage (messageId : Uuid) (usage : TokenUsage)

/-- A call, and after how many commands its connection breaks, if it does, with which message. -/
structure RedisRequest where
  op : RedisOp
  breaks : Option (Nat × String)

/-- Where a call stands. -/
inductive CommandPhase (json : RedisJson) where
  | starting
  /-- `append_message` has found the session. -/
  | verified
  /-- `append_message` has added the message. -/
  | added
  /-- `append_message` has written the index entry of the message. -/
  | indexed
  /-- `update_usage` has read the index entry of the message. -/
  | found (sessionId : Uuid)
  /-- `update_usage` has read the members of the session, the message among them. -/
  | fetched (sessionId : Uuid) (member : json.record.Text) (record : MessageRecord)
  /-- `update_usage` has removed the member. -/
  | removed (sessionId : Uuid) (record : MessageRecord)
  /-- An append returns its message. -/
  | ended (answer : Except StorageError (Option MessageRecord))

/-- A call under way. -/
structure RedisCall (json : RedisJson) where
  request : RedisRequest
  phase : CommandPhase json

/-- The members of a session are other ones. -/
def putMessages (s : RedisState json) (sessionId : Uuid) (zset : List json.Scored) :
    RedisState json :=
  { s with messages := Function.update s.messages sessionId zset }

abbrev RedisCrowd (json : RedisJson) := Crowd (RedisCall json) (RedisState json)

namespace RedisCall

def start (request : RedisRequest) : RedisCall json := ⟨request, .starting⟩

/-- How many commands have been executed. -/
def executed (c : RedisCall json) : Nat :=
  match c.phase with
  | .starting | .ended _ => 0
  | .verified | .found _ => 1
  | .added | .fetched _ _ _ => 2
  | .indexed | .removed _ _ => 3

/-- The connection breaks here. -/
def broken (c : RedisCall json) : Option String :=
  match c.request.breaks with
  | some (n, message) => if n = c.executed then some message else none
  | none => none

def endWith (c : RedisCall json) (answer : Except StorageError (Option MessageRecord)) :
    RedisCall json :=
  { c with phase := .ended answer }

/-- The next command of a call whose connection holds.
Source: `redis/session.rs:140–202, 230–311`. -/
def command (c : RedisCall json) (s : RedisState json) :
    Option (RedisCall json × RedisState json) :=
  match c.request.op, c.phase with
  -- EXISTS
  | .appendMessage message, .starting =>
      if message.sessionId ∈ s.sessions then some ({ c with phase := .verified }, s)
      else some (c.endWith (.error (.notFound message.sessionId.display)), s)
  -- ZADD
  | .appendMessage message, .verified =>
      some ({ c with phase := .added }, s.putMessages message.sessionId
        (zadd (entry json message) (s.messages message.sessionId)))
  -- HSET of the index entry
  | .appendMessage message, .added =>
      some ({ c with phase := .indexed },
        { s with
          messageIndex := Function.update s.messageIndex message.id (some message.sessionId) })
  -- HSET of the session's `updated_at`
  | .appendMessage message, .indexed => some (c.endWith (.ok (some message)), s)
  -- HMGET
  | .updateUsage messageId _, .starting =>
      match s.messageIndex messageId with
      | some sessionId => some ({ c with phase := .found sessionId }, s)
      | none => some (c.endWith (.error (.notFound messageId.display)), s)
  -- ZRANGE
  | .updateUsage messageId _, .found sessionId =>
      match findRecord messageId (s.messages sessionId) with
      | .ok (some (member, record)) =>
          some ({ c with phase := .fetched sessionId member record }, s)
      | .ok none => some (c.endWith (.error (.notFound messageId.display)), s)
      | .error error => some (c.endWith (.error error), s)
  -- ZREM
  | .updateUsage _ _, .fetched sessionId member record =>
      some ({ c with phase := .removed sessionId record },
        s.putMessages sessionId (zrem member (s.messages sessionId)))
  -- ZADD
  | .updateUsage _ usage, .removed sessionId record =>
      some (c.endWith (.ok none), s.putMessages sessionId
        (zadd (entry json { record with usage := some usage }) (s.messages sessionId)))
  | _, _ => none

/-- The next step of a call: its connection breaks, or its next command is executed. -/
def move (c : RedisCall json) (s : RedisState json) : Option (RedisCall json × RedisState json) :=
  match c.phase, c.broken with
  | .ended _, _ => none
  | _, some message => some (c.endWith (.error (.backendError "redis" message)), s)
  | _, none => c.command s

/-- A call that has returned. -/
def outcome (op : RedisOp) (value : Option MessageRecord) (s : RedisState json)
    (result : Except StorageError (RedisState json)) : RedisCall json × RedisState json :=
  match result with
  | .ok s' => (⟨⟨op, none⟩, .ended (.ok value)⟩, s')
  | .error e => (⟨⟨op, none⟩, .ended (.error e)⟩, s)

/-- Alone and unbroken, the commands are the calls of the sequential store. -/
theorem alone_appendMessage (s : RedisState json) (message : MessageRecord) :
    Crowd.alone move 4 (start ⟨.appendMessage message, none⟩) s =
      outcome (.appendMessage message) (some message) s (s.appendMessage message) := by
  by_cases h : message.sessionId ∈ s.sessions
  · simp [Crowd.alone, move, command, broken, start, endWith, outcome, putMessages, appendMessage,
      h]
  · simp [Crowd.alone, move, command, broken, start, endWith, outcome, appendMessage, h]

theorem alone_updateUsage (s : RedisState json) (messageId : Uuid) (usage : TokenUsage) :
    Crowd.alone move 4 (start ⟨.updateUsage messageId usage, none⟩) s =
      outcome (.updateUsage messageId usage) none s (s.updateUsage messageId usage) := by
  unfold updateUsage
  cases hindex : s.messageIndex messageId with
  | none => simp [Crowd.alone, move, command, broken, start, endWith, outcome, hindex]
  | some sessionId =>
    cases hfind : findRecord messageId (s.messages sessionId) with
    | error error =>
      simp [Crowd.alone, move, command, broken, start, endWith, outcome, hindex, hfind]
    | ok hit =>
      cases hit with
      | none => simp [Crowd.alone, move, command, broken, start, endWith, outcome, hindex, hfind]
      | some hit =>
        simp [Crowd.alone, move, command, broken, start, endWith, outcome, putMessages, hindex,
          hfind]

/-- The message of an append. -/
def appends (c : RedisCall json) : Option MessageRecord :=
  match c.request.op with
  | .appendMessage message => some message
  | _ => none

/-- The message of an append that has yet to add it. -/
def adding (c : RedisCall json) : Option MessageRecord :=
  match c.request.op, c.phase with
  | .appendMessage message, .starting | .appendMessage message, .verified => some message
  | _, _ => none

/-- The message of an append that has returned it, or is about to. -/
def keeping (c : RedisCall json) : Option MessageRecord :=
  match c.request.op, c.phase with
  | .appendMessage message, .added | .appendMessage message, .indexed => some message
  | .appendMessage message, .ended (.ok _) => some message
  | _, _ => none

/-- The message of an append that has returned it. -/
def returned (c : RedisCall json) : Option MessageRecord :=
  match c.request.op, c.phase with
  | .appendMessage message, .ended (.ok _) => some message
  | _, _ => none

/-- The record that an update has removed from the session and is about to add again. -/
def away (sessionId : Uuid) (c : RedisCall json) : Option MessageRecord :=
  match c.request.op, c.phase with
  | .updateUsage _ usage, .removed other record =>
      if other = sessionId then some { record with usage := some usage } else none
  | _, _ => none

/-- The usage of an update of the message that has completed. -/
def completed (messageId : Uuid) (c : RedisCall json) : Option TokenUsage :=
  match c.request.op, c.phase with
  | .updateUsage other usage, .ended (.ok _) => if other = messageId then some usage else none
  | _, _ => none

/-- Appends have messages of their own. An update removes a member that is still there, and its
connection does not break before it has added the new one. -/
def undisturbed (x : RedisCrowd json) : Crowd.Turn RedisRequest → Bool
  | .enter ⟨.appendMessage message, _⟩ =>
      (x.calls.filterMap appends).all fun other => other.id != message.id
  | .enter ⟨.updateUsage _ _, _⟩ => true
  | .advance i =>
      match x.calls[i]? with
      | none => true
      | some c =>
          match c.phase, c.broken with
          | .fetched sessionId member _, none =>
              (x.state.messages sessionId).any fun e => decide (e.2 = member)
          | .removed _ _, some _ => false
          | _, _ => true

end RedisCall

end RedisState

end Behest
