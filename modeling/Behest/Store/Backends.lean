import Mathlib.Data.List.Sort
import Mathlib.Logic.Function.Basic
import Behest.Store.Log

/-!
# The session stores of the repository

How each backend of `behest-store` encodes a message record, orders the messages of a session
and reads them back. The databases and the JSON texts are parameters: a table or a
collection returns its rows ordered by a column, ties in any order, and a text that was
rendered parses back to its value.
-/

namespace Behest

/-! ### What the backends rely on -/

/-- A text format for values, as `serde_json` and `chrono` give. -/
structure Serde (α : Type) where
  Text : Type
  render : α → Text
  parse : Text → Except String α
  parse_render (a : α) : parse (render a) = .ok a

/-- Values kept as they are. -/
def Serde.identity (α : Type) : Serde α := ⟨α, id, .ok, fun _ => rfl⟩

/-- Source: `util.rs:55–64`. -/
def Serde.fromStr {α : Type} (serde : Serde α) (field : String) (text : serde.Text) :
    Except StorageError α :=
  match serde.parse text with
  | .ok a => .ok a
  | .error message => .error (.dataCorruption field message)

@[simp] theorem Serde.fromStr_render {α : Type} (serde : Serde α) (field : String) (a : α) :
    serde.fromStr field (serde.render a) = .ok a := by
  unfold fromStr
  rw [serde.parse_render]

/-- Rows ordered by one of their columns, ties in any order. -/
structure OrderBy {ρ τ : Type} (column : ρ → τ) where
  le : τ → τ → Prop
  sort : List ρ → List ρ
  perm (rows : List ρ) : (sort rows).Perm rows
  sorted (rows : List ρ) : (sort rows).Pairwise fun a b => le (column a) (column b)

/-- Source: `sql/session.rs:169–176`, `mongodb/session.rs:167–172`. -/
def roleToStr : MessageRole → String
  | .system => "system"
  | .user => "user"
  | .assistant => "assistant"
  | .tool => "tool"

/-- Source: `sql/session.rs:178–185`, `mongodb/session.rs:189–194`. -/
def roleFromStr (s : String) : MessageRole :=
  match s with
  | "system" => .system
  | "assistant" => .assistant
  | "tool" => .tool
  | _ => .user

@[simp] theorem roleFromStr_roleToStr (role : MessageRole) :
    roleFromStr (roleToStr role) = role := by
  cases role <;> rfl

/-! ### In memory -/

/-- Source: `memory/session.rs:20–24`. -/
structure MemoryState where
  sessions : List Uuid
  messages : Uuid → Option (List MessageRecord)
  messageIndex : Uuid → Option Uuid

namespace MemoryState

/-- Source: `memory/session.rs:36–42`. -/
def createSession (s : MemoryState) (id : Uuid) : Except StorageError MemoryState :=
  .ok { s with
    sessions := id :: s.sessions
    messages := Function.update s.messages id (some []) }

/-- Source: `memory/session.rs:86–115`. -/
def appendMessage (s : MemoryState) (message : MessageRecord) : Except StorageError MemoryState :=
  if message.sessionId ∈ s.sessions then
    .ok { s with
      messages := Function.update s.messages message.sessionId
        (some ((s.messages message.sessionId).getD [] ++ [message]))
      messageIndex := Function.update s.messageIndex message.id (some message.sessionId) }
  else .error (.notFound message.sessionId.display)

/-- Set the usage of the first record with the identifier, if there is one.
Source: `memory/session.rs:134–141`. -/
def setUsage (messageId : Uuid) (usage : TokenUsage) :
    List MessageRecord → Option (List MessageRecord)
  | [] => none
  | r :: rest =>
      if r.id = messageId then some ({ r with usage := some usage } :: rest)
      else (setUsage messageId usage rest).map (r :: ·)

/-- Source: `memory/session.rs:122–146`. -/
def updateUsage (s : MemoryState) (messageId : Uuid) (usage : TokenUsage) :
    Except StorageError MemoryState :=
  match s.messageIndex messageId with
  | none => .error (.notFound messageId.display)
  | some sessionId =>
      match (s.messages sessionId).bind (setUsage messageId usage) with
      | none => .error (.notFound messageId.display)
      | some records =>
          .ok { s with messages := Function.update s.messages sessionId (some records) }

/-- Source: `memory/session.rs:117–120`. -/
def listMessages (s : MemoryState) (sessionId : Uuid) : Except StorageError (List MessageRecord) :=
  .ok ((s.messages sessionId).getD [])

def store : SessionStore where
  State := MemoryState
  new := ⟨[], fun _ => none, fun _ => none⟩
  createSession := createSession
  appendMessage := appendMessage
  updateUsage := updateUsage
  listMessages := listMessages

end MemoryState

/-! ### Tables and collections -/

/-- A table, or a collection of documents, that holds one row for each message. The
identifier is its primary key. -/
structure Table where
  backend : String
  conflict : String
  Row : Type
  id : Row → Uuid
  sessionId : Row → Uuid
  encode : MessageRecord → Row
  decode : Row → Except StorageError MessageRecord
  setUsage : TokenUsage → Row → Row
  Time : Type
  createdAt : Row → Time
  order : OrderBy createdAt

/-- The sessions and the rows of a table. -/
structure TableState (t : Table) where
  sessions : List Uuid
  rows : List t.Row

namespace Table

variable (t : Table)

/-- Source: `sql/session.rs:193–211`, `mongodb/session.rs:214–225`. -/
def createSession (s : TableState t) (id : Uuid) : Except StorageError (TableState t) :=
  if id ∈ s.sessions then .error (.backendError t.backend t.conflict)
  else .ok { s with sessions := id :: s.sessions }

/-- Source: `sql/session.rs:330–399`, `mongodb/session.rs:331–374`. -/
def appendMessage (s : TableState t) (message : MessageRecord) :
    Except StorageError (TableState t) :=
  if message.sessionId ∈ s.sessions then
    if s.rows.any (fun row => t.id row == message.id) then
      .error (.backendError t.backend t.conflict)
    else .ok { s with rows := s.rows ++ [t.encode message] }
  else .error (.notFound message.sessionId.display)

/-- The row with another usage, when it is the one that is named. -/
def withUsage (messageId : Uuid) (usage : TokenUsage) (row : t.Row) : t.Row :=
  if t.id row = messageId then t.setUsage usage row else row

/-- Source: `sql/session.rs:463–481`, `mongodb/session.rs:403–430`. -/
def updateUsage (s : TableState t) (messageId : Uuid) (usage : TokenUsage) :
    Except StorageError (TableState t) :=
  if s.rows.any (fun row => t.id row == messageId) then
    .ok { s with rows := s.rows.map (t.withUsage messageId usage) }
  else .error (.notFound messageId.display)

/-- Source: `sql/session.rs:401–461`, `mongodb/session.rs:376–401`. -/
def listMessages (s : TableState t) (sessionId : Uuid) :
    Except StorageError (List MessageRecord) :=
  (t.order.sort (s.rows.filter fun row => t.sessionId row == sessionId)).mapM t.decode

def store : SessionStore where
  State := TableState t
  new := ⟨[], []⟩
  createSession := t.createSession
  appendMessage := t.appendMessage
  updateUsage := t.updateUsage
  listMessages := t.listMessages

end Table

/-! ### SQL -/

/-- What the three SQL dialects do differently: the type of a flag and of a timestamp. -/
structure SqlDialect where
  name : String
  Flag : Type
  flag : Bool → Flag
  isSet : Flag → Bool
  isSet_flag (b : Bool) : isSet (flag b) = b
  time : Serde Nat

/-- Source: `sql/session.rs:189–496`. -/
def SqlDialect.postgres : SqlDialect := ⟨"postgres", Bool, id, id, fun _ => rfl, .identity Nat⟩

private theorem intFlag (b : Bool) : ((if b then (1 : Int) else 0) != 0) = b := by cases b <;> rfl

/-- Source: `sql/session.rs:498–804`. -/
def SqlDialect.mysql : SqlDialect :=
  ⟨"mysql", Int, fun b => if b then 1 else 0, fun n => n != 0, intFlag, .identity Nat⟩

/-- Timestamps are RFC 3339 texts. Source: `sql/session.rs:806–1107`. -/
def SqlDialect.sqlite (rfc3339 : Serde Nat) : SqlDialect :=
  ⟨"sqlite", Int, fun b => if b then 1 else 0, fun n => n != 0, intFlag, rfc3339⟩

/-- The JSON columns of the table of messages. Source: `sql/session.rs:123–166`. -/
structure SqlJson where
  content : Serde (List ContentPart)
  toolCalls : Serde (List ToolCall)
  usage : Serde TokenUsage
  compactionMeta : Serde CompactionMeta

/-- A row of the table of messages. Source: `sql/migrations`, `002_create_messages.sql` and
`add_compaction_fields.sql`. -/
structure SqlRow (dialect : SqlDialect) (json : SqlJson) where
  id : Uuid
  sessionId : Uuid
  role : String
  content : json.content.Text
  toolCalls : json.toolCalls.Text
  usage : Option json.usage.Text
  isCompaction : dialect.Flag
  isSummary : dialect.Flag
  compactionMeta : Option json.compactionMeta.Text
  createdAt : dialect.time.Text

namespace SqlRow

variable {dialect : SqlDialect} {json : SqlJson}

/-- Source: `sql/session.rs:361–370`. -/
def encode (m : MessageRecord) : SqlRow dialect json where
  id := m.id
  sessionId := m.sessionId
  role := roleToStr m.role
  content := json.content.render m.content
  toolCalls := json.toolCalls.render m.toolCalls
  usage := m.usage.map json.usage.render
  isCompaction := dialect.flag m.isCompaction
  isSummary := dialect.flag m.isSummary
  compactionMeta := m.compactionMeta.map json.compactionMeta.render
  createdAt := dialect.time.render m.createdAt

/-- Source: `sql/session.rs:444–457`. -/
def decode (row : SqlRow dialect json) : Except StorageError MessageRecord := do
  let content ← json.content.fromStr "message.content" row.content
  let toolCalls ← json.toolCalls.fromStr "message.tool_calls" row.toolCalls
  let usage ← row.usage.mapM (json.usage.fromStr "message.usage")
  let createdAt ← dialect.time.fromStr "message.created_at" row.createdAt
  let compactionMeta ← row.compactionMeta.mapM (json.compactionMeta.fromStr "compaction_meta")
  return {
    id := row.id
    sessionId := row.sessionId
    role := roleFromStr row.role
    content := content
    toolCalls := toolCalls
    toolCallId := none
    toolName := none
    usage := usage
    createdAt := createdAt
    isCompaction := dialect.isSet row.isCompaction
    isSummary := dialect.isSet row.isSummary
    compactionMeta := compactionMeta }

/-- The table of messages. -/
def table (conflict : String) (order : OrderBy (@SqlRow.createdAt dialect json)) : Table where
  backend := dialect.name
  conflict := conflict
  Row := SqlRow dialect json
  id := SqlRow.id
  sessionId := SqlRow.sessionId
  encode := encode
  decode := decode
  setUsage usage row := { row with usage := some (json.usage.render usage) }
  Time := dialect.time.Text
  createdAt := SqlRow.createdAt
  order := order

end SqlRow

/-! ### MongoDB -/

/-- Source: `mongodb/session.rs:133–159`. -/
structure MessageDoc where
  id : Uuid
  sessionId : Uuid
  role : String
  content : List ContentPart
  toolCalls : List ToolCall
  usage : Option TokenUsage
  isCompaction : Bool
  isSummary : Bool
  compactionMeta : Option CompactionMeta
  createdAt : Nat

namespace MessageDoc

/-- Source: `mongodb/session.rs:163–182`. -/
def fromMessage (m : MessageRecord) : MessageDoc where
  id := m.id
  sessionId := m.sessionId
  role := roleToStr m.role
  content := m.content
  toolCalls := m.toolCalls
  usage := m.usage
  isCompaction := m.isCompaction
  isSummary := m.isSummary
  compactionMeta := m.compactionMeta
  createdAt := m.createdAt

/-- Source: `mongodb/session.rs:188–209`. -/
def intoMessage (doc : MessageDoc) : MessageRecord where
  id := doc.id
  sessionId := doc.sessionId
  role := roleFromStr doc.role
  content := doc.content
  toolCalls := doc.toolCalls
  toolCallId := none
  toolName := none
  usage := doc.usage
  createdAt := doc.createdAt
  isCompaction := doc.isCompaction
  isSummary := doc.isSummary
  compactionMeta := doc.compactionMeta

/-- The collection of messages. -/
def table (conflict : String) (order : OrderBy MessageDoc.createdAt) : Table where
  backend := "mongodb"
  conflict := conflict
  Row := MessageDoc
  id := MessageDoc.id
  sessionId := MessageDoc.sessionId
  encode := fromMessage
  decode doc := .ok doc.intoMessage
  setUsage usage doc := { doc with usage := some usage }
  Time := Nat
  createdAt := MessageDoc.createdAt
  order := order

end MessageDoc

/-! ### Redis -/

/-- The JSON texts of message records, and the order of texts that breaks the ties of a
sorted set. -/
structure RedisJson where
  record : Serde MessageRecord
  decEq : DecidableEq record.Text
  le : record.Text → record.Text → Bool

/-- A member of a sorted set with its score. -/
abbrev RedisJson.Scored (json : RedisJson) : Type := Nat × json.record.Text

structure RedisState (json : RedisJson) where
  sessions : List Uuid
  messages : Uuid → List json.Scored
  messageIndex : Uuid → Option Uuid

namespace RedisState

variable {json : RedisJson}

instance : DecidableEq json.record.Text := json.decEq

/-- Members are ordered by their scores, then by their texts. -/
def scoredLe (a b : json.Scored) : Bool := a.1 < b.1 || a.1 == b.1 && json.le a.2 b.2

/-- `ZADD`: a member occurs once. -/
def zadd (entry : json.Scored) (zset : List json.Scored) : List json.Scored :=
  (zset.filter fun e => decide (e.2 ≠ entry.2)).orderedInsert (fun a b => scoredLe a b = true) entry

/-- `ZREM`. -/
def zrem (member : json.record.Text) (zset : List json.Scored) : List json.Scored :=
  zset.filter fun e => decide (e.2 ≠ member)

/-- A record as a member of the set of its session; the score is in milliseconds and creation
times are in nanoseconds. Source: `redis/session.rs:162–168, 283–290`. -/
def entry (json : RedisJson) (m : MessageRecord) : json.Scored :=
  (m.createdAt / 1000000, json.record.render m)

/-- Source: `redis/session.rs:219–223, 266–270`. -/
def parse (text : json.record.Text) : Except StorageError MessageRecord :=
  match json.record.parse text with
  | .ok record => .ok record
  | .error message => .error (.serializationFailed message)

/-- Source: `redis/session.rs:74–98`. -/
def createSession (s : RedisState json) (id : Uuid) : Except StorageError (RedisState json) :=
  .ok { s with sessions := id :: s.sessions }

/-- Source: `redis/session.rs:140–202`. -/
def appendMessage (s : RedisState json) (message : MessageRecord) :
    Except StorageError (RedisState json) :=
  if message.sessionId ∈ s.sessions then
    .ok { s with
      messages := Function.update s.messages message.sessionId
        (zadd (entry json message) (s.messages message.sessionId))
      messageIndex := Function.update s.messageIndex message.id (some message.sessionId) }
  else .error (.notFound message.sessionId.display)

/-- The first member that is the record with the identifier.
Source: `redis/session.rs:264–272`. -/
def findRecord (messageId : Uuid) :
    List json.Scored → Except StorageError (Option (json.record.Text × MessageRecord))
  | [] => .ok none
  | e :: rest =>
      match parse e.2 with
      | .error error => .error error
      | .ok record =>
          if record.id = messageId then .ok (some (e.2, record)) else findRecord messageId rest

/-- Source: `redis/session.rs:230–311`. -/
def updateUsage (s : RedisState json) (messageId : Uuid) (usage : TokenUsage) :
    Except StorageError (RedisState json) :=
  match s.messageIndex messageId with
  | none => .error (.notFound messageId.display)
  | some sessionId =>
      match findRecord messageId (s.messages sessionId) with
      | .error error => .error error
      | .ok none => .error (.notFound messageId.display)
      | .ok (some (member, record)) =>
          .ok { s with
            messages := Function.update s.messages sessionId
              (zadd (entry json { record with usage := some usage })
                (zrem member (s.messages sessionId))) }

/-- Source: `redis/session.rs:204–228`. -/
def listMessages (s : RedisState json) (sessionId : Uuid) :
    Except StorageError (List MessageRecord) :=
  (s.messages sessionId).mapM fun e => parse e.2

def store (json : RedisJson) : SessionStore where
  State := RedisState json
  new := ⟨[], fun _ => [], fun _ => none⟩
  createSession := createSession
  appendMessage := appendMessage
  updateUsage := updateUsage
  listMessages := listMessages

end RedisState

/-! ### The backends -/

/-- A backend with what it relies on. -/
inductive Backend where
  | memory
  | sql (dialect : SqlDialect) (json : SqlJson) (conflict : String)
      (order : OrderBy (@SqlRow.createdAt dialect json))
  | mongodb (conflict : String) (order : OrderBy MessageDoc.createdAt)
  | redis (json : RedisJson)

def Backend.store : Backend → SessionStore
  | memory => MemoryState.store
  | sql _ _ conflict order => (SqlRow.table conflict order).store
  | mongodb conflict order => (MessageDoc.table conflict order).store
  | redis json => RedisState.store json

end Behest
