import Behest.Core.Message

/-!
# Message records

The persisted form of a message (`behest-store`), its token estimate and the two
conversions between it and a chat message (`behest-runtime/src/store.rs`).
-/

namespace Behest

/-- A 128-bit identifier; only equality of identifiers is ever used. -/
abbrev Uuid := Nat

/-- `Uuid::nil`. -/
def Uuid.nil : Uuid := 0

/-- Source: `behest-store/src/lib.rs:326–335`. -/
inductive MessageRole where
  | system
  | user
  | assistant
  | tool
deriving DecidableEq

/-- Compaction metadata of a marker or of a summary.
Source: `behest-store/src/lib.rs:165–172`. -/
structure CompactionMeta where
  tailStartId : Option Uuid
  previousCompactionId : Option Uuid
  summaryText : Option String
deriving DecidableEq

/-- Metadata that names a tail boundary. Source: `behest-store/src/lib.rs:180–186`. -/
def CompactionMeta.new (tailStartId : Uuid) : CompactionMeta := ⟨some tailStartId, none, none⟩

/-- Source: `behest-store/src/lib.rs:197–200`. -/
def CompactionMeta.withSummary (m : CompactionMeta) (summary : String) : CompactionMeta :=
  { m with summaryText := some summary }

/-- Source: `behest-store/src/lib.rs:209–241`. -/
structure MessageRecord where
  id : Uuid
  sessionId : Uuid
  role : MessageRole
  content : List ContentPart
  toolCalls : List ToolCall
  toolCallId : Option String
  toolName : Option String
  usage : Option TokenUsage
  createdAt : Nat
  isCompaction : Bool
  isSummary : Bool
  compactionMeta : Option CompactionMeta
deriving DecidableEq

namespace MessageRecord

/-- A record with a generated identifier and timestamp and no optional data.
Source: `behest-store/src/lib.rs:249–264`. -/
def new (id createdAt : Nat) (sessionId : Uuid) (role : MessageRole)
    (content : List ContentPart) : MessageRecord where
  id := id
  sessionId := sessionId
  role := role
  content := content
  toolCalls := []
  toolCallId := none
  toolName := none
  usage := none
  createdAt := createdAt
  isCompaction := false
  isSummary := false
  compactionMeta := none

/-- Neither a compaction marker nor a summary. -/
def isOrdinary (r : MessageRecord) : Bool := !r.isCompaction && !r.isSummary

end MessageRecord

/-- Source: `behest-runtime/src/token.rs:15–42`. -/
def estimateRecordTokens (record : MessageRecord) : Nat :=
  (record.content.map estimateContentPartTokens).sum
    + (record.toolCalls.map estimateToolCallTokens).sum
    + (match record.toolCallId, record.toolName with
      | some id, some name => estimateTokens id + estimateTokens name
      | _, _ => 0)
    + (match record.role with
      | .system | .user | .assistant => 8
      | .tool => 10)

/-- Source: `behest-runtime/src/token.rs:46–48`. -/
def estimateRecordsTokens (records : List MessageRecord) : Nat :=
  (records.map estimateRecordTokens).sum

@[simp] theorem estimateRecordsTokens_nil : estimateRecordsTokens [] = 0 := rfl

@[simp] theorem estimateRecordsTokens_cons (r : MessageRecord) (rs : List MessageRecord) :
    estimateRecordsTokens (r :: rs) = estimateRecordTokens r + estimateRecordsTokens rs := by
  simp [estimateRecordsTokens]

@[simp] theorem estimateRecordsTokens_append (rs rs' : List MessageRecord) :
    estimateRecordsTokens (rs ++ rs') = estimateRecordsTokens rs + estimateRecordsTokens rs' := by
  simp [estimateRecordsTokens]

/-- Source: `behest-runtime/src/store.rs:351–373`. -/
def messageToRecord (id createdAt : Nat) (sessionId : Uuid) : Message → MessageRecord
  | .system content => .new id createdAt sessionId .system content
  | .user content => .new id createdAt sessionId .user content
  | .assistant content toolCalls =>
      { MessageRecord.new id createdAt sessionId .assistant content with toolCalls := toolCalls }
  | .tool toolCallId name content =>
      { MessageRecord.new id createdAt sessionId .tool content with
        toolCallId := some toolCallId, toolName := some name }

/-- Source: `behest-runtime/src/store.rs:379–398`. -/
def recordToMessage (record : MessageRecord) : Message :=
  match record.role with
  | .system => .system record.content
  | .user => .user record.content
  | .assistant => .assistant record.content record.toolCalls
  | .tool => .tool (record.toolCallId.getD "") (record.toolName.getD "") record.content

/-- A stored message reads back as itself. -/
@[simp] theorem recordToMessage_messageToRecord (id createdAt : Nat) (sessionId : Uuid)
    (message : Message) :
    recordToMessage (messageToRecord id createdAt sessionId message) = message := by
  cases message <;> rfl

/-- A message is stored as an ordinary record of its session. -/
@[simp] theorem isOrdinary_messageToRecord (id createdAt : Nat) (sessionId : Uuid)
    (message : Message) : (messageToRecord id createdAt sessionId message).isOrdinary = true := by
  cases message <;> rfl

end Behest
