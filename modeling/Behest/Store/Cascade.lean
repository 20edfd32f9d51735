import Mathlib.Data.List.Induction
import Mathlib.Data.List.Sort
import Mathlib.Logic.Function.Basic
import Behest.Runtime.Run
import Behest.Store.Backends
import Behest.Store.Keyed

/-!
# Deleting a session from every store

`MemoryStore::delete_session_cascading` (`behest-store/src/memory/composite.rs`) and the
in-memory stores it asks one after the other. The stores of artifacts and of tool executions
do not override the default of their trait, which deletes nothing.
-/

namespace Behest

/-- Source: `behest-store/src/lib.rs:113–126`. -/
structure Session where
  id : Uuid
  title : String
  model : String
  createdAt : Nat
  updatedAt : Nat
  metadata : Value

/-- A component of an embedding is a machine float, of which only copies are made here.
Source: `behest-store/src/lib.rs:343–356`. -/
structure EmbeddingRecord (Float32 : Type) where
  id : Uuid
  sessionId : Option Uuid
  model : String
  vector : List Float32
  metadata : Value
  createdAt : Nat

/-- Source: `behest-store/src/lib.rs:404–420`. -/
structure Artifact where
  id : Uuid
  sessionId : Option Uuid
  name : String
  contentType : String
  data : List UInt8
  metadata : Value
  createdAt : Nat

/-- Source: `behest-store/src/lib.rs:788–807`. -/
structure UsageRecord where
  id : Uuid
  sessionId : Uuid
  messageId : Uuid
  provider : String
  model : String
  inputTokens : Nat
  outputTokens : Nat
  totalTokens : Nat
  createdAt : Nat

/-- `sort_by_key` of a list: stable. -/
def sortByKey {α : Type} (key : α → Nat) (records : List α) : List α :=
  records.insertionSort fun a b => key a ≤ key b

@[simp] theorem mem_sortByKey {α : Type} {key : α → Nat} {records : List α} {a : α} :
    a ∈ sortByKey key records ↔ a ∈ records :=
  (List.perm_insertionSort _ records).mem_iff

/-! ### Sessions -/

/-- The messages of a session are filed under its identifier.
Source: `memory/session.rs:20–24`. -/
structure MemorySessionStore where
  sessions : Keyed Session.id
  messages : Uuid → Option (List MessageRecord)
  messageIndex : Uuid → Option Uuid
  filed : ∀ id records, messages id = some records → ∀ r ∈ records, r.sessionId = id

namespace MemorySessionStore

variable (s : MemorySessionStore)

/-- The latest update first. Source: `memory/session.rs:44–49`. -/
def listSessions : List Session :=
  s.sessions.records.insertionSort fun a b => b.updatedAt ≤ a.updatedAt

/-- Source: `memory/session.rs:51–54`. -/
def getSession (id : Uuid) : Option Session := s.sessions.get id

/-- Source: `memory/session.rs:117–120`. -/
def listMessages (sessionId : Uuid) : List MessageRecord := (s.messages sessionId).getD []

/-- The reverse index without the messages of a list. Source: `memory/session.rs:59–64`. -/
def unindex (messageIndex : Uuid → Option Uuid) (records : List MessageRecord) :
    Uuid → Option Uuid :=
  records.foldl (fun index r => Function.update index r.id none) messageIndex

theorem unindex_of_mem {messageIndex : Uuid → Option Uuid} {records : List MessageRecord}
    {messageId : Uuid} (h : messageId ∈ records.map MessageRecord.id) :
    unindex messageIndex records messageId = none := by
  unfold unindex
  induction records using List.reverseRecOn with
  | nil => cases h
  | append_singleton records r ih =>
    rw [List.foldl_append, List.foldl_cons, List.foldl_nil]
    by_cases hid : messageId = r.id
    · rw [hid, Function.update_self]
    · rw [Function.update_of_ne hid]
      apply ih
      simpa [hid] using h

theorem unindex_of_notMem {messageIndex : Uuid → Option Uuid} {records : List MessageRecord}
    {messageId : Uuid} (h : messageId ∉ records.map MessageRecord.id) :
    unindex messageIndex records messageId = messageIndex messageId := by
  unfold unindex
  induction records generalizing messageIndex with
  | nil => rfl
  | cons r rest ih =>
    rw [List.map_cons, List.mem_cons, not_or] at h
    rw [List.foldl_cons, ih h.2, Function.update_of_ne h.1]

/-- Source: `memory/session.rs:56–66`. -/
def deleteSession (id : Uuid) : Except StorageError MemorySessionStore :=
  .ok {
    sessions := s.sessions.remove id
    messages := Function.update s.messages id none
    messageIndex := unindex s.messageIndex (s.listMessages id)
    filed := by
      intro other records hrecords
      by_cases hid : other = id
      · rw [hid, Function.update_self] at hrecords
        cases hrecords
      · rw [Function.update_of_ne hid] at hrecords
        exact s.filed other records hrecords }

end MemorySessionStore

/-! ### Embeddings -/

/-- What a search does with the records: it scores them against the query, sorts them and cuts
the list. The comparison of floats may order them in any way.
Source: `memory/embedding.rs:34–51, 62–81`. -/
structure Ranking (Float32 : Type) where
  similarity : List Float32 → List Float32 → Float32
  sort : List (Float32 × EmbeddingRecord Float32) → List (Float32 × EmbeddingRecord Float32)
  perm : ∀ scored, (sort scored).Perm scored

/-- Source: `memory/embedding.rs:17–19`. -/
structure MemoryEmbeddingStore (Float32 : Type) where
  records : Keyed (@EmbeddingRecord.id Float32)

namespace MemoryEmbeddingStore

variable {Float32 : Type} (s : MemoryEmbeddingStore Float32)

/-- Source: `memory/embedding.rs:62–81`. -/
def search (ranking : Ranking Float32) (query : List Float32) (limit : Nat) :
    List (Float32 × EmbeddingRecord Float32) :=
  (ranking.sort (s.records.records.map fun r => (ranking.similarity query r.vector, r))).take limit

/-- Source: `memory/embedding.rs:88–94`. -/
def deleteBySession (sessionId : Uuid) : Except StorageError (Nat × MemoryEmbeddingStore Float32) :=
  let records := s.records.retain fun r => r.sessionId != some sessionId
  .ok (s.records.records.length - records.records.length, ⟨records⟩)

end MemoryEmbeddingStore

/-! ### Artifacts -/

/-- `ArtifactStore::delete_by_session` and `ExecutionStore::delete_by_session`, where a store does
not override them. Source: `behest-store/src/lib.rs:682–685, 916–919`. -/
def deleteNothing {S : Type} (s : S) (_sessionId : Uuid) : Except StorageError (Nat × S) :=
  .ok (0, s)

/-- Source: `memory/artifact.rs:16–18`. -/
structure MemoryArtifactStore where
  artifacts : Keyed Artifact.id

namespace MemoryArtifactStore

variable (s : MemoryArtifactStore)

/-- Source: `memory/artifact.rs:30–35`. -/
def put (a : Artifact) : MemoryArtifactStore := ⟨s.artifacts.insert a⟩

/-- Source: `memory/artifact.rs:37–40`. -/
def get (id : Uuid) : Option Artifact := s.artifacts.get id

/-- Source: `memory/artifact.rs:47–54`. -/
def listBySession (sessionId : Uuid) : List Artifact :=
  s.artifacts.records.filter fun a => a.sessionId == some sessionId

def deleteBySession (sessionId : Uuid) : Except StorageError (Nat × MemoryArtifactStore) :=
  deleteNothing s sessionId

end MemoryArtifactStore

/-! ### Tool executions and usage -/

/-- Source: `memory/execution.rs:19–23`. -/
structure MemoryExecutionStore where
  executions : Keyed ToolExecution.id
  usageRecords : Keyed UsageRecord.id

namespace MemoryExecutionStore

variable (s : MemoryExecutionStore)

/-- Source: `memory/execution.rs:50–59`. -/
def listExecutions (sessionId : Uuid) : List ToolExecution :=
  sortByKey ToolExecution.createdAt
    (s.executions.records.filter fun e => e.sessionId == sessionId)

/-- Source: `memory/execution.rs:61–73`. -/
def listExecutionsByMessage (messageId : Uuid) : List ToolExecution :=
  sortByKey ToolExecution.createdAt
    (s.executions.records.filter fun e => e.messageId == messageId)

/-- Source: `memory/execution.rs:81–90`. -/
def listUsage (sessionId : Uuid) : List UsageRecord :=
  sortByKey UsageRecord.createdAt
    (s.usageRecords.records.filter fun r => r.sessionId == sessionId)

def deleteBySession (sessionId : Uuid) : Except StorageError (Nat × MemoryExecutionStore) :=
  deleteNothing s sessionId

end MemoryExecutionStore

/-! ### The cascade -/

/-- Source: `memory/composite.rs:31–40`. -/
structure MemoryStore (Float32 : Type) where
  sessions : MemorySessionStore
  embeddings : MemoryEmbeddingStore Float32
  artifacts : MemoryArtifactStore
  executions : MemoryExecutionStore

namespace MemoryStore

variable {Float32 : Type}

/-- A part of the cascade: the store after it, or the store as it was and the error. -/
def part {S : Type} (name : String) (s : S) : Except StorageError S → List String × S
  | .ok s' => ([], s')
  | .error e => ([name ++ ": " ++ e.display], s)

/-- Source: `memory/composite.rs:59–85`. -/
def deleteSessionCascading (s : MemoryStore Float32) (id : Uuid) :
    Except StorageError Unit × MemoryStore Float32 :=
  let sessions := part "sessions" s.sessions (s.sessions.deleteSession id)
  let embeddings :=
    part "embeddings" s.embeddings ((s.embeddings.deleteBySession id).map Prod.snd)
  let artifacts := part "artifacts" s.artifacts ((s.artifacts.deleteBySession id).map Prod.snd)
  let executions :=
    part "executions" s.executions ((s.executions.deleteBySession id).map Prod.snd)
  let errors := sessions.1 ++ embeddings.1 ++ artifacts.1 ++ executions.1
  (if errors.isEmpty then .ok ()
    else .error (.backendError "memory"
      ("cascade delete failed: " ++ String.intercalate "; " errors)),
    ⟨sessions.2, embeddings.2, artifacts.2, executions.2⟩)

/-- No store returns anything that belongs to the session. -/
structure Forgets (s : MemoryStore Float32) (id : Uuid) : Prop where
  getSession : s.sessions.getSession id = none
  listSessions : ∀ session ∈ s.sessions.listSessions, session.id ≠ id
  listMessages : ∀ sessionId, ∀ m ∈ s.sessions.listMessages sessionId, m.sessionId ≠ id
  search : ∀ ranking query limit, ∀ scored ∈ s.embeddings.search ranking query limit,
    scored.2.sessionId ≠ some id
  getArtifact : ∀ artifactId a, s.artifacts.get artifactId = some a → a.sessionId ≠ some id
  listBySession : ∀ sessionId, ∀ a ∈ s.artifacts.listBySession sessionId, a.sessionId ≠ some id
  listExecutions : ∀ sessionId, ∀ e ∈ s.executions.listExecutions sessionId, e.sessionId ≠ id
  listExecutionsByMessage : ∀ messageId, ∀ e ∈ s.executions.listExecutionsByMessage messageId,
    e.sessionId ≠ id
  listUsage : ∀ sessionId, ∀ r ∈ s.executions.listUsage sessionId, r.sessionId ≠ id

/-- Nothing but the data of the session differs. -/
structure AgreesBeyond (id : Uuid) (s s' : MemoryStore Float32) : Prop where
  sessions : s'.sessions.sessions.retain (fun session => session.id != id) =
    s.sessions.sessions.retain fun session => session.id != id
  messages : ∀ other, other ≠ id → s'.sessions.messages other = s.sessions.messages other
  messageIndex : ∀ messageId other, other ≠ id →
    (s'.sessions.messageIndex messageId = some other ↔
      s.sessions.messageIndex messageId = some other)
  embeddings : s'.embeddings.records.retain (fun r => r.sessionId != some id) =
    s.embeddings.records.retain fun r => r.sessionId != some id
  artifacts : s'.artifacts.artifacts.retain (fun a => a.sessionId != some id) =
    s.artifacts.artifacts.retain fun a => a.sessionId != some id
  executions : s'.executions.executions.retain (fun e => e.sessionId != id) =
    s.executions.executions.retain fun e => e.sessionId != id
  usageRecords : s'.executions.usageRecords.retain (fun r => r.sessionId != id) =
    s.executions.usageRecords.retain fun r => r.sessionId != id

/-- What the cascade leaves. -/
def afterDelete (s : MemoryStore Float32) (id : Uuid) : MemoryStore Float32 :=
  (s.deleteSessionCascading id).2

/-- No part of the cascade fails. -/
theorem deleteSessionCascading_eq (s : MemoryStore Float32) (id : Uuid) :
    s.deleteSessionCascading id = (.ok (), s.afterDelete id) := rfl

variable {s : MemoryStore Float32} {id : Uuid}

/-- Nothing is left of the session but its artifacts, tool executions and usage records. -/
theorem forgets_afterDelete_iff : (s.afterDelete id).Forgets id ↔
    (∀ a ∈ s.artifacts.artifacts.records, a.sessionId ≠ some id) ∧
      (∀ e ∈ s.executions.executions.records, e.sessionId ≠ id) ∧
      ∀ r ∈ s.executions.usageRecords.records, r.sessionId ≠ id := by
  constructor
  · intro h
    refine ⟨fun a ha hid => ?_, fun e he hid => ?_, fun r hr hid => ?_⟩
    · exact h.listBySession id a (List.mem_filter.mpr ⟨ha, by simp [hid]⟩) hid
    · apply h.listExecutions id e _ hid
      exact mem_sortByKey.mpr (List.mem_filter.mpr ⟨he, by simp [hid]⟩)
    · apply h.listUsage id r _ hid
      exact mem_sortByKey.mpr (List.mem_filter.mpr ⟨hr, by simp [hid]⟩)
  · rintro ⟨hartifacts, hexecutions, husage⟩
    constructor
    · exact Keyed.get_remove_self _ _
    · intro session hsession
      have hmem := (List.perm_insertionSort _ _).mem_iff.mp hsession
      simpa using (List.mem_filter.mp hmem).2
    · intro sessionId m hm
      show m.sessionId ≠ id
      by_cases hid : sessionId = id
      · subst hid
        simp [afterDelete, deleteSessionCascading, MemorySessionStore.deleteSession, part,
          MemorySessionStore.listMessages] at hm
      · cases hrecords : (s.afterDelete id).sessions.messages sessionId with
        | none => simp [MemorySessionStore.listMessages, hrecords] at hm
        | some records =>
          rw [MemorySessionStore.listMessages, hrecords] at hm
          rw [(s.afterDelete id).sessions.filed sessionId records hrecords m hm]
          exact hid
    · intro ranking query limit scored hscored
      have hmem := (ranking.perm _).mem_iff.mp (List.mem_of_mem_take hscored)
      obtain ⟨r, hr, rfl⟩ := List.mem_map.mp hmem
      simpa using (List.mem_filter.mp hr).2
    · exact fun artifactId a ha => hartifacts a (Keyed.get_mem ha).1
    · exact fun sessionId a ha => hartifacts a (List.mem_of_mem_filter ha)
    · exact fun sessionId e he => hexecutions e (List.mem_of_mem_filter (mem_sortByKey.mp he))
    · exact fun messageId e he => hexecutions e (List.mem_of_mem_filter (mem_sortByKey.mp he))
    · exact fun sessionId r hr => husage r (List.mem_of_mem_filter (mem_sortByKey.mp hr))

/-- Only the index can lose what belongs to another session: the entry of a message that the
deleted session lists under the same identifier. -/
theorem agreesBeyond_afterDelete_iff : AgreesBeyond id s (s.afterDelete id) ↔
    ∀ m ∈ s.sessions.listMessages id, ∀ other,
      s.sessions.messageIndex m.id = some other → other = id := by
  constructor
  · intro h m hm other hindex
    by_contra hother
    have hkept := (h.messageIndex m.id other hother).mpr hindex
    have hgone : (s.afterDelete id).sessions.messageIndex m.id = none :=
      MemorySessionStore.unindex_of_mem (List.mem_map_of_mem hm)
    rw [hgone] at hkept
    cases hkept
  · intro h
    constructor
    · exact Keyed.retain_retain_self _ _
    · exact fun other hother => Function.update_of_ne hother _ _
    · intro messageId other hother
      show MemorySessionStore.unindex s.sessions.messageIndex (s.sessions.listMessages id)
        messageId = some other ↔ _
      by_cases hmem : messageId ∈ (s.sessions.listMessages id).map MessageRecord.id
      · rw [MemorySessionStore.unindex_of_mem hmem]
        obtain ⟨m, hm, rfl⟩ := List.mem_map.mp hmem
        constructor
        · nofun
        · exact fun hindex => absurd (h m hm other hindex) hother
      · rw [MemorySessionStore.unindex_of_notMem hmem]
    · exact Keyed.retain_retain_self _ _
    · rfl
    · rfl
    · rfl

/-- **The cascade succeeds, and it is complete and confined if and only if the session has no
artifacts, tool executions and usage records, and shares no message identifier with another
session**. -/
theorem deleteSessionCascading_iff (s : MemoryStore Float32) (id : Uuid) :
    ∃ s', s.deleteSessionCascading id = (.ok (), s') ∧
      (s'.Forgets id ∧ AgreesBeyond id s s' ↔
        ((∀ a ∈ s.artifacts.artifacts.records, a.sessionId ≠ some id) ∧
          (∀ e ∈ s.executions.executions.records, e.sessionId ≠ id) ∧
          ∀ r ∈ s.executions.usageRecords.records, r.sessionId ≠ id) ∧
        ∀ m ∈ s.sessions.listMessages id, ∀ other,
          s.sessions.messageIndex m.id = some other → other = id) := by
  refine ⟨s.afterDelete id, deleteSessionCascading_eq s id, ?_⟩
  rw [forgets_afterDelete_iff, agreesBeyond_afterDelete_iff]

/-- A file of session 1. -/
def report : Artifact := ⟨5, some 1, "report.txt", "text/plain", [], .null, 0⟩

/-- A store that holds nothing but the file. -/
def withReport : MemoryStore Unit where
  sessions := ⟨.empty, fun _ => none, fun _ => none, nofun⟩
  embeddings := ⟨.empty⟩
  artifacts := .put ⟨.empty⟩ report
  executions := ⟨.empty, .empty⟩

/-- The file is returned after the cascade has succeeded. -/
theorem report_survives :
    (withReport.deleteSessionCascading 1).1 = .ok () ∧
      (withReport.deleteSessionCascading 1).2.artifacts.get 5 = some report ∧
      report.sessionId = some 1 ∧ ¬ (withReport.deleteSessionCascading 1).2.Forgets 1 := by
  refine ⟨rfl, rfl, rfl, fun h => h.getArtifact 5 report rfl rfl⟩

end MemoryStore

end Behest
