import Behest.Core.Error

/-!
# Session stores as message logs

The part of `SessionStore` (`behest-store/src/lib.rs`) that concerns messages, and the store
that every backend should agree with: a log of the appended records. A backend that answers
every call as the log does, and keeps a relation to it, can be compared with it over whole
sequences of calls.
-/

namespace Behest

/-- The calls that change the messages of a store. -/
inductive StoreCall where
  | createSession (id : Uuid)
  | appendMessage (record : MessageRecord)
  | updateUsage (messageId : Uuid) (usage : TokenUsage)

/-- A session store as far as its messages go; a refused call changes nothing.
Source: `behest-store/src/lib.rs:490–544`. -/
structure SessionStore where
  State : Type
  new : State
  createSession : State → Uuid → Except StorageError State
  appendMessage : State → MessageRecord → Except StorageError State
  updateUsage : State → Uuid → TokenUsage → Except StorageError State
  listMessages : State → Uuid → Except StorageError (List MessageRecord)

namespace SessionStore

variable (store : SessionStore)

def call (s : store.State) : StoreCall → Except StorageError store.State
  | .createSession id => store.createSession s id
  | .appendMessage record => store.appendMessage s record
  | .updateUsage messageId usage => store.updateUsage s messageId usage

/-- The state after a call. -/
def next (s : store.State) (c : StoreCall) : store.State :=
  match store.call s c with
  | .ok s' => s'
  | .error _ => s

/-- The state after calls made one after the other. -/
def run (s : store.State) (calls : List StoreCall) : store.State := calls.foldl store.next s

/-- What the calls return. -/
def answers (s : store.State) : List StoreCall → List (Except StorageError Unit)
  | [] => []
  | c :: rest => (store.call s c).map (fun _ => ()) :: answers (store.next s c) rest

/-- Every call is admitted in the state it is made in. -/
def Admitted (admits : store.State → StoreCall → Prop) : store.State → List StoreCall → Prop
  | _, [] => True
  | s, c :: rest => admits s c ∧ Admitted admits (store.next s c) rest

variable {store} {s s' : store.State} {c : StoreCall} {e : StorageError}

theorem next_ok (h : store.call s c = .ok s') : store.next s c = s' := by
  unfold next
  rw [h]

theorem next_error (h : store.call s c = .error e) : store.next s c = s := by
  unfold next
  rw [h]

theorem run_cons (rest : List StoreCall) :
    store.run s (c :: rest) = store.run (store.next s c) rest := rfl

theorem answers_cons (rest : List StoreCall) :
    store.answers s (c :: rest) =
      (store.call s c).map (fun _ => ()) :: store.answers (store.next s c) rest := rfl

/-! ### Comparing two stores -/

/-- Both accept the call and stay related, or both refuse it with the same error. -/
def Matches (store other : SessionStore) (R : store.State → other.State → Prop)
    (s : store.State) (t : other.State) (c : StoreCall) : Prop :=
  (∃ s' t', store.call s c = .ok s' ∧ other.call t c = .ok t' ∧ R s' t') ∨
    ∃ e, store.call s c = .error e ∧ other.call t c = .error e

/-- The simulation rule: a relation that every admitted call keeps is kept by a sequence of
admitted calls, and both stores give the same answers. -/
theorem simulates (store other : SessionStore) (R : store.State → other.State → Prop)
    {admits : other.State → StoreCall → Prop}
    (step : ∀ s t c, R s t → admits t c → Matches store other R s t c) (calls : List StoreCall)
    {s : store.State} {t : other.State} (h : R s t) (hadmits : other.Admitted admits t calls) :
    R (store.run s calls) (other.run t calls) ∧ store.answers s calls = other.answers t calls := by
  induction calls generalizing s t with
  | nil => exact ⟨h, rfl⟩
  | cons c rest ih =>
    obtain ⟨hc, hrest⟩ := hadmits
    rw [run_cons, run_cons, answers_cons, answers_cons]
    rcases step s t c h hc with ⟨s', t', hs, ht, h'⟩ | ⟨e, hs, ht⟩
    · rw [next_ok ht] at hrest
      have ⟨hrun, hanswers⟩ := ih h' hrest
      rw [next_ok hs, next_ok ht, hs, ht, hanswers]
      exact ⟨hrun, rfl⟩
    · rw [next_error ht] at hrest
      have ⟨hrun, hanswers⟩ := ih h hrest
      rw [next_error hs, next_error ht, hs, ht, hanswers]
      exact ⟨hrun, rfl⟩

end SessionStore

/-! ### The log -/

/-- The sessions that exist, and every record in the order it was appended. -/
structure MessageLog where
  sessions : List Uuid
  records : List MessageRecord

/-- The record with another usage, when it is the one that is named. -/
def MessageRecord.withUsage (messageId : Uuid) (usage : TokenUsage) (r : MessageRecord) :
    MessageRecord :=
  if r.id = messageId then { r with usage := some usage } else r

namespace MessageLog

def createSession (l : MessageLog) (id : Uuid) : Except StorageError MessageLog :=
  .ok { l with sessions := id :: l.sessions }

def appendMessage (l : MessageLog) (record : MessageRecord) : Except StorageError MessageLog :=
  if record.sessionId ∈ l.sessions then .ok { l with records := l.records ++ [record] }
  else .error (.notFound record.sessionId.display)

def updateUsage (l : MessageLog) (messageId : Uuid) (usage : TokenUsage) :
    Except StorageError MessageLog :=
  if l.records.any (fun r => r.id == messageId) then
    .ok { l with records := l.records.map (MessageRecord.withUsage messageId usage) }
  else .error (.notFound messageId.display)

/-- The records of a session. -/
def messages (l : MessageLog) (sessionId : Uuid) : List MessageRecord :=
  l.records.filter fun r => r.sessionId == sessionId

/-- The log as a session store. -/
def store : SessionStore where
  State := MessageLog
  new := ⟨[], []⟩
  createSession := createSession
  appendMessage := appendMessage
  updateUsage := updateUsage
  listMessages l sessionId := .ok (l.messages sessionId)

/-- The log after calls. -/
def after (calls : List StoreCall) : MessageLog := store.run store.new calls

end MessageLog

namespace MessageRecord

@[simp] theorem withUsage_id (messageId : Uuid) (usage : TokenUsage) (r : MessageRecord) :
    (r.withUsage messageId usage).id = r.id := by
  unfold withUsage
  split <;> rfl

@[simp] theorem withUsage_sessionId (messageId : Uuid) (usage : TokenUsage) (r : MessageRecord) :
    (r.withUsage messageId usage).sessionId = r.sessionId := by
  unfold withUsage
  split <;> rfl

/-- Only the usage is another one. -/
theorem withUsage_eq (messageId : Uuid) (usage : TokenUsage) (r : MessageRecord) :
    ∃ u, r.withUsage messageId usage = { r with usage := u } := by
  unfold withUsage
  split
  · exact ⟨some usage, rfl⟩
  · exact ⟨r.usage, rfl⟩

end MessageRecord

end Behest
