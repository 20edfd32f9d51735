import Behest.Effect.Crowd
import Behest.EventLog.Memory

/-!
# Appends that run at the same time

An append to a log in a database draws the number of its event in one step and makes the event
visible in another. What its callers may expect: every append is accepted, the numbers of a run
count its events, and a page lists them in order.
-/

namespace Behest

open Effect

namespace EventLog

/-- Source: `behest-runtime/src/event_store.rs:47–61`. -/
inductive RuntimeEventStoreError where
  | append (message : String)
  | notFound (runId : Uuid)

/-- Where an append stands: it has done nothing, it knows the session, it has drawn the number
too, or it has returned. -/
inductive AppendPhase where
  | starting
  | sessioned (sessionId : Option Uuid)
  | numbered (seq : Nat) (sessionId : Option Uuid)
  | ended (answer : Except RuntimeEventStoreError RuntimeEventEnvelope)

/-- A call of `append` under way. -/
structure Appender where
  call : AppendCall
  phase : AppendPhase

namespace Appender

def start (call : AppendCall) : Appender := ⟨call, .starting⟩

def runId (a : Appender) : Uuid := a.call.runId

/-- The number that a call about the run has drawn and not yet made visible. -/
def pending (runId : Uuid) (a : Appender) : Option Nat :=
  match a.phase with
  | .numbered seq _ => if a.runId = runId then some seq else none
  | _ => none

/-- The envelope that a call about the run has returned. -/
def answered (runId : Uuid) (a : Appender) : Option RuntimeEventEnvelope :=
  match a.phase with
  | .ended (.ok envelope) => if a.runId = runId then some envelope else none
  | _ => none

/-- The numbers that are drawn and not yet visible. -/
def pendings (runId : Uuid) (calls : List Appender) : List Nat := calls.filterMap (pending runId)

/-- The envelopes that have been returned. -/
def answers (runId : Uuid) (calls : List Appender) : List RuntimeEventEnvelope :=
  calls.filterMap (answered runId)

@[simp] theorem pendings_enter (runId : Uuid) (calls : List Appender) (call : AppendCall) :
    pendings runId (calls ++ [start call]) = pendings runId calls := by
  simp [pendings, start, pending]

@[simp] theorem answers_enter (runId : Uuid) (calls : List Appender) (call : AppendCall) :
    answers runId (calls ++ [start call]) = answers runId calls := by
  simp [answers, start, answered]

variable {runId : Uuid} {calls : List Appender} {i : Nat} {a a' : Appender}

theorem pending_eq_none (h : a.runId ≠ runId) : a.pending runId = none := by
  unfold pending
  split
  · exact if_neg h
  · rfl

theorem answered_eq_none (h : a.runId ≠ runId) : a.answered runId = none := by
  unfold answered
  split
  · exact if_neg h
  · rfl

/-- A call about another run counts for nothing. -/
theorem pendings_set_other (hi : calls[i]? = some a) (ha : a.runId ≠ runId)
    (ha' : a'.runId ≠ runId) : pendings runId (calls.set i a') = pendings runId calls :=
  filterMap_set_eq hi (by rw [pending_eq_none ha, pending_eq_none ha'])

theorem answers_set_other (hi : calls[i]? = some a) (ha : a.runId ≠ runId)
    (ha' : a'.runId ≠ runId) : answers runId (calls.set i a') = answers runId calls :=
  filterMap_set_eq hi (by rw [answered_eq_none ha, answered_eq_none ha'])

/-- The envelope that a call writes. -/
def envelope (a : Appender) (seq : Nat) (sessionId : Option Uuid) : RuntimeEventEnvelope :=
  a.call.envelope seq sessionId

/-- A call that learns its session counts for nothing yet. -/
theorem parts_sessioned (hi : calls[i]? = some a) (ha : a.phase = .starting)
    (sessionId : Option Uuid) :
    pendings runId (calls.set i { a with phase := .sessioned sessionId }) = pendings runId calls ∧
      answers runId (calls.set i { a with phase := .sessioned sessionId }) =
        answers runId calls := by
  constructor
  · exact filterMap_set_eq hi (by simp [pending, ha])
  · exact filterMap_set_eq hi (by simp [answered, ha])

/-- A call that draws its number. -/
theorem parts_numbered (hi : calls[i]? = some a) {sessionId : Option Uuid}
    (ha : a.phase = .sessioned sessionId) (hrun : a.runId = runId) (seq : Nat) :
    (pendings runId (calls.set i { a with phase := .numbered seq sessionId })).Perm
        (seq :: pendings runId calls) ∧
      answers runId (calls.set i { a with phase := .numbered seq sessionId }) =
        answers runId calls := by
  constructor
  · apply filterMap_set_perm_cons hi
    · simp [pending, ha]
    · exact if_pos hrun
  · exact filterMap_set_eq hi (by simp [answered, ha])

/-- A call that makes its event visible. -/
theorem parts_ended (hi : calls[i]? = some a) {seq : Nat} {sessionId : Option Uuid}
    (ha : a.phase = .numbered seq sessionId) (hrun : a.runId = runId)
    (envelope : RuntimeEventEnvelope) :
    (pendings runId calls).Perm
        (seq :: pendings runId (calls.set i { a with phase := .ended (.ok envelope) })) ∧
      (answers runId (calls.set i { a with phase := .ended (.ok envelope) })).Perm
        (envelope :: answers runId calls) := by
  constructor
  · apply perm_cons_filterMap_set hi
    · simp [pending, ha, hrun]
    · simp [pending]
  · apply filterMap_set_perm_cons hi
    · simp [answered, ha]
    · exact if_pos hrun

end Appender

open Appender

/-- Every answer that has been given is an envelope. -/
def Accepted (runId : Uuid) (calls : List Appender) : Prop :=
  ∀ a ∈ calls, a.runId = runId → ∀ answer, a.phase = .ended answer →
    ∃ envelope, answer = .ok envelope

/-- What callers expect of the appends to a run; a log that keeps everything lists everything. -/
structure Orderly (runId : Uuid) (calls : List Appender) (keeps : Prop)
    (page : Nat → List RuntimeEventEnvelope) : Prop where
  accepted : Accepted runId calls
  distinct : ((answers runId calls).map RuntimeEventEnvelope.seq).Nodup
  consecutive : pendings runId calls = [] →
    ((answers runId calls).map RuntimeEventEnvelope.seq).Perm
      (List.range' 1 (answers runId calls).length)
  ordered : ∀ n, Paging.Ordered RuntimeEventEnvelope.seq (page n)
  complete : pendings runId calls = [] → keeps →
    ∀ n, ∀ envelope ∈ answers runId calls, envelope.seq ≤ n → envelope ∈ page n

theorem Accepted.enter {runId : Uuid} {calls : List Appender} (h : Accepted runId calls)
    (call : AppendCall) : Accepted runId (calls ++ [start call]) := by
  intro a ha
  rcases List.mem_append.mp ha with ha | ha
  · exact h a ha
  · rw [List.mem_singleton.mp ha]
    exact fun _ _ => nofun

theorem Accepted.set {runId : Uuid} {calls : List Appender} (h : Accepted runId calls) {i : Nat}
    {a : Appender} (ha : a.runId = runId → ∀ answer, a.phase = .ended answer →
      ∃ envelope, answer = .ok envelope) : Accepted runId (calls.set i a) := by
  intro b hb
  rcases List.mem_or_eq_of_mem_set hb with hb | rfl
  · exact h b hb
  · exact ha

/-- Numbers one to the length, in some order, with the ones in between sorted: each number is the
place of its envelope. -/
theorem dense_of_perm {log : List RuntimeEventEnvelope}
    (hordered : Paging.Ordered RuntimeEventEnvelope.seq log)
    (hperm : (log.map RuntimeEventEnvelope.seq).Perm (List.range' 1 log.length)) :
    Paging.Dense RuntimeEventEnvelope.seq log := by
  have hsorted : (log.map RuntimeEventEnvelope.seq).Pairwise (· < ·) :=
    List.pairwise_map.mpr hordered
  have hrange : (List.range' 1 log.length).Pairwise (· < ·) := List.pairwise_lt_range'
  have heq : log.map RuntimeEventEnvelope.seq = List.range' 1 log.length :=
    hperm.eq_of_pairwise (fun a b _ _ hab hba => absurd hab (Nat.lt_asymm hba)) hsorted hrange
  intro i hi
  have hmap : i < (log.map RuntimeEventEnvelope.seq).length := by rwa [List.length_map]
  have hget : (log.map RuntimeEventEnvelope.seq)[i] = 1 + i := by
    simp only [heq, List.getElem_range', Nat.one_mul]
  rw [List.getElem_map] at hget
  omega

/-- An envelope of a dense log is on the page that is as long as its number. -/
theorem mem_take_of_dense {log : List RuntimeEventEnvelope}
    (h : Paging.Dense RuntimeEventEnvelope.seq log) {envelope : RuntimeEventEnvelope}
    (hmem : envelope ∈ log) {n : Nat} (hn : envelope.seq ≤ n) : envelope ∈ log.take n := by
  obtain ⟨i, hi, rfl⟩ := List.getElem_of_mem hmem
  rw [h i hi] at hn
  exact List.mem_take_iff_getElem.mpr ⟨i, by omega, rfl⟩

end EventLog

end Behest
