import Mathlib.Data.List.Sort
import Behest.EventLog.RedisAppends

/-!
# The event log in Postgres, and concurrent appends

`PostgresRuntimeEventStore` (`behest-runtime/src/event_store/postgres.rs`). The one statement of
an append reads the largest number of the run from a snapshot and then inserts the next one,
which the primary key refuses when another append has drawn it too. Concurrent appends to the
two databases are what their callers expect where the drawing and the inserting of a run do not
overlap (Postgres), and where they insert in the order of the drawing (Redis).
-/

namespace Behest

open Effect

namespace EventLog

open Appender

/-- Source: `event_store/postgres.rs:25–33, 196–204`. -/
structure EventRow (json : Serde AgentEvent) where
  runId : Uuid
  seq : Nat
  eventId : Uuid
  sessionId : Option Uuid
  event : json.Text
  emittedAt : Nat

/-- The two tables. Source: `event_store/postgres.rs:22–41`. -/
structure PostgresLog (json : Serde AgentEvent) where
  events : List (EventRow json)
  sessions : Uuid → Option Uuid

namespace PostgresLog

variable {json : Serde AgentEvent}

def new : PostgresLog json := ⟨[], fun _ => none⟩

/-- The rows of a run. -/
def rowsOf (s : PostgresLog json) (runId : Uuid) : List (EventRow json) :=
  s.events.filter fun row => row.runId == runId

/-- The session of an event: it is stored, or it is asked for.
Source: `event_store/postgres.rs:67–91`. -/
def sessionOf (s : PostgresLog json) (c : AppendCall) : Option Uuid × PostgresLog json :=
  match c.event.startedSession with
  | some sessionId =>
      (some sessionId, { s with sessions := Function.update s.sessions c.runId (some sessionId) })
  | none => (s.sessions c.runId, s)

/-- `COALESCE((SELECT MAX(seq) …), 0) + 1`. Source: `event_store/postgres.rs:100`. -/
def nextSeq (s : PostgresLog json) (runId : Uuid) : Nat :=
  ((s.rowsOf runId).map EventRow.seq).max?.getD 0 + 1

/-- Source: `event_store/postgres.rs:93–108`. -/
def encode (e : RuntimeEventEnvelope) : EventRow json :=
  ⟨e.runId, e.seq, e.eventId, e.sessionId, json.render e.event, e.emittedAt⟩

/-- Source: `event_store/postgres.rs:175–190`. -/
def decode (row : EventRow json) : Except RuntimeEventStoreError RuntimeEventEnvelope :=
  match json.parse row.event with
  | .ok event => .ok ⟨row.eventId, row.seq, row.runId, row.sessionId, event, row.emittedAt⟩
  | .error message => .error (.append ("failed to deserialize event: " ++ message))

/-- The insertion of a row; the identifier of the run and the number are the primary key.
Source: `event_store/postgres.rs:98–113`. -/
def insert (conflict : String) (s : PostgresLog json) (e : RuntimeEventEnvelope) :
    Except RuntimeEventStoreError (PostgresLog json) :=
  if s.events.any (fun row => row.runId == e.runId && row.seq == e.seq) then
    .error (.append ("INSERT failed: " ++ conflict))
  else .ok { s with events := s.events ++ [encode e] }

/-- `i64::try_from`. -/
def toI64 (what : String) (n : Nat) : Except RuntimeEventStoreError Nat :=
  if n < 2 ^ 63 then .ok n
  else .error (.append (what ++ " out of range: out of range integral type conversion attempted"))

/-- Source: `event_store/postgres.rs:126–192`. -/
def listAfter (s : PostgresLog json) (runId : Uuid) (afterSeq : Option Nat) (limit : Nat) :
    Except RuntimeEventStoreError (List RuntimeEventEnvelope) := do
  let afterSeq ← afterSeq.mapM (toI64 "after_seq")
  let limit ← toI64 "limit" limit
  ((((s.rowsOf runId).filter (Paging.isAfter EventRow.seq afterSeq)).insertionSort
    fun a b => a.seq ≤ b.seq).take limit).mapM decode

/-- The next step of an append: its session, the snapshot, the insertion.
Source: `event_store/postgres.rs:59–124`. -/
def move (conflict : String) (a : Appender) (s : PostgresLog json) :
    Option (Appender × PostgresLog json) :=
  match a.phase with
  | .starting =>
      some ({ a with phase := .sessioned (s.sessionOf a.call).1 }, (s.sessionOf a.call).2)
  | .sessioned sessionId =>
      some ({ a with phase := .numbered (s.nextSeq a.runId) sessionId }, s)
  | .numbered seq sessionId =>
      match s.insert conflict (a.envelope seq sessionId) with
      | .ok s' => some ({ a with phase := .ended (.ok (a.envelope seq sessionId)) }, s')
      | .error e => some ({ a with phase := .ended (.error e) }, s)
  | .ended _ => none

/-- A snapshot is taken when no append to the run stands between its own and its insertion. -/
def alone (x : Crowd Appender (PostgresLog json)) : Crowd.Turn AppendCall → Bool
  | .enter _ => true
  | .advance i =>
      match x.calls[i]? with
      | none => true
      | some a =>
          match a.phase with
          | .sessioned _ => (pendings a.runId x.calls).isEmpty
          | _ => true

theorem rowsOf_append (s : PostgresLog json) (row : EventRow json) (runId : Uuid) :
    rowsOf { s with events := s.events ++ [row] } runId =
      if row.runId = runId then s.rowsOf runId ++ [row] else s.rowsOf runId := by
  unfold rowsOf
  rw [List.filter_append, List.filter_singleton]
  by_cases hrun : row.runId = runId
  · rw [if_pos hrun, beq_iff_eq.mpr hrun]
    rfl
  · rw [if_neg hrun, beq_eq_false_iff_ne.mpr hrun]
    exact List.append_nil _

@[simp] theorem sessionOf_events (s : PostgresLog json) (c : AppendCall) :
    (s.sessionOf c).2.events = s.events := by
  unfold sessionOf
  split <;> rfl

theorem decode_encode (e : RuntimeEventEnvelope) :
    decode (encode e : EventRow json) = .ok e := by
  simp [decode, encode, json.parse_render]

theorem encode_injective : Function.Injective (encode : RuntimeEventEnvelope → EventRow json) := by
  intro e e' h
  have hdecode := congrArg decode h
  rw [decode_encode, decode_encode] at hdecode
  exact Except.ok.inj hdecode

/-- What the table holds of a run while appends are under way: what has been answered, numbered
from one; at most one append stands between its snapshot and its insertion, with the next
number. -/
structure Stored (runId : Uuid) (x : Crowd Appender (PostgresLog json)) : Prop where
  rows : (x.state.rowsOf runId).Perm ((answers runId x.calls).map encode)
  numbers : ((answers runId x.calls).map RuntimeEventEnvelope.seq).Perm
    (List.range' 1 (answers runId x.calls).length)
  pending : pendings runId x.calls = [] ∨
    pendings runId x.calls = [(answers runId x.calls).length + 1]
  accepted : Accepted runId x.calls

theorem stored_new (runId : Uuid) :
    Stored runId (⟨[], new⟩ : Crowd Appender (PostgresLog json)) where
  rows := .refl _
  numbers := .refl _
  pending := .inl rfl
  accepted _ ha := absurd ha List.not_mem_nil

variable {conflict : String} {runId : Uuid} {x y : Crowd Appender (PostgresLog json)} {i : Nat}
  {a : Appender}

theorem Stored.of_eq (h : Stored runId x) (hrows : y.state.rowsOf runId = x.state.rowsOf runId)
    (hpendings : pendings runId y.calls = pendings runId x.calls)
    (hanswers : answers runId y.calls = answers runId x.calls)
    (haccepted : Accepted runId y.calls) : Stored runId y where
  rows := by rw [hrows, hanswers]; exact h.rows
  numbers := by rw [hanswers]; exact h.numbers
  pending := by rw [hpendings, hanswers]; exact h.pending
  accepted := haccepted

theorem seqs_of_rows (h : Stored runId x) :
    ((x.state.rowsOf runId).map EventRow.seq).Perm
      (List.range' 1 (answers runId x.calls).length) := by
  have hseqs := h.rows.map EventRow.seq
  rw [List.map_map] at hseqs
  exact hseqs.trans h.numbers

/-- The next number of the run is the one after all that have been answered. -/
theorem Stored.nextSeq (h : Stored runId x) :
    x.state.nextSeq runId = (answers runId x.calls).length + 1 := by
  have hseqs := seqs_of_rows h
  unfold PostgresLog.nextSeq
  congr 1
  by_cases hzero : (answers runId x.calls).length = 0
  · rw [hzero, List.range'_zero] at hseqs
    rw [hseqs.eq_nil, hzero]
    rfl
  · have hmax : ((x.state.rowsOf runId).map EventRow.seq).max? =
        some (answers runId x.calls).length := by
      rw [List.max?_eq_some_iff]
      constructor
      · rw [hseqs.mem_iff, List.mem_range'_1]
        omega
      · intro seq hseq
        rw [hseqs.mem_iff, List.mem_range'_1] at hseq
        omega
    rw [hmax, Option.getD_some]

/-- A number beyond those of the run is no conflict. -/
theorem Stored.insert (h : Stored runId x) {e : RuntimeEventEnvelope} (hrun : e.runId = runId)
    (hseq : e.seq = (answers runId x.calls).length + 1) :
    x.state.insert conflict e = .ok { x.state with events := x.state.events ++ [encode e] } := by
  apply if_neg
  rw [List.any_eq_true]
  rintro ⟨row, hrow, hkey⟩
  rw [Bool.and_eq_true, beq_iff_eq, beq_iff_eq, hrun] at hkey
  have hmem : row.seq ∈ (x.state.rowsOf runId).map EventRow.seq :=
    List.mem_map_of_mem (List.mem_filter.mpr ⟨hrow, by simp [hkey.1]⟩)
  rw [(seqs_of_rows h).mem_iff, List.mem_range'_1] at hmem
  omega

theorem Stored.numbered (h : Stored runId x) (hi : x.calls[i]? = some a)
    {sessionId : Option Uuid} (ha : a.phase = .sessioned sessionId) (hrun : a.runId = runId)
    (halone : pendings runId x.calls = []) :
    Stored runId ⟨x.calls.set i
      { a with phase := .numbered (x.state.nextSeq a.runId) sessionId }, x.state⟩ := by
  obtain ⟨hpendings, hanswers⟩ := parts_numbered hi ha hrun (x.state.nextSeq a.runId)
  rw [halone, hrun, h.nextSeq] at hpendings
  constructor
  · rw [hanswers]
    exact h.rows
  · rw [hanswers]
    exact h.numbers
  · right
    rw [hanswers, hrun, h.nextSeq]
    exact List.perm_singleton.mp hpendings
  · exact h.accepted.set fun _ _ => nofun

/-- The one number that may be pending is the next. -/
theorem pending_next {rest : List Nat} {seq next : Nat}
    (h : pendings runId x.calls = [] ∨ pendings runId x.calls = [next])
    (hperm : (pendings runId x.calls).Perm (seq :: rest)) : seq = next ∧ rest = [] := by
  rcases h with hnone | hone
  · rw [hnone] at hperm
    exact absurd hperm.nil_eq (List.cons_ne_nil _ _).symm
  · rw [hone, List.singleton_perm] at hperm
    exact ⟨(List.cons.inj hperm).1.symm, (List.cons.inj hperm).2.symm⟩

/-- The insertion of the number that is pending. -/
theorem Stored.inserted (h : Stored runId x) (hi : x.calls[i]? = some a) {seq : Nat}
    {sessionId : Option Uuid} (ha : a.phase = .numbered seq sessionId) (hrun : a.runId = runId)
    {a' : Appender} {s' : PostgresLog json} (hmove : move conflict a x.state = some (a', s')) :
    Stored runId ⟨x.calls.set i a', s'⟩ := by
  obtain ⟨hpendings, hanswers⟩ := parts_ended hi ha hrun (a.envelope seq sessionId)
  obtain ⟨hseq, hrest⟩ := pending_next h.pending hpendings
  have hinsert : x.state.insert conflict (a.envelope seq sessionId) = .ok { x.state with
      events := x.state.events ++ [encode (a.envelope seq sessionId)] } := h.insert hrun hseq
  simp only [move, ha, hinsert, Option.some.injEq, Prod.mk.injEq] at hmove
  obtain ⟨rfl, rfl⟩ := hmove
  have hrow := rowsOf_append x.state (encode (a.envelope seq sessionId)) runId
  rw [if_pos (show (encode (a.envelope seq sessionId) : EventRow json).runId = runId from hrun)]
    at hrow
  have hlength := hanswers.length_eq
  rw [List.length_cons] at hlength
  constructor
  · show (rowsOf _ runId).Perm _
    rw [hrow]
    refine (List.perm_append_singleton _ _).trans ?_
    exact (h.rows.cons _).trans (hanswers.map encode).symm
  · show (List.map _ (answers runId _)).Perm (List.range' 1 (answers runId _).length)
    rw [hlength, List.range'_concat, Nat.one_mul, Nat.add_comm 1]
    refine (hanswers.map RuntimeEventEnvelope.seq).trans ?_
    refine (h.numbers.cons _).trans ?_
    rw [show (a.envelope seq sessionId).seq = (answers runId x.calls).length + 1 from hseq]
    exact (List.perm_append_singleton _ _).symm
  · exact .inl hrest
  · exact h.accepted.set fun _ answer hanswer => by cases hanswer; exact ⟨_, rfl⟩

theorem Stored.enter (h : Stored runId x) (call : AppendCall) :
    Stored runId ⟨x.calls ++ [start call], x.state⟩ := by
  apply h.of_eq
  · rfl
  · exact pendings_enter runId x.calls call
  · exact answers_enter runId x.calls call
  · exact h.accepted.enter call

theorem Stored.sessioned (h : Stored runId x) (hi : x.calls[i]? = some a)
    (ha : a.phase = .starting) :
    Stored runId ⟨x.calls.set i { a with phase := .sessioned (x.state.sessionOf a.call).1 },
      (x.state.sessionOf a.call).2⟩ := by
  obtain ⟨hpendings, hanswers⟩ : _ ∧ _ :=
    parts_sessioned hi ha (x.state.sessionOf a.call).1
  apply h.of_eq
  · unfold rowsOf
    rw [sessionOf_events]
  · exact hpendings
  · exact hanswers
  · exact h.accepted.set fun _ _ => nofun

/-- A step of an append to another run. -/
theorem Stored.other (h : Stored runId x) (hi : x.calls[i]? = some a) (hrun : a.runId ≠ runId)
    {a' : Appender} {s' : PostgresLog json} (hmove : move conflict a x.state = some (a', s')) :
    Stored runId ⟨x.calls.set i a', s'⟩ := by
  have hrows : a'.runId = a.runId ∧ s'.rowsOf runId = x.state.rowsOf runId := by
    unfold move at hmove
    split at hmove
    · cases hmove
      refine ⟨rfl, ?_⟩
      unfold rowsOf
      rw [sessionOf_events]
    · cases hmove
      exact ⟨rfl, rfl⟩
    · next seq sessionId ha =>
      unfold PostgresLog.insert at hmove
      split at hmove
      · next s'' hinsert =>
        cases hmove
        split at hinsert
        · cases hinsert
        · cases hinsert
          refine ⟨rfl, ?_⟩
          rw [rowsOf_append]
          exact if_neg hrun
      · cases hmove
        exact ⟨rfl, rfl⟩
    · cases hmove
  have hrun' : a'.runId ≠ runId := hrows.1 ▸ hrun
  apply h.of_eq hrows.2
  · exact pendings_set_other hi hrun hrun'
  · exact answers_set_other hi hrun hrun'
  · exact h.accepted.set fun hr => absurd hr hrun'

/-- A turn in which a snapshot, if it is one, is taken alone. -/
theorem Stored.step {t : Crowd.Turn AppendCall} (h : Stored runId x) (ht : alone x t = true)
    (hstep : x.step start (move conflict) t = some y) : Stored runId y := by
  rcases Crowd.step_cases hstep with ⟨call, rfl, rfl⟩ | ⟨i, a, a', s', rfl, hi, hmove, rfl⟩
  · exact h.enter call
  · by_cases hrun : a.runId = runId
    · cases ha : a.phase with
      | starting =>
        simp only [move, ha, Option.some.injEq, Prod.mk.injEq] at hmove
        obtain ⟨rfl, rfl⟩ := hmove
        exact h.sessioned hi ha
      | sessioned sessionId =>
        simp only [move, ha, Option.some.injEq, Prod.mk.injEq] at hmove
        obtain ⟨rfl, rfl⟩ := hmove
        apply h.numbered hi ha hrun
        simpa only [alone, hi, ha, hrun, List.isEmpty_iff] using ht
      | numbered seq sessionId => exact h.inserted hi ha hrun hmove
      | ended answer => simp only [move, ha, reduceCtorEq] at hmove
    · exact h.other hi hrun hmove

/-- In every state that such turns lead to, the rows of a run are what has been answered. -/
theorem stored_of_leadsTo
    (h : LeadsTo (Crowd.step start (move conflict)) (fun x t => alone x t = true) ⟨[], new⟩ x) :
    Stored runId x :=
  h.invariant (fun x => Stored runId x) (stored_new runId) fun _ _ _ hx ht hstep =>
    hx.step ht hstep

/-- The answered envelopes in the order of their numbers. -/
def pageOf (runId : Uuid) (x : Crowd Appender (PostgresLog json)) : List RuntimeEventEnvelope :=
  (answers runId x.calls).insertionSort fun e e' => e.seq ≤ e'.seq

theorem pageOf_perm (runId : Uuid) (x : Crowd Appender (PostgresLog json)) :
    (pageOf runId x).Perm (answers runId x.calls) := List.perm_insertionSort _ _

theorem mapM_decode (log : List RuntimeEventEnvelope) :
    (log.map (encode : RuntimeEventEnvelope → EventRow json)).mapM decode = .ok log := by
  induction log with
  | nil => rfl
  | cons e rest ih =>
    rw [List.map_cons, List.mapM_cons, decode_encode, ih]
    rfl

/-- Sorted by numbers that are distinct. -/
theorem ordered_of_sorted {α : Type} {seqOf : α → Nat} {l : List α}
    (hle : l.Pairwise fun a b => seqOf a ≤ seqOf b) (hnodup : (l.map seqOf).Nodup) :
    Paging.Ordered seqOf l := by
  have hne : l.Pairwise fun a b => seqOf a ≠ seqOf b := List.pairwise_map.mp hnodup
  exact hle.imp₂ (fun _ _ => Nat.lt_of_le_of_ne) hne

theorem Stored.ordered (h : Stored runId x) :
    Paging.Ordered RuntimeEventEnvelope.seq (pageOf runId x) := by
  apply ordered_of_sorted (List.pairwise_insertionSort _ _)
  show ((pageOf runId x).map RuntimeEventEnvelope.seq).Nodup
  rw [((pageOf_perm runId x).map _).nodup_iff, h.numbers.nodup_iff]
  exact List.nodup_range' ..

/-- The rows in the order of their numbers are the answers in that order. -/
theorem Stored.sorted (h : Stored runId x) :
    ((x.state.rowsOf runId).insertionSort fun row row' => row.seq ≤ row'.seq) =
      (pageOf runId x).map encode := by
  have hperm := List.perm_insertionSort (fun row row' : EventRow json => row.seq ≤ row'.seq)
    (x.state.rowsOf runId)
  have hrows : Paging.Ordered EventRow.seq
      ((x.state.rowsOf runId).insertionSort fun row row' => row.seq ≤ row'.seq) := by
    apply ordered_of_sorted (List.pairwise_insertionSort _ _)
    rw [(hperm.map _).nodup_iff, (seqs_of_rows h).nodup_iff]
    exact List.nodup_range' ..
  have hpage : Paging.Ordered EventRow.seq
      ((pageOf runId x).map (encode : RuntimeEventEnvelope → EventRow json)) :=
    List.pairwise_map.mpr h.ordered
  have hsame := (hperm.trans h.rows).trans ((pageOf_perm runId x).map encode).symm
  exact hsame.eq_of_pairwise (fun row row' _ _ hlt hgt => absurd hlt (Nat.lt_asymm hgt)) hrows hpage

/-- Without a position, a page is the beginning of the answers in order. -/
theorem Stored.listAfter (h : Stored runId x) {n : Nat} (hn : n < 2 ^ 63) :
    x.state.listAfter runId none n = .ok ((pageOf runId x).take n) := by
  have hall : (x.state.rowsOf runId).filter (Paging.isAfter EventRow.seq none) =
      x.state.rowsOf runId := List.filter_eq_self.mpr fun _ _ => rfl
  have hlimit : toI64 "limit" n = .ok n := if_pos hn
  show (toI64 "limit" n >>= fun limit => _) = _
  rw [hlimit]
  show (List.take n (List.insertionSort _ (List.filter _ _))).mapM decode = _
  rw [hall, h.sorted, ← List.map_take, mapM_decode]

/-- Appends whose snapshots are taken alone are what their callers expect. -/
theorem Stored.orderly (h : Stored runId x) :
    Orderly runId x.calls True (fun n => (pageOf runId x).take n) := by
  have hnodup := h.numbers.nodup_iff.mpr (List.nodup_range' ..)
  constructor
  · exact h.accepted
  · exact hnodup
  · exact fun _ => h.numbers
  · exact fun n => h.ordered.sublist (List.take_sublist _ _)
  · intro _ _ n envelope hmem hn
    have hdense : Paging.Dense RuntimeEventEnvelope.seq (pageOf runId x) := by
      apply dense_of_perm h.ordered
      rw [(pageOf_perm runId x).length_eq]
      exact ((pageOf_perm runId x).map _).trans h.numbers
    exact mem_take_of_dense hdense ((pageOf_perm runId x).mem_iff.mpr hmem) hn

end PostgresLog

/-- Concurrent appends are what their callers expect: in Redis where a run's events are added in
the order of their numbers, in Postgres where a run's snapshots are taken alone. -/
theorem appends_orderly (redis : RedisStreams) (json : Serde AgentEvent)
    (clock : RedisLog redis → Nat) (conflict : String) (runId : Uuid) :
    (∀ x, LeadsTo (Crowd.step start (RedisLog.move clock)) (fun x t => RedisLog.inOrder x t = true)
        ⟨[], RedisLog.new⟩ x →
      Orderly runId x.calls ((answers runId x.calls).length ≤ streamMaxlen)
        (fun n => x.state.listAfter runId none n)) ∧
    ∀ y : Crowd Appender (PostgresLog json),
      LeadsTo (Crowd.step start (PostgresLog.move conflict))
        (fun y t => PostgresLog.alone y t = true) ⟨[], PostgresLog.new⟩ y →
      ∃ page, (∀ n < 2 ^ 63, y.state.listAfter runId none n = .ok (page n)) ∧
        Orderly runId y.calls True page := by
  constructor
  · intro x hx
    obtain ⟨envelopes, hqueued⟩ : ∃ envelopes, RedisLog.Queued runId x envelopes :=
      RedisLog.queued_of_leadsTo hx
    exact hqueued.orderly
  · intro y hy
    have hstored : PostgresLog.Stored runId y := PostgresLog.stored_of_leadsTo hy
    exact ⟨_, fun n hn => hstored.listAfter hn, hstored.orderly⟩

/-- Two appends to one run. -/
def twoDeltas : List (Crowd.Turn AppendCall) :=
  [.enter ⟨.textDelta 1 "a", 10, 0⟩, .enter ⟨.textDelta 1 "b", 11, 0⟩]

/-- Both draw their numbers before the first adds; one waits with its snapshot for the other. -/
theorem appends_orderly_interleaved :
    (∃ x : Crowd Appender (RedisLog RedisLog.plain), (answers 1 x.calls).length = 2 ∧
      pendings 1 x.calls = [] ∧ Orderly 1 x.calls ((answers 1 x.calls).length ≤ streamMaxlen)
        (fun n => x.state.listAfter 1 none n)) ∧
    ∃ y : Crowd Appender (PostgresLog (.identity AgentEvent)), (answers 1 y.calls).length = 2 ∧
      ∃ page, y.state.listAfter 1 none 2 = .ok (page 2) ∧ Orderly 1 y.calls True page := by
  have h := appends_orderly RedisLog.plain (.identity AgentEvent) (fun _ => 5) "" 1
  constructor
  · obtain ⟨x, hx, hanswers, hpendings⟩ := exists_leadsTo
      (Crowd.step start (RedisLog.move fun _ => 5)) (fun x t => RedisLog.inOrder x t = true)
      ⟨[], (RedisLog.new : RedisLog RedisLog.plain)⟩
      (twoDeltas ++ [.advance 0, .advance 1, .advance 1, .advance 0, .advance 1, .advance 0])
      (fun x => (answers 1 x.calls).length = 2 ∧ pendings 1 x.calls = []) (by decide +kernel)
    exact ⟨x, hanswers, hpendings, h.1 x hx⟩
  · obtain ⟨y, hy, hanswers⟩ := exists_leadsTo
      (Crowd.step start (PostgresLog.move "")) (fun y t => PostgresLog.alone y t = true)
      ⟨[], (PostgresLog.new : PostgresLog (.identity AgentEvent))⟩
      (twoDeltas ++ [.advance 0, .advance 1, .advance 1, .advance 1, .advance 0, .advance 0])
      (fun y => (answers 1 y.calls).length = 2) (by decide +kernel)
    obtain ⟨page, hpage, horderly⟩ := h.2 y hy
    exact ⟨y, hanswers, page, hpage 2 (by decide), horderly⟩

/-- In Redis the second number is added first; in Postgres both draw the same number. -/
theorem twoDeltas_disorderly :
    (∃ x : Crowd Appender (RedisLog RedisLog.plain),
      LeadsTo (Crowd.step start (RedisLog.move fun _ => 5)) (fun _ _ => True)
        ⟨[], RedisLog.new⟩ x ∧ pendings 1 x.calls = [] ∧
      (x.state.listAfter 1 none 2).map RuntimeEventEnvelope.seq = [2, 1]) ∧
    ∃ y : Crowd Appender (PostgresLog (.identity AgentEvent)),
      LeadsTo (Crowd.step start (PostgresLog.move "duplicate key")) (fun _ _ => True)
        ⟨[], PostgresLog.new⟩ y ∧
      ∃ a ∈ y.calls, a.runId = 1 ∧
        a.phase = .ended (.error (.append "INSERT failed: duplicate key")) := by
  constructor
  · apply exists_leadsTo (Crowd.step start (RedisLog.move fun _ => 5)) (fun _ _ => True)
      ⟨[], RedisLog.new⟩
        (twoDeltas ++ [.advance 0, .advance 1, .advance 0, .advance 1, .advance 1, .advance 0])
      (fun x => pendings 1 x.calls = [] ∧
        (x.state.listAfter 1 none 2).map RuntimeEventEnvelope.seq = [2, 1])
    decide +kernel
  · have hy : (takeTurns
        (Crowd.step start (PostgresLog.move "duplicate key")) (fun _ _ => True)
        ⟨[], (PostgresLog.new : PostgresLog (.identity AgentEvent))⟩ (twoDeltas ++
          [.advance 0, .advance 1, .advance 0, .advance 1, .advance 0, .advance 1])).isSome := by
      decide +kernel
    refine ⟨Option.get _ hy, leadsTo_of_takeTurns (Option.eq_some_of_isSome hy), ?_⟩
    exact ⟨_, List.mem_of_getElem? (i := 1) rfl, rfl, rfl⟩

end EventLog

end Behest
