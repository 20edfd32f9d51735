import Behest.EventLog.Appender
import Behest.EventLog.Redis

/-!
# Concurrent appends in Redis

Each command of an append is one step. `INCR` gives every append a number of its own, and the
stream holds the events in the order of their `XADD`: where appends add in the order of their
numbers, a page lists the events in order.
-/

namespace Behest

open Effect

namespace EventLog

open Appender

namespace RedisLog

variable {redis : RedisStreams}

/-- The next command of an append. The time of the server may depend on all that it holds.
Source: `event_store/redis.rs:72–130`. -/
def move (clock : RedisLog redis → Nat) (a : Appender) (s : RedisLog redis) :
    Option (Appender × RedisLog redis) :=
  match a.phase with
  | .starting =>
      some ({ a with phase := .sessioned (s.sessionOf a.call).1 }, (s.sessionOf a.call).2)
  | .sessioned sessionId =>
      some ({ a with phase := .numbered (s.incr a.runId).1 sessionId }, (s.incr a.runId).2)
  | .numbered seq sessionId =>
      some ({ a with phase := .ended (.ok (a.envelope seq sessionId)) },
        s.xadd a.runId (clock s) (redis.envelope.render (a.envelope seq sessionId)))
  | .ended _ => none

/-- The number that an append is about to make visible. -/
def adds (a : Appender) : Option Nat :=
  match a.phase with
  | .numbered seq _ => some seq
  | _ => none

/-- An `XADD` is that of the smallest number its run has drawn and not added. -/
def inOrder (x : Crowd Appender (RedisLog redis)) : Crowd.Turn AppendCall → Bool
  | .enter _ => true
  | .advance i =>
      match x.calls[i]? with
      | none => true
      | some a =>
          match adds a with
          | none => true
          | some seq => (pendings a.runId x.calls).all fun other => decide (seq ≤ other)

/-- The commands of a sequential append are the steps of one that is alone. -/
theorem append_eq_moves (s : RedisLog redis) (c : RedisCall) (clock : RedisLog redis → Nat)
    (hclock : ∀ t, clock t = c.clock) :
    ∃ a₁ s₁ a₂ s₂, move clock (start c.toAppendCall) s = some (a₁, s₁) ∧
      move clock a₁ s₁ = some (a₂, s₂) ∧
      move clock a₂ s₂ = some (⟨c.toAppendCall, .ended (.ok (s.append c).1)⟩, (s.append c).2) := by
  refine ⟨_, _, _, _, rfl, rfl, ?_⟩
  simp only [move, append, Appender.envelope, start, runId, hclock]

/-- What the keys of a run hold while appends are under way: the events in order, below all the
numbers still to be added. -/
structure Queued (runId : Uuid) (x : Crowd Appender (RedisLog redis))
    (envelopes : List RuntimeEventEnvelope) : Prop where
  texts : (x.state.stream runId).map Prod.snd = envelopes.map redis.envelope.render
  ordered : Paging.Ordered RuntimeEventEnvelope.seq envelopes
  counted : ∀ e ∈ envelopes, e.seq ≤ x.state.seq runId
  below : ∀ e ∈ envelopes, ∀ seq ∈ pendings runId x.calls, e.seq < seq
  numbers : ((answers runId x.calls).map RuntimeEventEnvelope.seq ++ pendings runId x.calls).Perm
    (List.range' 1 (x.state.seq runId))
  accepted : Accepted runId x.calls
  kept : (answers runId x.calls).length ≤ streamMaxlen → envelopes.Perm (answers runId x.calls)

theorem queued_new (runId : Uuid) :
    Queued runId (⟨[], new⟩ : Crowd Appender (RedisLog redis)) [] where
  texts := rfl
  ordered := .nil
  counted _ he := absurd he List.not_mem_nil
  below _ he := absurd he List.not_mem_nil
  numbers := .refl _
  accepted _ ha := absurd ha List.not_mem_nil
  kept _ := .refl _

variable {runId : Uuid} {x : Crowd Appender (RedisLog redis)}
  {envelopes : List RuntimeEventEnvelope} {i : Nat} {a : Appender}

theorem Queued.enter (h : Queued runId x envelopes) (call : AppendCall) :
    Queued runId ⟨x.calls ++ [start call], x.state⟩ envelopes where
  texts := h.texts
  ordered := h.ordered
  counted := h.counted
  below := by simpa using h.below
  numbers := by simpa using h.numbers
  accepted := h.accepted.enter call
  kept := by simpa using h.kept

/-- What a step must leave alone when it is none of the run's business. -/
theorem Queued.of_eq (h : Queued runId x envelopes) {y : Crowd Appender (RedisLog redis)}
    (hstream : y.state.stream runId = x.state.stream runId)
    (hseq : y.state.seq runId = x.state.seq runId)
    (hpendings : pendings runId y.calls = pendings runId x.calls)
    (hanswers : answers runId y.calls = answers runId x.calls)
    (haccepted : Accepted runId y.calls) : Queued runId y envelopes where
  texts := hstream ▸ h.texts
  ordered := h.ordered
  counted := hseq ▸ h.counted
  below := hpendings ▸ h.below
  numbers := by rw [hanswers, hpendings, hseq]; exact h.numbers
  accepted := haccepted
  kept := hanswers ▸ h.kept

/-- The session command of any append. -/
theorem Queued.sessioned (h : Queued runId x envelopes) (hi : x.calls[i]? = some a)
    (ha : a.phase = .starting) :
    Queued runId ⟨x.calls.set i { a with phase := .sessioned (x.state.sessionOf a.call).1 },
      (x.state.sessionOf a.call).2⟩ envelopes := by
  obtain ⟨hpendings, hanswers⟩ : _ ∧ _ :=
    parts_sessioned hi ha (x.state.sessionOf a.call).1
  obtain ⟨hstream, hseq⟩ := sessionOf_stream x.state a.call
  apply h.of_eq
  · exact congrFun hstream runId
  · exact congrFun hseq runId
  · exact hpendings
  · exact hanswers
  · exact h.accepted.set fun _ _ => nofun

/-- `INCR` for the run: the next number is above all others. -/
theorem Queued.numbered (h : Queued runId x envelopes) (hi : x.calls[i]? = some a)
    {sessionId : Option Uuid} (ha : a.phase = .sessioned sessionId) (hrun : a.runId = runId) :
    Queued runId ⟨x.calls.set i
      { a with phase := .numbered (x.state.incr a.runId).1 sessionId },
      (x.state.incr a.runId).2⟩ envelopes := by
  obtain ⟨hpendings, hanswers⟩ := parts_numbered hi ha hrun (x.state.incr a.runId).1
  subst hrun
  have hseq : (x.state.incr a.runId).2.seq a.runId = x.state.seq a.runId + 1 :=
    Function.update_self _ _ _
  constructor
  · exact h.texts
  · exact h.ordered
  · intro e he
    show e.seq ≤ (x.state.incr a.runId).2.seq a.runId
    rw [hseq]
    exact Nat.le_succ_of_le (h.counted e he)
  · intro e he seq hmem
    rcases List.mem_cons.mp (hpendings.mem_iff.mp hmem) with rfl | hmem
    · exact Nat.lt_succ_of_le (h.counted e he)
    · exact h.below e he seq hmem
  · show ((answers a.runId _).map RuntimeEventEnvelope.seq ++ pendings a.runId _).Perm
      (List.range' 1 ((x.state.incr a.runId).2.seq a.runId))
    rw [hanswers, hseq, List.range'_concat]
    refine ((List.Perm.append_left _ hpendings).trans List.perm_middle).trans ?_
    refine (List.Perm.cons _ h.numbers).trans ?_
    rw [Nat.one_mul, Nat.add_comm]
    exact (List.perm_append_singleton _ _).symm
  · exact h.accepted.set fun _ _ => nofun
  · rw [hanswers]
    exact h.kept

/-- The texts of a stream that may have been trimmed are those of the latest events. -/
theorem texts_xadd {s : RedisLog redis} (h : (s.stream runId).map Prod.snd =
    envelopes.map redis.envelope.render) (clock : Nat) (envelope : RuntimeEventEnvelope) :
    ∃ kept, kept <:+ envelopes ++ [envelope] ∧
      ((s.xadd runId clock (redis.envelope.render envelope)).stream runId).map Prod.snd =
        kept.map redis.envelope.render ∧
      (envelopes.length < streamMaxlen → kept = envelopes ++ [envelope]) := by
  have hall : (s.stream runId ++
      [((s.lastId runId).next clock, redis.envelope.render envelope)]).map Prod.snd =
        (envelopes ++ [envelope]).map redis.envelope.render := by simp [h]
  have hlength : (s.stream runId).length = envelopes.length := by
    simpa using congrArg List.length h
  have hstream : (s.xadd runId clock (redis.envelope.render envelope)).stream runId =
      redis.trim (s.stream runId ++
        [((s.lastId runId).next clock, redis.envelope.render envelope)]) :=
    Function.update_self _ _ _
  have hsuffix := redis.trim_suffix (s.stream runId ++
    [((s.lastId runId).next clock, redis.envelope.render envelope)])
  have hshort := redis.trim_short (s.stream runId ++
    [((s.lastId runId).next clock, redis.envelope.render envelope)])
  rw [hstream]
  generalize redis.trim (s.stream runId ++
    [((s.lastId runId).next clock, redis.envelope.render envelope)]) = rest at *
  obtain ⟨gone, hgone⟩ := hsuffix
  refine ⟨(envelopes ++ [envelope]).drop gone.length, List.drop_suffix _ _, ?_, ?_⟩
  · rw [List.map_drop, ← hall, ← hgone, ← List.map_drop, List.drop_left]
  · intro hless
    rw [hshort (by rw [List.length_append, hlength]; exact hless)] at hgone
    rw [List.append_left_eq_self.mp hgone]
    rfl

/-- `XADD` for the run, of the smallest number that is pending. -/
theorem Queued.added (h : Queued runId x envelopes) (hi : x.calls[i]? = some a) {seq : Nat}
    {sessionId : Option Uuid} (ha : a.phase = .numbered seq sessionId) (hrun : a.runId = runId)
    (hleast : ∀ other ∈ pendings runId x.calls, seq ≤ other) (clock : Nat) :
    ∃ kept, Queued runId ⟨x.calls.set i { a with phase := .ended (.ok (a.envelope seq sessionId)) },
      x.state.xadd a.runId clock (redis.envelope.render (a.envelope seq sessionId))⟩ kept := by
  obtain ⟨hpendings, hanswers⟩ := parts_ended hi ha hrun (a.envelope seq sessionId)
  subst hrun
  obtain ⟨kept, hsuffix, htexts, hwhole⟩ := texts_xadd h.texts clock (a.envelope seq sessionId)
  have hseq : seq ∈ pendings a.runId x.calls := hpendings.mem_iff.mpr List.mem_cons_self
  have hnodup : (pendings a.runId x.calls).Nodup :=
    (List.nodup_append.mp (h.numbers.nodup_iff.mpr (List.nodup_range' ..))).2.1
  have habove : ∀ other ∈ pendings a.runId
      (x.calls.set i { a with phase := .ended (.ok (a.envelope seq sessionId)) }),
      other ∈ pendings a.runId x.calls ∧ seq < other := by
    intro other hother
    have hmem := hpendings.mem_iff.mpr (List.mem_cons_of_mem seq hother)
    refine ⟨hmem, Nat.lt_of_le_of_ne (hleast other hmem) ?_⟩
    rintro rfl
    exact (List.nodup_cons.mp (hpendings.nodup_iff.mp hnodup)).1 hother
  have hordered : Paging.Ordered RuntimeEventEnvelope.seq
      (envelopes ++ [a.envelope seq sessionId]) := by
    apply List.pairwise_append.mpr ⟨h.ordered, List.pairwise_singleton _ _, ?_⟩
    intro e he e' he'
    rw [List.mem_singleton.mp he']
    exact h.below e he seq hseq
  have hmem : ∀ e ∈ kept, e ∈ envelopes ∨ e = a.envelope seq sessionId := by
    intro e he
    simpa using hsuffix.subset he
  refine ⟨kept, htexts, hordered.sublist hsuffix.sublist, ?_, ?_, ?_, ?_, ?_⟩
  · intro e he
    show e.seq ≤ x.state.seq a.runId
    rcases hmem e he with he | rfl
    · exact h.counted e he
    · have hrange := h.numbers.mem_iff.mp (List.mem_append_right _ hseq)
      have hle := (List.mem_range'_1.mp hrange).2
      show seq ≤ x.state.seq a.runId
      omega
  · intro e he other hother
    obtain ⟨hother, hlt⟩ := habove other hother
    rcases hmem e he with he | rfl
    · exact h.below e he other hother
    · exact hlt
  · refine List.Perm.trans ?_ h.numbers
    refine (List.Perm.append_right _ (hanswers.map _)).trans ?_
    exact (List.perm_middle.symm.trans (List.Perm.append_left _ hpendings.symm))
  · exact h.accepted.set fun _ answer hanswer => by cases hanswer; exact ⟨_, rfl⟩
  · intro hshort
    have hlength := hanswers.length_eq
    rw [List.length_cons] at hlength
    have hkept := h.kept (by dsimp only at hshort; omega)
    rw [hwhole (by rw [hkept.length_eq]; dsimp only at hshort; omega)]
    exact ((List.perm_append_singleton _ _).trans (hkept.cons _)).trans hanswers.symm

/-- A command of an append to another run. -/
theorem Queued.other {clock : RedisLog redis → Nat} (h : Queued runId x envelopes)
    (hi : x.calls[i]? = some a) {a' : Appender} {s' : RedisLog redis} (hrun : a.runId ≠ runId)
    (hmove : move clock a x.state = some (a', s')) :
    Queued runId ⟨x.calls.set i a', s'⟩ envelopes := by
  have hne : runId ≠ a.runId := Ne.symm hrun
  have hkeys : a'.runId = a.runId ∧ s'.stream runId = x.state.stream runId ∧
      s'.seq runId = x.state.seq runId := by
    unfold move at hmove
    split at hmove
    · cases hmove
      obtain ⟨hstream, hseq⟩ := sessionOf_stream x.state a.call
      exact ⟨rfl, congrFun hstream runId, congrFun hseq runId⟩
    · cases hmove
      exact ⟨rfl, rfl, Function.update_of_ne hne _ _⟩
    · cases hmove
      exact ⟨rfl, Function.update_of_ne hne _ _, rfl⟩
    · cases hmove
  have hrun' : a'.runId ≠ runId := hkeys.1 ▸ hrun
  apply h.of_eq hkeys.2.1 hkeys.2.2
  · exact pendings_set_other hi hrun hrun'
  · exact answers_set_other hi hrun hrun'
  · exact h.accepted.set fun hr => absurd hr hrun'

/-- A turn in which an `XADD`, if it is one, is in order. -/
theorem Queued.step {clock : RedisLog redis → Nat} {t : Crowd.Turn AppendCall}
    {y : Crowd Appender (RedisLog redis)} (h : Queued runId x envelopes) (ht : inOrder x t = true)
    (hstep : x.step start (move clock) t = some y) : ∃ kept, Queued runId y kept := by
  rcases Crowd.step_cases hstep with ⟨call, rfl, rfl⟩ | ⟨i, a, a', s', rfl, hi, hmove, rfl⟩
  · exact ⟨envelopes, h.enter call⟩
  · by_cases hrun : a.runId = runId
    · unfold move at hmove
      split at hmove
      · next ha =>
        cases hmove
        exact ⟨envelopes, h.sessioned hi ha⟩
      · next sessionId ha =>
        cases hmove
        exact ⟨envelopes, h.numbered hi ha hrun⟩
      · next seq sessionId ha =>
        cases hmove
        apply h.added hi ha hrun
        intro other hother
        simp only [inOrder, hi, adds, ha, hrun, List.all_eq_true, decide_eq_true_eq] at ht
        exact ht other hother
      · cases hmove
    · exact ⟨envelopes, h.other hi hrun hmove⟩

/-- In every state that turns in order lead to, the events of a run are queued. -/
theorem queued_of_leadsTo {clock : RedisLog redis → Nat}
    (h : LeadsTo (Crowd.step start (move clock)) (fun x t => inOrder x t = true) ⟨[], new⟩ x) :
    ∃ envelopes, Queued runId x envelopes := by
  apply h.invariant (fun x => ∃ envelopes, Queued runId x envelopes) ⟨[], queued_new runId⟩
  intro x t y ⟨envelopes, hx⟩ ht hstep
  exact hx.step ht hstep

/-- Without a position, a page is the beginning of the stream. -/
theorem Queued.listAfter (h : Queued runId x envelopes) (n : Nat) :
    x.state.listAfter runId none n = envelopes.take n := by
  have hall : (x.state.stream runId).filter (fun e => (rangeStart none).le e.1) =
      x.state.stream runId := by
    rw [List.filter_eq_self]
    intro e _
    rw [StreamId.le_iff]
    simp only [rangeStart]
    omega
  have hnone : (envelopes.take n).filter (Paging.isAfter RuntimeEventEnvelope.seq none) =
      envelopes.take n := List.filter_eq_self.mpr fun _ _ => rfl
  have hparse := filterMap_parseAfter redis (envelopes.take n) none
  rw [List.map_take, ← h.texts, ← List.map_take, List.filterMap_map, hnone] at hparse
  rw [RedisLog.listAfter, xrangeCount, hall]
  exact hparse

/-- Appends that add in the order of their numbers are what their callers expect; the events are
kept until there are more than the stream keeps. -/
theorem Queued.orderly (h : Queued runId x envelopes) :
    Orderly runId x.calls ((answers runId x.calls).length ≤ streamMaxlen)
      (fun n => x.state.listAfter runId none n) := by
  have hnodup := h.numbers.nodup_iff.mpr (List.nodup_range' ..)
  have hconsecutive : pendings runId x.calls = [] →
      ((answers runId x.calls).map RuntimeEventEnvelope.seq).Perm
        (List.range' 1 (answers runId x.calls).length) := by
    intro hrest
    have hnumbers := h.numbers
    rw [hrest, List.append_nil] at hnumbers
    have hlength := hnumbers.length_eq
    rw [List.length_map, List.length_range'] at hlength
    rwa [hlength]
  constructor
  · exact h.accepted
  · exact (List.nodup_append.mp hnodup).1
  · exact hconsecutive
  · intro n
    rw [h.listAfter]
    exact h.ordered.sublist (List.take_sublist _ _)
  · intro hrest hkeeps n envelope hmem hn
    have hkept := h.kept hkeeps
    have hdense : Paging.Dense RuntimeEventEnvelope.seq envelopes := by
      apply dense_of_perm h.ordered
      rw [hkept.length_eq]
      exact (hkept.map _).trans (hconsecutive hrest)
    rw [h.listAfter]
    exact mem_take_of_dense hdense (hkept.mem_iff.mpr hmem) hn

end RedisLog

end EventLog

end Behest
