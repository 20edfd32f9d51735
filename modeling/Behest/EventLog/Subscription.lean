import Behest.Effect.Crowd
import Behest.EventLog.Memory

/-!
# Replay and live events

The bridge of `behest-runtime/src/subscription.rs` appends every event of the runtime to the
log and then publishes it, first to the room of its run; a subscriber opens the room of a run
and then reads a page of the log. The two take their steps in any order. What the subscriber
misses in the room is in the page, and what is in both it tells by the number.
-/

namespace Behest

open Effect

namespace EventLog

/-- The rooms that the bridge publishes to. Source: `behest-runtime/src/stream.rs:120–127`. -/
inductive RuntimeRoom where
  | run (runId : Uuid)
  | session (sessionId : Uuid)
deriving DecidableEq

/-- What the bridge does next: wait for an event, or publish one to a room. -/
inductive BridgePhase where
  | listening
  | publishing (room : RuntimeRoom) (envelope : RuntimeEventEnvelope)

/-- What a subscriber has done: nothing, opened the room at a position, or read the page too. -/
inductive SubscriberPhase where
  | outside
  | opened (position : Nat)
  | joined (position : Nat) (replay : List RuntimeEventEnvelope)

/-- The log, what has been published to each room, the bridge and a subscriber. -/
structure Subscription where
  store : StoreState
  rooms : RuntimeRoom → List RuntimeEventEnvelope
  bridge : BridgePhase
  subscriber : SubscriberPhase

namespace Subscription

def new : Subscription := ⟨.new, fun _ => [], .listening, .outside⟩

/-- The steps of the two parties. The log may refuse an event. -/
inductive Turn where
  | append (c : AppendCall) (accepted : Bool)
  | publish
  | subscribe
  | replay

/-- After the room of its run an event goes to the room of its session, if that is known.
Source: `subscription.rs:178–190`. -/
def nextRoom (room : RuntimeRoom) (envelope : RuntimeEventEnvelope) : BridgePhase :=
  match room, envelope.sessionId with
  | .run _, some sessionId => .publishing (.session sessionId) envelope
  | _, _ => .listening

variable (runId : Uuid) (afterSeq : Option Nat) (limit : Nat)

/-- One step. A receiver gets what is sent after it was made, and it does not lag.
Source: `subscription.rs:101–118, 167–209`, `stream_adapter.rs:85–142`. -/
def step (x : Subscription) : Turn → Option Subscription
  | .append c accepted =>
      match x.bridge with
      | .listening =>
          if accepted then
            some { x with
              store := (x.store.append c).2
              bridge := .publishing (.run c.runId) (x.store.append c).1 }
          else some x
      | .publishing _ _ => none
  | .publish =>
      match x.bridge with
      | .listening => none
      | .publishing room envelope =>
          some { x with
            rooms := Function.update x.rooms room (x.rooms room ++ [envelope])
            bridge := nextRoom room envelope }
  | .subscribe =>
      match x.subscriber with
      | .outside => some { x with subscriber := .opened (x.rooms (.run runId)).length }
      | _ => none
  | .replay =>
      match x.subscriber with
      | .opened position =>
          some { x with
            subscriber := .joined position (x.store.listAfter runId afterSeq limit) }
      | _ => none

/-- The page that is read can hold every stored event of the run. -/
def Ample (x : Subscription) : Turn → Prop
  | .replay => (x.store.log runId).length ≤ limit
  | _ => True

instance : ∀ x t, Decidable (Ample runId limit x t) := by
  intro x t
  cases t <;> unfold Ample <;> infer_instance

/-- The event that is stored and not yet in the room of its run. -/
def inFlight (x : Subscription) : List RuntimeEventEnvelope :=
  match x.bridge with
  | .publishing (.run id) envelope => if id = runId then [envelope] else []
  | _ => []

/-- The page is what the log held of the run when it held so many events, which were no fewer
than had been published when the room was opened. -/
def Caught (x : Subscription) : Prop :=
  match x.subscriber with
  | .outside => True
  | .opened position => position ≤ (x.rooms (.run runId)).length
  | .joined position replay =>
      position ≤ (x.rooms (.run runId)).length ∧
        ∃ stored, position ≤ stored ∧ stored ≤ (x.store.log runId).length ∧
          replay = ((x.store.log runId).take stored).filter
            (Paging.isAfter RuntimeEventEnvelope.seq afterSeq)

/-- What is stored of the run has been published, but for the event in flight. -/
structure Coherent (x : Subscription) : Prop where
  own : ∃ own, x.store.Holds runId own
  log : x.store.log runId = x.rooms (.run runId) ++ inFlight runId x
  caught : Caught runId afterSeq x

variable {runId afterSeq limit} {x y : Subscription}

theorem Coherent.dense (h : Coherent runId afterSeq x) :
    Paging.Dense RuntimeEventEnvelope.seq (x.store.log runId) := by
  obtain ⟨own, hown⟩ := h.own
  rw [hown.log]
  exact dense_recorded own

theorem coherent_new : Coherent runId afterSeq new :=
  ⟨⟨[], StoreState.holds_new runId⟩, rfl, trivial⟩

/-- The room and the log of the run grow, the subscriber stays. -/
theorem Caught.grow (h : Caught runId afterSeq x) (hsub : y.subscriber = x.subscriber)
    {more more' : List RuntimeEventEnvelope}
    (hroom : y.rooms (.run runId) = x.rooms (.run runId) ++ more)
    (hlog : y.store.log runId = x.store.log runId ++ more') : Caught runId afterSeq y := by
  unfold Caught at *
  rw [hsub, hroom, hlog, List.length_append, List.length_append]
  cases hx : x.subscriber with
  | outside => trivial
  | opened position =>
    rw [hx] at h
    exact Nat.le_add_right_of_le h
  | joined position replay =>
    rw [hx] at h
    obtain ⟨hposition, stored, hle, hstored, hreplay⟩ := h
    refine ⟨Nat.le_add_right_of_le hposition, stored, hle, Nat.le_add_right_of_le hstored, ?_⟩
    rw [List.take_append_of_le_length hstored]
    exact hreplay

theorem Coherent.append (h : Coherent runId afterSeq x) {c : AppendCall} {accepted : Bool}
    (hstep : step runId afterSeq limit x (.append c accepted) = some y) :
    Coherent runId afterSeq y := by
  unfold step at hstep
  dsimp only at hstep
  split at hstep
  · next hlistening =>
    split at hstep
    · cases hstep
      obtain ⟨own, hown⟩ := h.own
      have hroom : x.store.log runId = x.rooms (.run runId) := by
        simpa [inFlight, hlistening] using h.log
      by_cases hc : c.runId = runId
      · have hlog : (x.store.append c).2.log runId =
            x.store.log runId ++ [(x.store.append c).1] := by
          subst hc
          simp [StoreState.append, StoreState.log]
        constructor
        · exact ⟨_, hown.append hc⟩
        · simp [inFlight, hc, hlog, hroom]
        · exact h.caught.grow rfl (List.append_nil _).symm hlog
      · have hlog : (x.store.append c).2.log runId = x.store.log runId := by
          rw [(hown.append_other hc).log, hown.log]
        constructor
        · exact ⟨own, hown.append_other hc⟩
        · simp [inFlight, hc, hlog, hroom]
        · exact h.caught.grow rfl (List.append_nil _).symm (hlog.trans (List.append_nil _).symm)
    · cases hstep
      exact h
  · cases hstep

theorem Coherent.publish (h : Coherent runId afterSeq x)
    (hstep : step runId afterSeq limit x .publish = some y) : Coherent runId afterSeq y := by
  unfold step at hstep
  dsimp only at hstep
  split at hstep
  · cases hstep
  · next room envelope hpublishing =>
    cases hstep
    have hnone : inFlight runId
        { x with
          rooms := Function.update x.rooms room (x.rooms room ++ [envelope])
          bridge := nextRoom room envelope } = [] := by
      unfold inFlight nextRoom
      cases room <;> cases envelope.sessionId <;> rfl
    by_cases hroom : room = .run runId
    · subst hroom
      have hlog : x.store.log runId = x.rooms (.run runId) ++ [envelope] := by
        simpa [inFlight, hpublishing] using h.log
      constructor
      · exact h.own
      · rw [hnone]
        simpa using hlog
      · exact h.caught.grow rfl (Function.update_self _ _ _) (List.append_nil _).symm
    · have hlog : x.store.log runId = x.rooms (.run runId) := by
        have hflight : inFlight runId x = [] := by
          unfold inFlight
          rw [hpublishing]
          cases room with
          | run id => exact if_neg fun hid => hroom (congrArg RuntimeRoom.run hid)
          | session id => rfl
        simpa [hflight] using h.log
      have hkept : Function.update x.rooms room (x.rooms room ++ [envelope]) (.run runId) =
          x.rooms (.run runId) := Function.update_of_ne (Ne.symm hroom) _ _
      constructor
      · exact h.own
      · rw [hnone, List.append_nil]
        exact hlog.trans hkept.symm
      · exact h.caught.grow rfl (hkept.trans (List.append_nil _).symm) (List.append_nil _).symm

theorem Coherent.subscribe (h : Coherent runId afterSeq x)
    (hstep : step runId afterSeq limit x .subscribe = some y) : Coherent runId afterSeq y := by
  unfold step at hstep
  dsimp only at hstep
  split at hstep
  · cases hstep
    exact ⟨h.own, h.log, Nat.le_refl _⟩
  · cases hstep

theorem Coherent.replay (h : Coherent runId afterSeq x) (hample : Ample runId limit x .replay)
    (hstep : step runId afterSeq limit x .replay = some y) : Coherent runId afterSeq y := by
  unfold step at hstep
  dsimp only at hstep
  split at hstep
  · next position hopened =>
    cases hstep
    have hposition : position ≤ (x.rooms (.run runId)).length := by
      have hcaught := h.caught
      rwa [Caught, hopened] at hcaught
    refine ⟨h.own, h.log, hposition, (x.store.log runId).length, ?_, Nat.le_refl _, ?_⟩
    · rw [h.log, List.length_append]
      exact Nat.le_add_right_of_le hposition
    · rw [List.take_length, StoreState.listAfter_eq]
      exact List.take_of_length_le (Nat.le_trans (List.length_filter_le _ _) hample)
  · cases hstep

theorem coherent_of_leadsTo
    (h : LeadsTo (step runId afterSeq limit) (Ample runId limit) new x) :
    Coherent runId afterSeq x := by
  apply h.invariant (Coherent runId afterSeq) coherent_new
  intro x t y hx ht hstep
  cases t with
  | append c accepted => exact hx.append hstep
  | publish => exact hx.publish hstep
  | subscribe => exact hx.subscribe hstep
  | replay => exact hx.replay ht hstep

/-- **Whatever the order of the steps, the page and the live events after the last number seen are
the stored events of the run after the position**, each once and in order, but for an event that
the bridge has stored and not yet published, which comes last. -/
theorem replay_append_live (runId : Uuid) (afterSeq : Option Nat) (limit : Nat) (x : Subscription)
    (h : LeadsTo (step runId afterSeq limit) (Ample runId limit) new x) (position : Nat)
    (replay : List RuntimeEventEnvelope) (hjoined : x.subscriber = .joined position replay) :
    let live := (x.rooms (.run runId)).drop position
    let log := x.store.log runId
    let seen := Paging.lastSeen RuntimeEventEnvelope.seq afterSeq replay
    replay ++ (live ++ inFlight runId x).filter (Paging.isAfter RuntimeEventEnvelope.seq seen) =
        log.filter (Paging.isAfter RuntimeEventEnvelope.seq afterSeq) ∧
      Paging.Ordered RuntimeEventEnvelope.seq log ∧
      (x.bridge = .listening → inFlight runId x = []) := by
  intro live log seen
  have hcoherent := coherent_of_leadsTo h
  have hcaught := hcoherent.caught
  rw [Caught, hjoined] at hcaught
  obtain ⟨hposition, stored, hle, hstored, hreplay⟩ := hcaught
  refine ⟨?_, hcoherent.dense.ordered, fun hlistening => by simp [inFlight, hlistening]⟩
  have hlive : live ++ inFlight runId x = log.drop position := by
    show (x.rooms (.run runId)).drop position ++ _ = (x.store.log runId).drop position
    rw [hcoherent.log, List.drop_append_of_le_length hposition]
  have hrest := hcoherent.dense.page_append_rest hle hstored afterSeq
  rw [← hreplay] at hrest
  rw [hlive]
  exact hrest

/-- An event is stored before the room is opened and published after the page is read. -/
theorem replay_append_live_overlap :
    ∃ x replay, x.subscriber = .joined 1 replay ∧ replay.map RuntimeEventEnvelope.seq = [1, 2] ∧
      ((x.rooms (.run 1)).drop 1).map RuntimeEventEnvelope.seq = [2] ∧ x.bridge = .listening ∧
      replay ++ ((x.rooms (.run 1)).drop 1 ++ inFlight 1 x).filter (Paging.isAfter
        RuntimeEventEnvelope.seq (Paging.lastSeen RuntimeEventEnvelope.seq none replay)) =
        (x.store.log 1).filter (Paging.isAfter RuntimeEventEnvelope.seq none) := by
  have hrun : ∃ x, takeTurns (step 1 none 2) (Ample 1 2) new
      [.append ⟨.textDelta 1 "a", 10, 0⟩ true, .publish, .append ⟨.textDelta 1 "b", 11, 1⟩ true,
        .subscribe, .replay, .publish] = some x := ⟨_, rfl⟩
  obtain ⟨x, hx⟩ := hrun
  have hdelivered := replay_append_live 1 none 2 x (leadsTo_of_takeTurns hx) 1
  cases hx
  exact ⟨_, _, rfl, by decide, by decide, rfl, (hdelivered _ rfl).1⟩

end Subscription

end EventLog

end Behest
