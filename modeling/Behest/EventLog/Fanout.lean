import Mathlib.Algebra.Order.Group.Nat
import Behest.Channel.Broadcast
import Behest.EventLog.Subscription

/-!
# Live fan-out

`MemoryRuntimeStreamAdapter` (`behest-runtime/src/stream_adapter.rs`). Each room has a broadcast
channel; each subscriber has a task that reads the channel of its room and hands the readings
to a queue, from which the consumer polls. Publishers never wait: a task that falls behind is
told how much it missed. Publishers, tasks and consumers take their steps in any order.
-/

namespace Behest

open Channel Effect

namespace EventLog

/-- The capacity of the channel of a room, and of the queue of a subscriber.
Source: `stream_adapter.rs:35`. -/
def roomChannelCapacity : Nat := 256

/-- A subscriber: its room, where in the room it was made, what its consumer has polled, and its
task and queue. Source: `stream_adapter.rs:110–142, 150–153`. -/
structure Subscriber where
  room : RuntimeRoom
  start : Nat
  polled : List (Reading RuntimeEventEnvelope)
  relay : Relay RuntimeEventEnvelope

namespace Subscriber

/-- The task reads the channel. Source: `stream_adapter.rs:121–138`. -/
def receive (sent : List RuntimeEventEnvelope) (s : Subscriber) : Option Subscriber :=
  (s.relay.receive roomChannelCapacity sent).map fun relay => { s with relay }

/-- The task hands on what it has read. Source: `stream_adapter.rs:123–125, 132–138`. -/
def hand (s : Subscriber) : Option Subscriber :=
  (s.relay.hand roomChannelCapacity).map fun relay => { s with relay }

/-- Source: `stream_adapter.rs:158–160`. -/
def pollNext (s : Subscriber) : Option (Reading RuntimeEventEnvelope × Subscriber) :=
  s.relay.poll.map fun got => (got.1, { s with polled := s.polled ++ [got.1], relay := got.2 })

/-- The position in the room up to which the consumer has seen messages or gaps. -/
def reached (s : Subscriber) : Nat := s.start + (s.polled.map Reading.width).sum

/-- The messages that the consumer has polled. -/
def messages (s : Subscriber) : List RuntimeEventEnvelope := s.polled.filterMap Reading.value?

/-- Nothing is on the way to the consumer. -/
def Drained (sent : List RuntimeEventEnvelope) (s : Subscriber) : Prop :=
  s.relay.pending = [] ∧ recv roomChannelCapacity sent s.relay.position = none

instance (sent : List RuntimeEventEnvelope) (s : Subscriber) : Decidable (s.Drained sent) :=
  decidable_of_iff (s.relay.pending.isEmpty = true ∧
      (recv roomChannelCapacity sent s.relay.position).isNone = true) <| by
    rw [Drained, List.isEmpty_iff, Option.isNone_iff_eq_none]

/-- What was polled leads from where the subscriber was made to where the consumer stands, and
what is pending leads on from there. -/
structure Served (sent : List RuntimeEventEnvelope) (s : Subscriber) : Prop where
  polled : Covers sent s.start s.polled s.reached
  relay : s.relay.Carries roomChannelCapacity sent s.reached

variable {sent : List RuntimeEventEnvelope} {s s' : Subscriber}

theorem Served.grow (h : s.Served sent) (more : List RuntimeEventEnvelope) :
    s.Served (sent ++ more) :=
  ⟨h.polled.grow more, h.relay.grow more⟩

theorem Served.receive (h : s.Served sent) (hstep : s.receive sent = some s') :
    s'.Served sent := by
  obtain ⟨relay, hrelay, rfl⟩ := Option.map_eq_some_iff.mp hstep
  exact ⟨h.polled, h.relay.receive hrelay⟩

theorem Served.hand (h : s.Served sent) (hstep : s.hand = some s') : s'.Served sent := by
  obtain ⟨relay, hrelay, rfl⟩ := Option.map_eq_some_iff.mp hstep
  exact ⟨h.polled, h.relay.hand hrelay⟩

/-- A poll takes one reading, which leads on from where the consumer stood. -/
theorem Served.pollNext (h : s.Served sent) {reading : Reading RuntimeEventEnvelope}
    (hstep : s.pollNext = some (reading, s')) :
    s'.Served sent ∧ Covers sent s.reached [reading] s'.reached := by
  obtain ⟨⟨first, relay⟩, hpoll, hgot⟩ := Option.map_eq_some_iff.mp hstep
  cases hgot
  obtain ⟨q, hread, hrelay⟩ := h.relay.poll hpoll
  have hq : q = reached { s with polled := s.polled ++ [first], relay } := by
    have hwidth := hread.width
    rw [List.map_singleton, List.sum_singleton] at hwidth
    rw [← hwidth, reached, reached, List.map_append, List.sum_append, List.map_singleton,
      List.sum_singleton, Nat.add_assoc]
  subst hq
  exact ⟨⟨h.polled.append hread, hrelay⟩, hread⟩

theorem Served.reached_eq (h : s.Served sent) (hdrained : s.Drained sent) :
    s.reached = sent.length :=
  h.relay.eq_length hdrained.1 hdrained.2

end Subscriber

/-- The messages published to each room, and the subscribers.
Source: `stream_adapter.rs:66–69`. -/
structure Adapter where
  rooms : RuntimeRoom → List RuntimeEventEnvelope
  subscribers : Nat → Option Subscriber

namespace Adapter

def new : Adapter := ⟨fun _ => [], fun _ => none⟩

/-- A message that nobody receives is dropped: no later subscriber reads behind its start.
Source: `stream_adapter.rs:89–104`. -/
def publish (x : Adapter) (room : RuntimeRoom) (envelope : RuntimeEventEnvelope) : Adapter :=
  { x with rooms := Function.update x.rooms room (x.rooms room ++ [envelope]) }

def put (x : Adapter) (key : Nat) (s : Subscriber) : Adapter :=
  { x with subscribers := Function.update x.subscribers key (some s) }

/-- A subscriber under a free key. Source: `stream_adapter.rs:106–142`. -/
def subscribe (x : Adapter) (key : Nat) (room : RuntimeRoom) : Option Adapter :=
  match x.subscribers key with
  | some _ => none
  | none =>
      let start := (x.rooms room).length
      some (x.put key ⟨room, start, [], .opened start⟩)

/-- A step of one subscriber, which may look at its room. -/
def move (x : Adapter) (key : Nat)
    (f : List RuntimeEventEnvelope → Subscriber → Option Subscriber) : Option Adapter :=
  match x.subscribers key with
  | some s => (f (x.rooms s.room) s).map fun s' => x.put key s'
  | none => none

/-- Dropping the stream aborts the task. Source: `stream_adapter.rs:163–167`. -/
def drop (x : Adapter) (key : Nat) : Adapter :=
  { x with subscribers := Function.update x.subscribers key none }

inductive Turn where
  | publish (room : RuntimeRoom) (envelope : RuntimeEventEnvelope)
  | subscribe (key : Nat) (room : RuntimeRoom)
  | receive (key : Nat)
  | hand (key : Nat)
  | poll (key : Nat)
  | drop (key : Nat)

def step (x : Adapter) : Turn → Option Adapter
  | .publish room envelope => some (x.publish room envelope)
  | .subscribe key room => x.subscribe key room
  | .receive key => x.move key Subscriber.receive
  | .hand key => x.move key fun _ => Subscriber.hand
  | .poll key => x.move key fun _ s => s.pollNext.map Prod.snd
  | .drop key => some (x.drop key)

/-- Every subscriber is served from its own room. -/
def Served (x : Adapter) : Prop :=
  ∀ key s, x.subscribers key = some s → s.Served (x.rooms s.room)

variable {x y : Adapter} {key : Nat}

theorem served_new : new.Served := by
  rintro key s ⟨⟩

/-- The room that is published to grows by the message; the others stay. -/
theorem rooms_publish (x : Adapter) (room : RuntimeRoom) (envelope : RuntimeEventEnvelope)
    (other : RuntimeRoom) :
    (x.publish room envelope).rooms other =
      x.rooms other ++ if other = room then [envelope] else [] := by
  unfold publish
  by_cases hroom : other = room
  · subst hroom
    simp
  · simp [hroom]

/-- What a step of one subscriber leads to. -/
theorem move_cases {f : List RuntimeEventEnvelope → Subscriber → Option Subscriber}
    (h : x.move key f = some y) :
    ∃ s s', x.subscribers key = some s ∧ f (x.rooms s.room) s = some s' ∧
      y = x.put key s' := by
  unfold move at h
  split at h
  · next s hs =>
    obtain ⟨s', hs', rfl⟩ := Option.map_eq_some_iff.mp h
    exact ⟨s, s', hs, hs', rfl⟩
  · cases h

theorem Served.publish (h : x.Served) (room : RuntimeRoom) (envelope : RuntimeEventEnvelope) :
    (x.publish room envelope).Served := by
  intro key s hs
  rw [rooms_publish]
  exact (h key s hs).grow _

theorem subscribers_put (x : Adapter) (key : Nat) (s : Subscriber) (other : Nat) :
    (x.put key s).subscribers other = if other = key then some s else x.subscribers other := by
  unfold put
  by_cases hkey : other = key
  · subst hkey
    simp
  · simp [hkey]

theorem subscribers_drop (x : Adapter) (key other : Nat) :
    (x.drop key).subscribers other = if other = key then none else x.subscribers other := by
  unfold drop
  by_cases hkey : other = key
  · subst hkey
    simp
  · simp [hkey]

/-- A subscriber that is put under a key is served; the others stay. -/
theorem Served.put (h : x.Served) {s : Subscriber} (hs : s.Served (x.rooms s.room)) :
    (x.put key s).Served := by
  intro other s' hother
  rw [subscribers_put] at hother
  split at hother
  · cases hother
    exact hs
  · exact h other s' hother

theorem Served.subscribe (h : x.Served) {room : RuntimeRoom}
    (hstep : x.subscribe key room = some y) : y.Served := by
  unfold Adapter.subscribe at hstep
  split at hstep
  · cases hstep
  · cases hstep
    exact h.put ⟨.nil _, Relay.carries_opened (Nat.le_refl _)⟩

/-- A step that keeps a subscriber's room serves it as before. -/
theorem Served.move {f : List RuntimeEventEnvelope → Subscriber → Option Subscriber}
    (h : x.Served) (hstep : x.move key f = some y)
    (hroom : ∀ sent s s', f sent s = some s' → s'.room = s.room)
    (hf : ∀ sent s s', s.Served sent → f sent s = some s' → s'.Served sent) : y.Served := by
  obtain ⟨s, s', hs, hs', rfl⟩ := move_cases hstep
  apply h.put
  rw [hroom _ _ _ hs']
  exact hf _ _ _ (h key s hs) hs'

theorem Served.drop (h : x.Served) (key : Nat) : (x.drop key).Served := by
  intro other s hother
  rw [subscribers_drop] at hother
  split at hother
  · cases hother
  · exact h other s hother

end Adapter

namespace Subscriber

variable {sent : List RuntimeEventEnvelope} {s s' : Subscriber}

/-- The task moves neither the subscriber nor its consumer. -/
theorem kept_receive (h : s.receive sent = some s') :
    s'.room = s.room ∧ s'.reached = s.reached := by
  obtain ⟨relay, -, rfl⟩ := Option.map_eq_some_iff.mp h
  exact ⟨rfl, rfl⟩

theorem kept_hand (h : s.hand = some s') : s'.room = s.room ∧ s'.reached = s.reached := by
  obtain ⟨relay, -, rfl⟩ := Option.map_eq_some_iff.mp h
  exact ⟨rfl, rfl⟩

theorem room_pollNext {reading : Reading RuntimeEventEnvelope}
    (h : s.pollNext = some (reading, s')) : s'.room = s.room := by
  obtain ⟨got, -, hgot⟩ := Option.map_eq_some_iff.mp h
  cases hgot
  rfl

end Subscriber

namespace Adapter

variable {x y : Adapter} {key : Nat}

theorem Served.step (h : x.Served) {t : Turn} (hstep : x.step t = some y) : y.Served := by
  cases t with
  | publish room envelope =>
    cases hstep
    exact h.publish room envelope
  | subscribe key room => exact h.subscribe hstep
  | receive key =>
    exact h.move hstep (fun _ _ _ hs => (Subscriber.kept_receive hs).1)
      fun _ _ _ hs => hs.receive
  | hand key =>
    have hmove : x.move key (fun _ => Subscriber.hand) = some y := hstep
    exact h.move hmove (fun _ _ _ hs => (Subscriber.kept_hand hs).1) fun _ _ _ hs => hs.hand
  | poll key =>
    have hmove : x.move key (fun _ s => s.pollNext.map Prod.snd) = some y := hstep
    refine h.move hmove (fun _ s s' hpoll => ?_) fun _ s s' hs hpoll => ?_
    · obtain ⟨⟨reading, s'⟩, hgot, rfl⟩ := Option.map_eq_some_iff.mp hpoll
      exact Subscriber.room_pollNext hgot
    · obtain ⟨⟨reading, s'⟩, hgot, rfl⟩ := Option.map_eq_some_iff.mp hpoll
      exact (hs.pollNext hgot).1
  | drop key =>
    cases hstep
    exact h.drop key

theorem served_of_leadsTo (h : LeadsTo step (fun _ _ => True) new x) : x.Served := by
  apply h.invariant Served served_new
  intro x t y hx _ hstep
  exact hx.step hstep

/-- **Whatever the order of the steps, a consumer gets messages of its own room only, published
since it subscribed, each once and in order, and the messages and the gaps it is told of add up**:
when nothing is on the way to it, to everything published since. The queue stays bounded. -/
theorem messages_of_leadsTo (x : Adapter) (h : LeadsTo step (fun _ _ => True) new x) (key : Nat)
    (s : Subscriber) (hs : x.subscribers key = some s) :
    let sent := x.rooms s.room
    s.messages.Sublist ((sent.drop s.start).take (s.reached - s.start)) ∧
      s.reached ≤ sent.length ∧
      ((∀ reading ∈ s.polled, reading.value?.isSome) →
        s.messages = (sent.drop s.start).take (s.reached - s.start)) ∧
      (s.Drained sent → s.reached = sent.length) ∧
      s.relay.queue.length ≤ roomChannelCapacity := by
  intro sent
  have hserved := served_of_leadsTo h key s hs
  refine ⟨hserved.polled.sublist, ?_, hserved.polled.eq_of_no_gap, hserved.reached_eq,
    hserved.relay.bounded⟩
  exact Nat.le_trans hserved.relay.covers.le hserved.relay.position

/-- Two rooms, one subscriber. -/
theorem messages_of_leadsTo_two_rooms :
    ∃ (x : Adapter) (s : Subscriber), x.subscribers 0 = some s ∧ s.room = .run 1 ∧
      s.Drained (x.rooms s.room) ∧
      s.messages.map RuntimeEventEnvelope.seq = [2] ∧ s.reached = 2 ∧
      s.reached = (x.rooms s.room).length := by
  let e (runId seq : Nat) : RuntimeEventEnvelope :=
    ⟨seq, seq, runId, none, .textDelta runId "a", 0⟩
  have hrun : ∃ x, takeTurns step (fun _ _ => True) new
      [.publish (.run 1) (e 1 1), .subscribe 0 (.run 1), .publish (.run 1) (e 1 2), .receive 0,
        .publish (.run 2) (e 2 1), .hand 0, .poll 0] = some x := ⟨_, rfl⟩
  obtain ⟨x, hx⟩ := hrun
  have hpolled := messages_of_leadsTo x (leadsTo_of_takeTurns hx) 0
  cases hx
  exact ⟨_, _, rfl, rfl, by decide, by decide, by decide, (hpolled _ rfl).2.2.2.1 (by decide)⟩

/-! ### A consumer that keeps up -/

/-- Nothing is published to the room of a consumer that is as far behind as the channel holds. -/
def KeepsUp (key : Nat) (x : Adapter) : Turn → Prop
  | .publish room _ =>
      match x.subscribers key with
      | some s => s.room = room → (x.rooms room).length < s.reached + roomChannelCapacity
      | none => True
  | _ => True

instance (key : Nat) (x : Adapter) (t : Turn) : Decidable (KeepsUp key x t) := by
  cases t with
  | publish room envelope =>
    unfold KeepsUp
    dsimp only
    cases x.subscribers key <;> infer_instance
  | _ => exact isTrue trivial

end Adapter

namespace Subscriber

/-- No gap has been read, and the channel still holds what the consumer has not seen. -/
structure Close (sent : List RuntimeEventEnvelope) (s : Subscriber) : Prop where
  served : s.Served sent
  polled : ∀ reading ∈ s.polled ++ s.relay.pending, reading.value?.isSome
  near : sent.length ≤ s.reached + roomChannelCapacity

variable {sent : List RuntimeEventEnvelope} {s s' : Subscriber}

/-- A receiver that is no further behind than the capacity reads a message. -/
theorem Close.receive (h : s.Close sent) (hstep : s.receive sent = some s') : s'.Close sent := by
  have hserved := h.served.receive hstep
  obtain ⟨relay, hrelay, rfl⟩ := Option.map_eq_some_iff.mp hstep
  refine ⟨hserved, ?_, h.near⟩
  unfold Relay.receive at hrelay
  split at hrelay
  · cases hrelay
  · next hheld =>
    obtain ⟨⟨reading, q⟩, hrecv, rfl⟩ := Option.map_eq_some_iff.mp hrelay
    have hnear := h.near
    have hle := h.served.relay.covers.le
    have hreading : reading.value?.isSome := by
      unfold recv at hrecv
      rw [if_neg (by omega)] at hrecv
      obtain ⟨a, -, hread⟩ := Option.map_eq_some_iff.mp hrecv
      cases hread
      rfl
    intro r hr
    have hpolled := h.polled r
    simp only [Relay.pending, hheld, Option.toList_none, Option.toList_some, List.append_nil,
      List.mem_append, List.mem_singleton] at hpolled hr
    rcases hr with hr | hr | rfl
    · exact hpolled (.inl hr)
    · exact hpolled (.inr hr)
    · exact hreading

theorem Close.hand (h : s.Close sent) (hstep : s.hand = some s') : s'.Close sent := by
  have hserved := h.served.hand hstep
  obtain ⟨relay, hrelay, rfl⟩ := Option.map_eq_some_iff.mp hstep
  refine ⟨hserved, ?_, h.near⟩
  unfold Relay.hand at hrelay
  split at hrelay
  · next reading hheld =>
    split at hrelay
    · cases hrelay
      have hpolled := h.polled
      rw [Relay.pending, hheld] at hpolled
      simpa [Relay.pending] using hpolled
    · cases hrelay
  · cases hrelay

theorem Close.pollNext (h : s.Close sent) {reading : Reading RuntimeEventEnvelope}
    (hstep : s.pollNext = some (reading, s')) : s'.Close sent := by
  obtain ⟨hserved, hread⟩ := h.served.pollNext hstep
  obtain ⟨⟨first, relay⟩, hpoll, hgot⟩ := Option.map_eq_some_iff.mp hstep
  cases hgot
  refine ⟨hserved, ?_, Nat.le_trans h.near (Nat.add_le_add_right hread.le _)⟩
  unfold Relay.poll at hpoll
  split at hpoll
  · cases hpoll
  · next first rest hqueue =>
    cases hpoll
    have hpolled := h.polled
    rw [Relay.pending, hqueue] at hpolled
    simpa [Relay.pending] using hpolled

end Subscriber

namespace Adapter

variable {x y : Adapter} {key : Nat}

/-- The consumer under the key is close. -/
def CloseAt (key : Nat) (x : Adapter) : Prop :=
  ∀ s, x.subscribers key = some s → s.Close (x.rooms s.room)

theorem CloseAt.move {f : List RuntimeEventEnvelope → Subscriber → Option Subscriber}
    {other : Nat} (h : x.CloseAt key) (hstep : x.move other f = some y)
    (hroom : ∀ sent s s', f sent s = some s' → s'.room = s.room)
    (hf : ∀ sent s s', s.Close sent → f sent s = some s' → s'.Close sent) : y.CloseAt key := by
  obtain ⟨s, s', hs, hs', rfl⟩ := move_cases hstep
  intro r hr
  rw [subscribers_put] at hr
  split at hr
  · next hkey =>
    subst hkey
    cases hr
    rw [hroom _ _ _ hs']
    exact hf _ _ _ (h s hs) hs'
  · exact h r hr

theorem CloseAt.publish (h : x.CloseAt key) {room : RuntimeRoom} {envelope : RuntimeEventEnvelope}
    (hkeeps : KeepsUp key x (.publish room envelope)) : (x.publish room envelope).CloseAt key := by
  intro s hs
  have hclose := h s hs
  have hkept : s.room = room → (x.rooms room).length < s.reached + roomChannelCapacity := by
    have hs' : x.subscribers key = some s := hs
    unfold KeepsUp at hkeeps
    dsimp only at hkeeps
    rwa [hs'] at hkeeps
  rw [rooms_publish]
  refine ⟨hclose.served.grow _, hclose.polled, ?_⟩
  by_cases hroom : s.room = room
  · have hlt := hkept hroom
    rw [if_pos hroom, List.length_append, List.length_singleton, hroom]
    exact hlt
  · rw [if_neg hroom, List.append_nil]
    exact hclose.near

theorem CloseAt.step (h : x.CloseAt key) {t : Turn} (ht : KeepsUp key x t)
    (hstep : x.step t = some y) : y.CloseAt key := by
  cases t with
  | publish room envelope =>
    cases hstep
    exact h.publish ht
  | subscribe other room =>
    have hsubscribe : x.subscribe other room = some y := hstep
    unfold Adapter.subscribe at hsubscribe
    split at hsubscribe
    · cases hsubscribe
    · cases hsubscribe
      intro s hs
      rw [subscribers_put] at hs
      split at hs
      · cases hs
        have hserved : Subscriber.Served (x.rooms room)
            ⟨room, (x.rooms room).length, [], .opened (x.rooms room).length⟩ :=
          ⟨.nil _, Relay.carries_opened (Nat.le_refl _)⟩
        refine ⟨hserved, ?_, Nat.le_add_right _ _⟩
        intro reading hreading
        cases hreading
      · exact h s hs
  | receive other =>
    exact h.move hstep (fun _ _ _ hs => (Subscriber.kept_receive hs).1)
      fun _ _ _ hs => hs.receive
  | hand other =>
    have hmove : x.move other (fun _ => Subscriber.hand) = some y := hstep
    exact h.move hmove (fun _ _ _ hs => (Subscriber.kept_hand hs).1) fun _ _ _ hs => hs.hand
  | poll other =>
    have hmove : x.move other (fun _ s => s.pollNext.map Prod.snd) = some y := hstep
    refine h.move hmove (fun _ s s' hpoll => ?_) fun _ s s' hs hpoll => ?_
    · obtain ⟨⟨reading, s'⟩, hgot, rfl⟩ := Option.map_eq_some_iff.mp hpoll
      exact Subscriber.room_pollNext hgot
    · obtain ⟨⟨reading, s'⟩, hgot, rfl⟩ := Option.map_eq_some_iff.mp hpoll
      exact hs.pollNext hgot
  | drop other =>
    cases hstep
    intro s hs
    rw [subscribers_drop] at hs
    split at hs
    · cases hs
    · exact h s hs

/-- **A consumer that is never further behind than the channel holds is told of no gap**: it gets
every message published to its room since it subscribed. -/
theorem messages_of_keepsUp (key : Nat) (x : Adapter) (h : LeadsTo step (KeepsUp key) new x)
    (s : Subscriber) (hs : x.subscribers key = some s) :
    let sent := x.rooms s.room
    s.messages = (sent.drop s.start).take (s.reached - s.start) ∧
      (s.Drained sent → s.messages = sent.drop s.start) := by
  intro sent
  have hclose : x.CloseAt key := by
    apply h.invariant (CloseAt key)
    · rintro s ⟨⟩
    · intro x t y hx ht hstep
      exact hx.step ht hstep
  have hs' := hclose s hs
  have hmessages := hs'.served.polled.eq_of_no_gap fun reading hreading =>
    hs'.polled reading (List.mem_append_left _ hreading)
  refine ⟨hmessages, fun hdrained => ?_⟩
  rw [Subscriber.messages, hmessages, hs'.served.reached_eq hdrained]
  apply List.take_of_length_le
  rw [List.length_drop]

set_option maxRecDepth 2000 in
theorem messages_of_keepsUp_polled :
    ∃ (x : Adapter) (s : Subscriber), x.subscribers 0 = some s ∧ s.Drained (x.rooms s.room) ∧
      s.messages = (x.rooms s.room).drop s.start ∧
      s.messages.map RuntimeEventEnvelope.seq = [1] := by
  have hrun : ∃ x, takeTurns step (KeepsUp 0) new
      [.subscribe 0 (.run 1), .publish (.run 1) ⟨1, 1, 1, none, .textDelta 1 "a", 0⟩,
        .receive 0, .hand 0, .poll 0] = some x := ⟨_, rfl⟩
  obtain ⟨x, hx⟩ := hrun
  have hpolled := messages_of_keepsUp 0 x (leadsTo_of_takeTurns hx)
  cases hx
  exact ⟨_, _, rfl, by decide, (hpolled _ rfl).2 (by decide), by decide⟩

end Adapter

end EventLog

end Behest
