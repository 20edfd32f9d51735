import Behest.EventLog.Fanout
import Behest.EventLog.Follower

/-!
# From the runtime to a consumer

The whole way of an event: the runtime sends it to its broadcast channel, the bridge reads the
channel, appends the event to the log and publishes it to the rooms
(`behest-runtime/src/subscription.rs`), and the task of a subscriber hands it to a consumer.
Both channels forget what a slow reader has not read, the log may refuse an event, and others
may append to the log behind the bridge's back, as the runtime itself does with cache metrics.
A consumer opens the room of a run, reads the log page by page and then the live events; a gap
sends it back to the log. All of them take their steps in any order.
-/

namespace Behest

open Channel Effect

namespace EventLog

/-- The capacity of the channel of the runtime. Source: `behest-runtime/src/agent.rs:85`. -/
def eventChannelCapacity : Nat := 256

/-- A consumer of the events of a run. -/
structure Consumer where
  runId : Uuid
  follower : Paging.Follower RuntimeEventEnvelope

/-- The events that were sent since the bridge subscribed and how many of them it has passed, the
bridge, the log, the rooms, and the consumers by the keys of their subscriptions. -/
structure Delivery where
  emitted : List AgentEvent
  position : Nat
  bridge : BridgePhase
  store : StoreState
  adapter : Adapter
  consumers : Nat → Option Consumer

namespace Delivery

def new : Delivery := ⟨[], 0, .listening, .new, .new, fun _ => none⟩

/-- The bridge reads the channel of the runtime. An event that the log refuses is not published,
and a gap is passed over. Source: `subscription.rs:167–209`. -/
def forward (x : Delivery) (eventId emittedAt : Nat) (accepted : Bool) : Option Delivery :=
  match x.bridge with
  | .publishing _ _ => none
  | .listening =>
      (recv eventChannelCapacity x.emitted x.position).map fun got =>
        match got.1 with
        | .lagged _ => { x with position := got.2 }
        | .value event =>
            let c : AppendCall := ⟨event, eventId, emittedAt⟩
            if accepted then
              { x with
                position := got.2
                store := (x.store.append c).2
                bridge := .publishing (.run c.runId) (x.store.append c).1 }
            else { x with position := got.2 }

/-- The bridge publishes what it has appended. Source: `subscription.rs:178–190`. -/
def publish (x : Delivery) : Option Delivery :=
  match x.bridge with
  | .listening => none
  | .publishing room envelope =>
      some { x with
        adapter := x.adapter.publish room envelope
        bridge := Subscription.nextRoom room envelope }

def put (x : Delivery) (key : Nat) (c : Consumer) : Delivery :=
  { x with consumers := Function.update x.consumers key (some c) }

/-- The room of the run is opened first. Source: `subscription.rs:101–118`. -/
def subscribeRun (x : Delivery) (key : Nat) (runId : Uuid) (afterSeq : Option Nat) :
    Option Delivery :=
  (x.adapter.subscribe key (.run runId)).map fun adapter =>
    { x with adapter }.put key ⟨runId, .start afterSeq⟩

/-- The consumer reads a page after the last number it has seen. -/
def turnPage (x : Delivery) (key limit : Nat) : Option Delivery :=
  match x.consumers key with
  | some c =>
      if limit = 0 then none
      else
        let cursor := c.follower.cursor RuntimeEventEnvelope.seq
        (c.follower.turnPage (x.store.listAfter c.runId cursor limit)).map fun follower =>
          x.put key { c with follower }
  | none => none

/-- The consumer takes what it polls. -/
def poll (x : Delivery) (key : Nat) : Option Delivery :=
  match x.consumers key, x.adapter.subscribers key with
  | some c, some s =>
      s.pollNext.bind fun got =>
        (c.follower.take RuntimeEventEnvelope.seq got.1).map fun follower =>
          { x with adapter := x.adapter.put key got.2 }.put key { c with follower }
  | _, _ => none

/-- A step of the task of a subscriber. -/
def serve (x : Delivery) (key : Nat)
    (f : List RuntimeEventEnvelope → Subscriber → Option Subscriber) : Option Delivery :=
  (x.adapter.move key f).map fun adapter => { x with adapter }

inductive Turn where
  | emit (event : AgentEvent)
  | forward (eventId emittedAt : Nat) (accepted : Bool)
  | publish
  | append (c : AppendCall)
  | subscribeRun (key : Nat) (runId : Uuid) (afterSeq : Option Nat)
  | turnPage (key limit : Nat)
  | receive (key : Nat)
  | hand (key : Nat)
  | poll (key : Nat)
  | drop (key : Nat)

/-- One step. Others append as `AgentRuntime::emit_cache_metrics` does
(`behest-runtime/src/agent.rs:495–521`). -/
def step (x : Delivery) : Turn → Option Delivery
  | .emit event => some { x with emitted := x.emitted ++ [event] }
  | .forward eventId emittedAt accepted => x.forward eventId emittedAt accepted
  | .publish => x.publish
  | .append c => some { x with store := (x.store.append c).2 }
  | .subscribeRun key runId afterSeq => x.subscribeRun key runId afterSeq
  | .turnPage key limit => x.turnPage key limit
  | .receive key => x.serve key Subscriber.receive
  | .hand key => x.serve key fun _ => Subscriber.hand
  | .poll key => x.poll key
  | .drop key => some { x with
      adapter := x.adapter.drop key
      consumers := Function.update x.consumers key none }

/-- What the bridge has appended and not yet published to the room of the run. -/
def inFlight (x : Delivery) (runId : Uuid) : List RuntimeEventEnvelope :=
  match x.bridge with
  | .publishing (.run id) envelope => if id = runId then [envelope] else []
  | _ => []

/-- What the room of a run gets: what has been published, and what is in flight. -/
def feed (x : Delivery) (runId : Uuid) : List RuntimeEventEnvelope :=
  x.adapter.rooms (.run runId) ++ x.inFlight runId

/-- The subscription under a consumer's key is to the room of its run, and the consumer tracks
the log by what the room gets. -/
def Attached (x : Delivery) (key : Nat) (c : Consumer) : Prop :=
  ∃ s, x.adapter.subscribers key = some s ∧ s.room = .run c.runId ∧
    c.follower.Tracks RuntimeEventEnvelope.seq (x.store.log c.runId) (x.feed c.runId) s.reached

/-- Each log is numbered from one; what a room gets is in the log in the same order; every
subscriber is served and every consumer attached. -/
structure Sound (x : Delivery) : Prop where
  own : ∀ runId, ∃ own, x.store.Holds runId own
  fed : ∀ runId, (x.feed runId).Sublist (x.store.log runId)
  served : x.adapter.Served
  attached : ∀ key c, x.consumers key = some c → x.Attached key c

variable {x y : Delivery} {key : Nat} {runId : Uuid}

theorem Sound.dense (h : x.Sound) (runId : Uuid) :
    Paging.Dense RuntimeEventEnvelope.seq (x.store.log runId) := by
  obtain ⟨own, hown⟩ := h.own runId
  rw [hown.log]
  exact dense_recorded own

theorem sound_new : new.Sound := by
  constructor
  · exact fun runId => ⟨[], StoreState.holds_new runId⟩
  · exact fun runId => List.nil_sublist _
  · exact Adapter.served_new
  · rintro key c ⟨⟩

/-- An append makes the log of its run longer by one entry, whose number is the next. -/
theorem log_append (h : x.Sound) (c : AppendCall) (runId : Uuid) :
    (x.store.append c).2.log runId =
      x.store.log runId ++ if c.runId = runId then [(x.store.append c).1] else [] := by
  split
  · next hc =>
    subst hc
    simp [StoreState.append, StoreState.log]
  · next hc =>
    obtain ⟨own, hown⟩ := h.own runId
    rw [(hown.append_other hc).log, hown.log, List.append_nil]

theorem own_append (h : x.Sound) (c : AppendCall) (runId : Uuid) :
    ∃ own, (x.store.append c).2.Holds runId own := by
  obtain ⟨own, hown⟩ := h.own runId
  by_cases hc : c.runId = runId
  · exact ⟨_, hown.append hc⟩
  · exact ⟨_, hown.append_other hc⟩

theorem lt_append (h : x.Sound) (c : AppendCall) :
    ∀ b ∈ x.store.log c.runId, b.seq < (x.store.append c).1.seq := by
  obtain ⟨own, hown⟩ := h.own c.runId
  intro b hb
  obtain ⟨i, hi, rfl⟩ := List.getElem_of_mem hb
  have hseq := h.dense c.runId i hi
  have hlast : (x.store.append c).1.seq = own.length + 1 :=
    congrArg (· + 1) hown.seq
  rw [hown.log, length_recorded] at hi
  omega

/-- The consumers stay attached when their logs grow by entries that are fed or not. -/
theorem Sound.attached_append (h : x.Sound) (c : AppendCall)
    (more : Uuid → List RuntimeEventEnvelope)
    (hstore : y.store = (x.store.append c).2) (hsubscribers : y.adapter = x.adapter)
    (hconsumers : y.consumers = x.consumers)
    (hfeed : ∀ runId, y.feed runId = x.feed runId ++ more runId)
    (hmore : ∀ runId, ∀ b ∈ more runId, c.runId = runId ∧ b = (x.store.append c).1) :
    ∀ key d, y.consumers key = some d → y.Attached key d := by
  intro key d hd
  rw [hconsumers] at hd
  obtain ⟨s, hs, hroom, htracks⟩ := h.attached key d hd
  refine ⟨s, by rw [hsubscribers]; exact hs, hroom, ?_⟩
  rw [hstore, log_append h, hfeed]
  have hreached : s.reached ≤ (x.feed d.runId).length := by
    have hserved := (h.served key s hs).relay
    rw [hroom] at hserved
    rw [feed, List.length_append]
    exact Nat.le_add_right_of_le (Nat.le_trans hserved.covers.le hserved.position)
  by_cases hc : c.runId = d.runId
  · rw [if_pos hc]
    refine htracks.grow ?_ hreached fun b hb => (hmore _ b hb).2
    rw [← hc]
    exact lt_append h c
  · have hnone : more d.runId = [] :=
      List.eq_nil_iff_forall_not_mem.mpr fun b hb => hc (hmore _ b hb).1
    rw [if_neg hc, hnone, List.append_nil, List.append_nil]
    exact htracks

/-- The state after the bridge has appended an event. -/
def appended (x : Delivery) (position : Nat) (c : AppendCall) : Delivery :=
  { x with
    position
    store := (x.store.append c).2
    bridge := .publishing (.run c.runId) (x.store.append c).1 }

/-- The bridge passes over events, or appends the one that it has read. -/
theorem forward_cases {eventId emittedAt : Nat} {accepted : Bool}
    (h : x.forward eventId emittedAt accepted = some y) :
    x.bridge = .listening ∧ ∃ reading position,
      Covers x.emitted x.position [reading] position ∧
      (y = { x with position } ∨
        ∃ event, reading = .value event ∧ y = x.appended position ⟨event, eventId, emittedAt⟩) := by
  unfold Delivery.forward at h
  split at h
  · cases h
  · next hlistening =>
    obtain ⟨⟨reading, position⟩, hrecv, rfl⟩ := Option.map_eq_some_iff.mp h
    refine ⟨hlistening, reading, position, covers_of_recv hrecv, ?_⟩
    cases reading with
    | lagged skipped => exact .inl rfl
    | value event =>
      cases accepted with
      | false => exact .inl rfl
      | true => exact .inr ⟨event, rfl, rfl⟩

theorem inFlight_listening (h : x.bridge = .listening) (runId : Uuid) : x.inFlight runId = [] := by
  rw [inFlight, h]

theorem feed_appended (h : x.bridge = .listening) (position : Nat) (c : AppendCall)
    (runId : Uuid) :
    (x.appended position c).feed runId =
      x.feed runId ++ if c.runId = runId then [(x.store.append c).1] else [] := by
  rw [feed, feed, inFlight_listening h, List.append_nil]
  rfl

/-- What the bridge has read goes to the log, and is in flight. -/
theorem Sound.appended (h : x.Sound) (hlistening : x.bridge = .listening) (position : Nat)
    (c : AppendCall) : (x.appended position c).Sound := by
  refine ⟨own_append h _, fun runId => ?_, h.served, ?_⟩
  · rw [feed_appended hlistening]
    show List.Sublist _ ((x.store.append c).2.log runId)
    rw [log_append h]
    exact (h.fed runId).append (.refl _)
  · refine h.attached_append c
      (fun runId => if c.runId = runId then [(x.store.append c).1] else []) rfl rfl rfl
      (feed_appended hlistening position c) ?_
    intro runId b hb
    split at hb
    · next hrun => exact ⟨hrun, List.mem_singleton.mp hb⟩
    · cases hb

theorem Sound.forward (h : x.Sound) {eventId emittedAt : Nat} {accepted : Bool}
    (hstep : x.forward eventId emittedAt accepted = some y) : y.Sound := by
  obtain ⟨hlistening, reading, position, -, rfl | ⟨event, -, rfl⟩⟩ := forward_cases hstep
  · exact ⟨h.own, h.fed, h.served, h.attached⟩
  · exact h.appended hlistening position _

/-- Publishing moves an envelope from flight to the room. -/
theorem feed_publish (h : x.publish = some y) (runId : Uuid) : y.feed runId = x.feed runId := by
  unfold Delivery.publish at h
  split at h
  · cases h
  · next room envelope hpublishing =>
    cases h
    unfold feed
    rw [Adapter.rooms_publish, List.append_assoc]
    congr 1
    unfold inFlight Subscription.nextRoom
    rw [hpublishing]
    cases room with
    | run id =>
      by_cases hid : id = runId
      · subst hid
        cases envelope.sessionId <;> simp
      · have hother : ¬ RuntimeRoom.run runId = .run id := fun heq =>
          hid (RuntimeRoom.run.inj heq).symm
        cases envelope.sessionId <;> simp [hid, hother]
    | session id => simp

theorem Sound.publish (h : x.Sound) (hstep : x.publish = some y) : y.Sound := by
  have hfeed := feed_publish hstep
  unfold Delivery.publish at hstep
  split at hstep
  · cases hstep
  · cases hstep
    refine ⟨h.own, fun runId => ?_, h.served.publish _ _, fun key c hc => ?_⟩
    · rw [hfeed]
      exact h.fed runId
    · obtain ⟨s, hs, hroom, htracks⟩ := h.attached key c hc
      refine ⟨s, hs, hroom, ?_⟩
      rw [hfeed]
      exact htracks

/-- Others append to the log what the bridge does not see. -/
theorem Sound.append (h : x.Sound) (c : AppendCall) :
    Sound { x with store := (x.store.append c).2 } := by
  refine ⟨own_append h c, fun runId => ?_, h.served, ?_⟩
  · show List.Sublist _ ((x.store.append c).2.log runId)
    rw [log_append h]
    exact (h.fed runId).trans (List.sublist_append_left _ _)
  · refine h.attached_append c (fun _ => []) rfl rfl rfl
      (fun runId => (List.append_nil _).symm) ?_
    rintro runId b ⟨⟩

/-- A consumer with its subscriber is put under a key; the rest stays. -/
theorem Sound.put (h : x.Sound) {adapter : Adapter} {c : Consumer} {s : Subscriber}
    (hrooms : adapter.rooms = x.adapter.rooms)
    (hsubscribers : ∀ other, other ≠ key → adapter.subscribers other = x.adapter.subscribers other)
    (hserved : adapter.Served) (hs : adapter.subscribers key = some s)
    (hroom : s.room = .run c.runId)
    (htracks : c.follower.Tracks RuntimeEventEnvelope.seq (x.store.log c.runId) (x.feed c.runId)
      s.reached) : Sound ({ x with adapter }.put key c) := by
  have hfeed : ∀ runId, ({ x with adapter }.put key c).feed runId = x.feed runId := by
    intro runId
    show adapter.rooms _ ++ _ = _
    rw [hrooms]
    rfl
  refine ⟨h.own, fun runId => ?_, hserved, fun other d hd => ?_⟩
  · rw [hfeed]
    exact h.fed runId
  · unfold Attached
    rw [hfeed]
    by_cases hkey : other = key
    · subst hkey
      have hd' : some c = some d := by
        rw [← hd]
        exact (Function.update_self other (some c) x.consumers).symm
      cases hd'
      exact ⟨s, hs, hroom, htracks⟩
    · have hd' : x.consumers other = some d := by
        rw [← hd]
        exact (Function.update_of_ne hkey (some c) x.consumers).symm
      obtain ⟨s', hs', hroom', htracks'⟩ := h.attached other d hd'
      exact ⟨s', (hsubscribers other hkey).trans hs', hroom', htracks'⟩

theorem Sound.subscribeRun (h : x.Sound) {afterSeq : Option Nat}
    (hstep : x.subscribeRun key runId afterSeq = some y) : y.Sound := by
  obtain ⟨adapter, hadapter, rfl⟩ := Option.map_eq_some_iff.mp hstep
  have hserved := h.served.subscribe hadapter
  unfold Adapter.subscribe at hadapter
  split at hadapter
  · cases hadapter
  · cases hadapter
    refine h.put rfl (fun other hother => ?_) hserved
      (by rw [Adapter.subscribers_put, if_pos rfl]) rfl (Paging.Follower.tracks_start _ _ _ _)
    rw [Adapter.subscribers_put, if_neg hother]

theorem Sound.turnPage (h : x.Sound) {limit : Nat} (hstep : x.turnPage key limit = some y) :
    y.Sound := by
  unfold Delivery.turnPage at hstep
  split at hstep
  · next c hc =>
    split at hstep
    · cases hstep
    · next hlimit =>
      obtain ⟨follower, hfollower, rfl⟩ := Option.map_eq_some_iff.mp hstep
      obtain ⟨s, hs, hroom, htracks⟩ := h.attached key c hc
      rw [StoreState.listAfter_eq] at hfollower
      exact h.put rfl (fun _ _ => rfl) h.served hs hroom
        (htracks.turnPage (h.dense c.runId).ordered (h.fed c.runId) hlimit hfollower)
  · cases hstep

theorem Sound.poll (h : x.Sound) (hstep : x.poll key = some y) : y.Sound := by
  unfold Delivery.poll at hstep
  split at hstep
  · next c s hc hs =>
    obtain ⟨⟨reading, s'⟩, hpoll, hrest⟩ := Option.bind_eq_some_iff.mp hstep
    obtain ⟨follower, htake, rfl⟩ := Option.map_eq_some_iff.mp hrest
    obtain ⟨r, hr, hroom, htracks⟩ := h.attached key c hc
    obtain rfl : s = r := Option.some.inj (hs.symm.trans hr)
    have hroom' : s'.room = s.room := Subscriber.room_pollNext hpoll
    obtain ⟨hserved, hread⟩ := (h.served key s hs).pollNext hpoll
    have hfed : Covers (x.feed c.runId) s.reached [reading] s'.reached := by
      rw [hroom] at hread
      exact hread.grow _
    refine h.put rfl (fun other hother => ?_) (h.served.put ?_)
      (by rw [Adapter.subscribers_put, if_pos rfl]) (hroom'.trans hroom)
      (htracks.take (h.dense c.runId).ordered (h.fed c.runId) hfed htake)
    · rw [Adapter.subscribers_put, if_neg hother]
    · rw [hroom']
      exact hserved
  · cases hstep

/-- A step of the task of a subscriber is none of its consumer's. -/
theorem Sound.serve (h : x.Sound)
    {f : List RuntimeEventEnvelope → Subscriber → Option Subscriber}
    (hstep : x.serve key f = some y)
    (hkept : ∀ sent s s', f sent s = some s' → s'.room = s.room ∧ s'.reached = s.reached)
    (hf : ∀ sent s s', s.Served sent → f sent s = some s' → s'.Served sent) : y.Sound := by
  obtain ⟨adapter, hadapter, rfl⟩ := Option.map_eq_some_iff.mp hstep
  have hserved := h.served.move hadapter (fun sent s s' hs => (hkept sent s s' hs).1) hf
  obtain ⟨s, s', hs, hs', rfl⟩ := Adapter.move_cases hadapter
  obtain ⟨hroom', hreached⟩ := hkept _ _ _ hs'
  refine ⟨h.own, h.fed, hserved, fun other c hc => ?_⟩
  obtain ⟨r, hr, hroom, htracks⟩ := h.attached other c hc
  by_cases hkey : other = key
  · subst hkey
    obtain rfl : s = r := Option.some.inj (hs.symm.trans hr)
    refine ⟨s', by rw [Adapter.subscribers_put, if_pos rfl], hroom'.trans hroom, ?_⟩
    rw [hreached]
    exact htracks
  · refine ⟨r, ?_, hroom, htracks⟩
    rw [Adapter.subscribers_put, if_neg hkey]
    exact hr

theorem Sound.drop (h : x.Sound) (key : Nat) :
    Sound { x with
      adapter := x.adapter.drop key
      consumers := Function.update x.consumers key none } := by
  refine ⟨h.own, h.fed, h.served.drop key, fun other c hc => ?_⟩
  dsimp only at hc
  by_cases hkey : other = key
  · subst hkey
    rw [Function.update_self] at hc
    cases hc
  · rw [Function.update_of_ne hkey] at hc
    obtain ⟨s, hs, hroom, htracks⟩ := h.attached other c hc
    refine ⟨s, ?_, hroom, htracks⟩
    rw [Adapter.subscribers_drop, if_neg hkey]
    exact hs

theorem Sound.step (h : x.Sound) {t : Turn} (hstep : x.step t = some y) : y.Sound := by
  cases t with
  | emit event =>
    cases hstep
    exact ⟨h.own, h.fed, h.served, h.attached⟩
  | forward eventId emittedAt accepted => exact h.forward hstep
  | publish => exact h.publish hstep
  | append c =>
    cases hstep
    exact h.append c
  | subscribeRun key runId afterSeq => exact h.subscribeRun hstep
  | turnPage key limit => exact h.turnPage hstep
  | receive key =>
    exact h.serve hstep (fun _ _ _ => Subscriber.kept_receive) fun _ _ _ hs => hs.receive
  | hand key =>
    have hserve : x.serve key (fun _ => Subscriber.hand) = some y := hstep
    exact h.serve hserve (fun _ _ _ => Subscriber.kept_hand) fun _ _ _ hs => hs.hand
  | poll key => exact h.poll hstep
  | drop key =>
    cases hstep
    exact h.drop key

theorem sound_of_leadsTo {allowed : Delivery → Turn → Prop} (h : LeadsTo step allowed new x) :
    x.Sound := by
  apply h.invariant Sound sound_new
  intro x t y hx _ hstep
  exact hx.step hstep

/-- The step of a consumer or of its subscriber's task. -/
def Turn.ofReader : Turn → Bool
  | .emit _ | .forward _ _ _ | .publish | .append _ => false
  | _ => true

/-- What lies before the tasks of the subscribers is as it was. -/
structure Upstream (x y : Delivery) : Prop where
  emitted : y.emitted = x.emitted
  position : y.position = x.position
  bridge : y.bridge = x.bridge
  store : y.store = x.store
  rooms : y.adapter.rooms = x.adapter.rooms

theorem Upstream.feed (h : x.Upstream y) (runId : Uuid) : y.feed runId = x.feed runId := by
  unfold Delivery.feed inFlight
  rw [h.rooms, h.bridge]

/-- Readers change nothing for the writers. -/
theorem upstream_of_reader {t : Turn} (ht : t.ofReader = true) (hstep : x.step t = some y) :
    x.Upstream y := by
  cases t with
  | emit | forward | publish | append => cases ht
  | subscribeRun key runId afterSeq =>
    obtain ⟨adapter, hadapter, rfl⟩ := Option.map_eq_some_iff.mp hstep
    unfold Adapter.subscribe at hadapter
    split at hadapter <;> cases hadapter
    exact ⟨rfl, rfl, rfl, rfl, rfl⟩
  | turnPage key limit =>
    have hpage : x.turnPage key limit = some y := hstep
    unfold Delivery.turnPage at hpage
    split at hpage
    · split at hpage
      · cases hpage
      · obtain ⟨follower, -, rfl⟩ := Option.map_eq_some_iff.mp hpage
        exact ⟨rfl, rfl, rfl, rfl, rfl⟩
    · cases hpage
  | receive key | hand key =>
    obtain ⟨adapter, hadapter, rfl⟩ := Option.map_eq_some_iff.mp hstep
    obtain ⟨s, s', -, -, rfl⟩ := Adapter.move_cases hadapter
    exact ⟨rfl, rfl, rfl, rfl, rfl⟩
  | poll key =>
    have hpoll : x.poll key = some y := hstep
    unfold Delivery.poll at hpoll
    split at hpoll
    · obtain ⟨got, -, hrest⟩ := Option.bind_eq_some_iff.mp hpoll
      obtain ⟨follower, -, rfl⟩ := Option.map_eq_some_iff.mp hrest
      exact ⟨rfl, rfl, rfl, rfl, rfl⟩
    · cases hpoll
  | drop key =>
    cases hstep
    exact ⟨rfl, rfl, rfl, rfl, rfl⟩

/-- Everything that was published to the room of the consumer's run has been polled. -/
def Drained (x : Delivery) (key : Nat) : Prop :=
  ∀ s, x.adapter.subscribers key = some s → s.Drained (x.adapter.rooms s.room)

/-- **Whatever the order of the steps, however far the tasks fall behind and whoever else appends,
a consumer sees events of its run from the log after the number it started from, each once and in
order, and it misses none that is published**: one that it has not seen is still ahead of it,
and when it follows and everything is polled, it has seen them all. -/
theorem seen_of_leadsTo (x : Delivery) (h : LeadsTo step (fun _ _ => True) new x) (key : Nat)
    (c : Consumer) (hc : x.consumers key = some c) :
    let log := x.store.log c.runId
    let published := x.adapter.rooms (.run c.runId)
    let after := Paging.isAfter RuntimeEventEnvelope.seq c.follower.after
    let cursor := c.follower.cursor RuntimeEventEnvelope.seq
    Paging.Ordered RuntimeEventEnvelope.seq log ∧
      c.follower.seen.Sublist (log.filter after) ∧
      (∀ e ∈ published, after e = true → e ∉ c.follower.seen →
        Paging.isAfter RuntimeEventEnvelope.seq cursor e = true) ∧
      (c.follower.following = true → x.Drained key →
        ∀ e ∈ published, after e = true → e ∈ c.follower.seen) := by
  intro log published after cursor
  have hsound := sound_of_leadsTo h
  have hordered := (hsound.dense c.runId).ordered
  obtain ⟨s, hs, hroom, htracks⟩ := hsound.attached key c hc
  refine ⟨hordered, htracks.sublist hordered, fun e he => ?_, fun hfollowing hdrained e he => ?_⟩
  · exact htracks.ahead e (List.mem_append_left _ he)
  · have hreached : s.reached = published.length := by
      have hreached := (hsound.served key s hs).reached_eq (hdrained s hs)
      rwa [hroom] at hreached
    apply htracks.passed hfollowing
    rw [hreached, feed, List.take_left]
    exact he

/-- An event is stored before the room is opened, one is published while the log is read, and one
comes live. -/
theorem seen_of_leadsTo_following :
    ∃ (x : Delivery) (c : Consumer), x.consumers 0 = some c ∧
      c.follower.seen.map RuntimeEventEnvelope.seq = [1, 2, 3] ∧
      ∀ e ∈ x.adapter.rooms (.run 1), e ∈ c.follower.seen := by
  have hrun : ∃ x, takeTurns step (fun _ _ => True) new
      [.emit (.textDelta 1 "a"), .forward 10 0 true, .publish, .subscribeRun 0 1 none,
        .emit (.textDelta 1 "b"), .forward 11 1 true, .turnPage 0 5, .publish, .turnPage 0 5,
        .receive 0, .hand 0, .poll 0, .emit (.textDelta 1 "c"), .forward 12 2 true, .publish,
        .receive 0, .hand 0, .poll 0] = some x := ⟨_, rfl⟩
  obtain ⟨x, hx⟩ := hrun
  have hseen := seen_of_leadsTo x (leadsTo_of_takeTurns hx) 0
  cases hx
  refine ⟨_, _, rfl, by decide, fun e he => (hseen _ rfl).2.2.2 rfl ?_ e he rfl⟩
  intro s hs
  cases hs
  decide

/-! ### A log that only the bridge writes -/

/-- Nobody else appends an event of the run. -/
def Sole (runId : Uuid) (_ : Delivery) : Turn → Prop
  | .append c => c.runId ≠ runId
  | _ => True

instance (runId : Uuid) (x : Delivery) (t : Turn) : Decidable (Sole runId x t) := by
  cases t <;> unfold Sole <;> infer_instance

/-- The room gets the whole log. -/
theorem feed_eq_log (h : LeadsTo step (Sole runId) new x) : x.feed runId = x.store.log runId := by
  suffices hboth : x.Sound ∧ x.feed runId = x.store.log runId from hboth.2
  apply h.invariant (fun x => x.Sound ∧ x.feed runId = x.store.log runId) ⟨sound_new, rfl⟩
  intro x t y ⟨hsound, hfeed⟩ hsole hstep
  refine ⟨hsound.step hstep, ?_⟩
  cases t with
  | emit event =>
    cases hstep
    exact hfeed
  | forward eventId emittedAt accepted =>
    obtain ⟨hlistening, reading, position, -, rfl | ⟨event, -, rfl⟩⟩ := forward_cases hstep
    · exact hfeed
    · rw [feed_appended hlistening, hfeed]
      exact (log_append hsound _ runId).symm
  | publish =>
    have hstore : y.store = x.store := by
      have hpublish : x.publish = some y := hstep
      unfold Delivery.publish at hpublish
      split at hpublish <;> cases hpublish
      rfl
    rw [feed_publish hstep, hstore, hfeed]
  | append c =>
    cases hstep
    show x.feed runId = (x.store.append c).2.log runId
    rw [log_append hsound, if_neg hsole, List.append_nil, hfeed]
  | subscribeRun | turnPage | receive | hand | poll | drop =>
    obtain hkept := upstream_of_reader rfl hstep
    rw [hkept.feed, hkept.store, hfeed]

/-- **When only the bridge writes the log of the run, what a consumer has seen and what is ahead
of it make up the log after the number it started from**; when it follows, everything is polled
and nothing is in flight, it has seen the whole of that. -/
theorem seen_of_sole (runId : Uuid) (x : Delivery) (h : LeadsTo step (Sole runId) new x)
    (key : Nat) (c : Consumer) (hc : x.consumers key = some c) (hrun : c.runId = runId) :
    let rest := (x.store.log runId).filter
      (Paging.isAfter RuntimeEventEnvelope.seq c.follower.after)
    c.follower.seen ++ (x.store.log runId).filter
        (Paging.isAfter RuntimeEventEnvelope.seq (c.follower.cursor RuntimeEventEnvelope.seq)) =
      rest ∧
      (c.follower.following = true → x.Drained key → x.bridge = .listening →
        c.follower.seen = rest) := by
  intro rest
  subst hrun
  have hsound := sound_of_leadsTo h
  have hordered := (hsound.dense c.runId).ordered
  have hfeed := feed_eq_log h
  obtain ⟨s, hs, hroom, htracks⟩ := hsound.attached key c hc
  rw [hfeed] at htracks
  refine ⟨htracks.seen_append_ahead hordered, fun hfollowing hdrained hlistening => ?_⟩
  have hreached : s.reached = (x.store.log c.runId).length := by
    have hreached := (hsound.served key s hs).reached_eq (hdrained s hs)
    rwa [hroom, ← List.append_nil (x.adapter.rooms _), ← inFlight_listening hlistening c.runId,
      ← feed, hfeed] at hreached
  refine htracks.ordered.ext (hordered.filter _) fun e => ⟨fun he => ?_, fun he => ?_⟩
  · exact List.mem_filter.mpr (htracks.logged e he)
  · obtain ⟨hmem, hafter⟩ := List.mem_filter.mp he
    apply htracks.passed hfollowing e _ hafter
    rwa [hreached, List.take_length]

/-- Another run's log is written by others; this one's is complete. -/
theorem seen_of_sole_other_run :
    ∃ (x : Delivery) (c : Consumer), x.consumers 0 = some c ∧
      c.follower.seen.map RuntimeEventEnvelope.seq = [2] ∧
      c.follower.seen = (x.store.log 1).filter
        (Paging.isAfter RuntimeEventEnvelope.seq c.follower.after) := by
  have hrun : ∃ x, takeTurns step (Sole 1) new
      [.subscribeRun 0 1 (some 1), .turnPage 0 1, .emit (.textDelta 1 "a"), .forward 10 0 true,
        .append ⟨.cacheMetrics 2 1 0 0, 11, 0⟩, .publish, .receive 0, .hand 0, .poll 0,
        .emit (.textDelta 1 "b"), .forward 12 1 true, .publish, .receive 0, .hand 0,
        .poll 0] = some x := ⟨_, rfl⟩
  obtain ⟨x, hx⟩ := hrun
  have hseen := seen_of_sole 1 x (leadsTo_of_takeTurns hx) 0
  cases hx
  refine ⟨_, _, rfl, by decide, (hseen _ rfl rfl).2 rfl ?_ rfl⟩
  intro s hs
  cases hs
  decide

/-! ### What is published -/

/-- What the bridge has appended and not yet published to the room of the session. -/
def sessionInFlight (x : Delivery) (sessionId : Uuid) : List RuntimeEventEnvelope :=
  match x.bridge with
  | .publishing (.run _) envelope => if envelope.sessionId = some sessionId then [envelope] else []
  | .publishing (.session id) envelope => if id = sessionId then [envelope] else []
  | .listening => []

/-- The room of a run gets what the bridge has appended of the run, the room of a session what it
has appended of the session, from a list of events that were sent, in the order in which they
were. -/
def PublishesAll (x : Delivery) (all : List RuntimeEventEnvelope) : Prop :=
  (all.map RuntimeEventEnvelope.event).Sublist (x.emitted.take x.position) ∧
    (∀ e ∈ all, e.event.runId = e.runId) ∧
    (∀ runId, x.feed runId = all.filter fun e => e.runId = runId) ∧
    ∀ sessionId, x.adapter.rooms (.session sessionId) ++ x.sessionInFlight sessionId =
      all.filter fun e => e.sessionId = some sessionId

theorem Upstream.publishesAll (h : x.Upstream y) {all : List RuntimeEventEnvelope}
    (hall : x.PublishesAll all) : y.PublishesAll all := by
  unfold PublishesAll sessionInFlight at *
  rw [h.emitted, h.position, h.rooms, h.bridge]
  refine ⟨hall.1, hall.2.1, fun runId => ?_, hall.2.2.2⟩
  rw [h.feed]
  exact hall.2.2.1 runId

theorem PublishesAll.appended {all : List RuntimeEventEnvelope} (h : x.PublishesAll all)
    (hlistening : x.bridge = .listening) {position : Nat} {c : AppendCall}
    (hread : Covers x.emitted x.position [.value c.event] position) :
    (x.appended position c).PublishesAll (all ++ [(x.store.append c).1]) := by
  obtain ⟨hemitted, hown, hruns, hsessions⟩ := h
  refine ⟨?_, fun e he => ?_, fun runId => ?_, fun sessionId => ?_⟩
  · cases hread with
    | value hget hrest =>
      cases hrest
      obtain ⟨hlt, hevent⟩ := List.getElem?_eq_some_iff.mp hget
      show List.Sublist _ (x.emitted.take (x.position + 1))
      rw [List.take_succ_eq_append_getElem hlt, List.map_append, hevent]
      exact hemitted.append (.refl _)
  · rcases List.mem_append.mp he with he | he
    · exact hown e he
    · rw [List.mem_singleton.mp he]
      rfl
  · rw [feed_appended hlistening, hruns, List.filter_append]
    congr 1
    rw [List.filter_singleton, Bool.cond_decide]
    rfl
  · have hsession := hsessions sessionId
    rw [sessionInFlight, hlistening, List.append_nil] at hsession
    rw [List.filter_append, ← hsession]
    congr 1
    rw [List.filter_singleton, Bool.cond_decide]
    rfl

theorem PublishesAll.publish {all : List RuntimeEventEnvelope} (h : x.PublishesAll all)
    (hstep : x.publish = some y) : y.PublishesAll all := by
  have hfeed := feed_publish hstep
  obtain ⟨hemitted, hown, hruns, hsessions⟩ := h
  unfold Delivery.publish at hstep
  split at hstep
  · cases hstep
  · next room envelope hpublishing =>
    cases hstep
    refine ⟨hemitted, hown, fun runId => by rw [hfeed, hruns], fun sessionId => ?_⟩
    rw [← hsessions sessionId, Adapter.rooms_publish, List.append_assoc]
    congr 1
    unfold sessionInFlight Subscription.nextRoom
    rw [hpublishing]
    cases room with
    | run id => cases hsession : envelope.sessionId <;> simp [hsession]
    | session id =>
      by_cases hid : id = sessionId
      · subst hid
        simp
      · have hother : ¬ sessionId = id := fun heq => hid heq.symm
        simp [hid, hother]

theorem exists_publishesAll {allowed : Delivery → Turn → Prop} (h : LeadsTo step allowed new x) :
    ∃ all, x.PublishesAll all := by
  apply h.invariant (fun x => ∃ all, x.PublishesAll all)
  · refine ⟨[], List.nil_sublist _, ?_, fun _ => rfl, fun _ => rfl⟩
    rintro e ⟨⟩
  · rintro x t y ⟨all, hall⟩ - hstep
    cases t with
    | emit event =>
      cases hstep
      refine ⟨all, hall.1.trans ?_, hall.2⟩
      show List.Sublist _ ((x.emitted ++ [event]).take x.position)
      rw [List.take_append]
      exact List.sublist_append_left _ _
    | forward eventId emittedAt accepted =>
      obtain ⟨hlistening, reading, position, hread, rfl | ⟨event, rfl, rfl⟩⟩ := forward_cases hstep
      · refine ⟨all, hall.1.trans ?_, hall.2⟩
        exact (List.take_prefix_take_left hread.le).sublist
      · exact ⟨_, hall.appended hlistening hread⟩
    | publish => exact ⟨all, hall.publish hstep⟩
    | append c =>
      cases hstep
      exact ⟨all, hall⟩
    | subscribeRun | turnPage | receive | hand | poll | drop =>
      exact ⟨all, (upstream_of_reader rfl hstep).publishesAll hall⟩

/-- **What the rooms get are events that the runtime sent, each once and in the order in which they
were sent**: the room of a run those of the run, the room of a session, across its runs, those
that were appended under the session; and of each run the two rooms have the same. -/
theorem rooms_of_leadsTo (x : Delivery) (h : LeadsTo step (fun _ _ => True) new x)
    (hlistening : x.bridge = .listening) :
    ∃ all : List RuntimeEventEnvelope,
      (all.map RuntimeEventEnvelope.event).Sublist x.emitted ∧
      (∀ e ∈ all, e.event.runId = e.runId) ∧
      (∀ runId, x.adapter.rooms (.run runId) = all.filter fun e => e.runId = runId) ∧
      ∀ sessionId,
        x.adapter.rooms (.session sessionId) = all.filter fun e => e.sessionId = some sessionId := by
  obtain ⟨all, hemitted, hown, hruns, hsessions⟩ := exists_publishesAll h
  refine ⟨all, hemitted.trans (List.take_sublist _ _), hown, fun runId => ?_, fun sessionId => ?_⟩
  · rw [← hruns, feed, inFlight_listening hlistening, List.append_nil]
  · rw [← hsessions, sessionInFlight, hlistening, List.append_nil]

set_option maxRecDepth 2000 in
/-- Two runs of one session. -/
theorem rooms_of_leadsTo_two_runs :
    ∃ x : Delivery, x.bridge = .listening ∧
      (x.adapter.rooms (.session 7)).map RuntimeEventEnvelope.runId = [1, 2, 1] ∧
      ∃ all : List RuntimeEventEnvelope,
        (all.map RuntimeEventEnvelope.event).Sublist x.emitted ∧
          x.adapter.rooms (.session 7) = all.filter fun e => e.sessionId = some 7 := by
  have hrun : ∃ x, takeTurns step (fun _ _ => True) new
      [.emit (.runStarted 1 7 "p" "m"), .forward 10 0 true, .emit (.runStarted 2 7 "p" "m"),
        .publish, .publish, .forward 11 1 true, .publish, .publish, .emit (.textDelta 1 "a"),
        .forward 12 2 true, .publish, .publish] = some x := ⟨_, rfl⟩
  obtain ⟨x, hx⟩ := hrun
  have hrooms := rooms_of_leadsTo x (leadsTo_of_takeTurns hx)
  cases hx
  obtain ⟨all, hemitted, -, -, hsessions⟩ := hrooms rfl
  exact ⟨_, rfl, by decide, all, hemitted, hsessions 7⟩

end Delivery

end EventLog

end Behest
