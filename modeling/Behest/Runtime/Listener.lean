import Mathlib.Logic.Function.Basic
import Behest.Channel.Broadcast
import Behest.Effect.Crowd
import Behest.EventLog.Delivery

/-!
# Event handlers

`RuntimeInvocation::on` and `spawn_listener` (`behest-runtime/src/invocation.rs`). A listener
reads the channel of the runtime and spawns a handler for every event of its kind, as many at a
time as its semaphore has permits. The listeners of one invocation share the map from runs to
sessions. Runs, listeners and handlers take their steps in any order.
-/

namespace Behest

open Channel Effect

/-- What a handler is registered for. Source: `invocation.rs:537–588`. -/
inductive EventKind where
  | any
  | runStarted
  | contextBuilt
  | modelStarted
  | textDelta
  | toolCallStarted
  | toolCallDelta
  | toolCallCompleted
  | toolExecutionStarted
  | toolExecutionFinished
  | assistantMessageCommitted
  | toolMessageCommitted
  | usageRecorded
  | cacheMetrics
  | runCompleted
  | runFailed
  | runCancelled
  | doomLoopDetected
  | compactionCircuitOpened
  | chatStarted
  | chatTextDelta
  | chatToolCallStarted
  | chatToolCallArgumentsDelta
  | chatToolCallCompleted
  | chatFinished
deriving DecidableEq

/-- The kind of an event of a run. -/
def AgentEvent.kind : AgentEvent → EventKind
  | runStarted _ _ _ _ => .runStarted
  | contextBuilt _ _ => .contextBuilt
  | modelStarted _ _ _ _ => .modelStarted
  | textDelta _ _ => .textDelta
  | toolCallStarted _ _ _ => .toolCallStarted
  | toolCallDelta _ _ _ => .toolCallDelta
  | toolCallCompleted _ _ => .toolCallCompleted
  | toolExecutionStarted _ _ _ => .toolExecutionStarted
  | toolExecutionFinished _ _ _ _ _ => .toolExecutionFinished
  | assistantMessageCommitted _ _ => .assistantMessageCommitted
  | toolMessageCommitted _ _ => .toolMessageCommitted
  | usageRecorded _ _ => .usageRecorded
  | cacheMetrics _ _ _ _ => .cacheMetrics
  | runCompleted _ _ _ => .runCompleted
  | runFailed _ _ => .runFailed
  | runCancelled _ => .runCancelled
  | doomLoopDetected _ _ => .doomLoopDetected
  | compactionCircuitOpened _ _ => .compactionCircuitOpened

/-- An event of a run is never of a chat kind. Source: `invocation.rs:594–628`. -/
def EventKind.matchesAgent (kind : EventKind) (event : AgentEvent) : Bool :=
  kind == .any || kind == event.kind

namespace Runtime

open EventLog

/-- A listener: its kind and its permits, where it subscribed, what it has read, the event that
waits for a permit, the handlers that run and all that were started, and its control's flag.
Source: `invocation.rs:1014–1084`. -/
structure Listener where
  kind : EventKind
  limit : Option Nat
  start : Nat
  position : Nat
  readings : List (Reading AgentEvent)
  waiting : Option RuntimeEventEnvelope
  started : List RuntimeEventEnvelope
  running : List RuntimeEventEnvelope
  cancelled : Bool
  ended : Bool

/-- The events that the runtime has sent, the sessions of the runs, and the listeners.
Source: `invocation.rs:866–871`. -/
structure Invocation where
  emitted : List AgentEvent
  sessionMap : Uuid → Option Uuid
  listeners : Nat → Option Listener

namespace Invocation

def new : Invocation := ⟨[], fun _ => none, fun _ => none⟩

/-- The session of an event, and the sessions after it. Source: `invocation.rs:1042–1050`. -/
def sessionOf (x : Invocation) (event : AgentEvent) : Option Uuid × (Uuid → Option Uuid) :=
  match event.startedSession with
  | some sessionId => (some sessionId, Function.update x.sessionMap event.runId (some sessionId))
  | none => (x.sessionMap event.runId, x.sessionMap)

def put (x : Invocation) (key : Nat) (l : Listener) : Invocation :=
  { x with listeners := Function.update x.listeners key (some l) }

/-- A listener under a free key; the number of its permits is read once.
Source: `invocation.rs:991–1011, 1027–1029`. -/
def spawn (x : Invocation) (key : Nat) (kind : EventKind) (limit : Option Nat) :
    Option Invocation :=
  match x.listeners key with
  | some _ => none
  | none =>
      let start := x.emitted.length
      some (x.put key ⟨kind, limit, start, start, [], none, [], [], false, false⟩)

/-- The listener reads an event; it ends when it finds itself cancelled.
Source: `invocation.rs:1031–1081`. -/
def receive (x : Invocation) (key eventId emittedAt : Nat) : Option Invocation :=
  match x.listeners key with
  | none => none
  | some l =>
      if l.ended ∨ l.waiting.isSome then none
      else
        (recv eventChannelCapacity x.emitted l.position).map fun got =>
          match got.1 with
          | .lagged _ =>
              x.put key { l with position := got.2, readings := l.readings ++ [got.1] }
          | .value event =>
              if l.cancelled then x.put key { l with ended := true }
              else
                let read := { l with position := got.2, readings := l.readings ++ [got.1] }
                if l.kind.matchesAgent event then
                  let session := x.sessionOf event
                  let envelope : RuntimeEventEnvelope :=
                    ⟨eventId, 0, event.runId, session.1, event, emittedAt⟩
                  { x with sessionMap := session.2 }.put key { read with waiting := some envelope }
                else x.put key read

/-- A handler starts when there is a permit. Source: `invocation.rs:1064–1078`. -/
def permit (x : Invocation) (key : Nat) : Option Invocation :=
  match x.listeners key with
  | none => none
  | some l =>
      match l.waiting with
      | none => none
      | some envelope =>
          if l.limit.all fun limit => l.running.length < limit then
            some (x.put key { l with
              waiting := none
              started := l.started ++ [envelope]
              running := l.running ++ [envelope] })
          else none

/-- A step of one listener or of its handlers. -/
def move (x : Invocation) (key : Nat) (f : Listener → Option Listener) : Option Invocation :=
  match x.listeners key with
  | some l => (f l).map fun l' => x.put key l'
  | none => none

inductive Turn where
  | emit (event : AgentEvent)
  | spawn (key : Nat) (kind : EventKind) (limit : Option Nat)
  | receive (key eventId emittedAt : Nat)
  | permit (key : Nat)
  | finish (key i : Nat)
  | cancel (key : Nat)
  | drop (key : Nat)

/-- One step. A handler gives its permit back when it ends, a handler may cancel its control, and
dropping the handle aborts the listener but not its handlers. -/
def step (x : Invocation) : Turn → Option Invocation
  | .emit event => some { x with emitted := x.emitted ++ [event] }
  | .spawn key kind limit => x.spawn key kind limit
  | .receive key eventId emittedAt => x.receive key eventId emittedAt
  | .permit key => x.permit key
  | .finish key i => x.move key fun l =>
      if i < l.running.length then some { l with running := l.running.eraseIdx i } else none
  | .cancel key => x.move key fun l => some { l with cancelled := true }
  | .drop key => x.move key fun l => some { l with ended := true, waiting := none }

end Invocation

namespace Listener

/-- The events that the listener has read. -/
def messages (l : Listener) : List AgentEvent := l.readings.filterMap Reading.value?

/-- The events that the listener has taken up, the waiting one last. -/
def taken (l : Listener) : List RuntimeEventEnvelope := l.started ++ l.waiting.toList

/-- The session that an envelope names is the one that its run was started in. -/
def Named (emitted : List AgentEvent) (e : RuntimeEventEnvelope) : Prop :=
  e.runId = e.event.runId ∧
    ∀ sessionId, e.sessionId = some sessionId →
      ∃ event ∈ emitted, event.runId = e.runId ∧ event.startedSession = some sessionId

/-- A listener has started a handler for each event of its kind that it has read, but for the
last, which waits, or which was given up when the listener was dropped; no more handlers run than
there are permits. -/
structure Sound (emitted : List AgentEvent) (l : Listener) : Prop where
  covers : Covers emitted l.start l.readings l.position
  position : l.position ≤ emitted.length
  taken : l.ended = false →
    l.taken.map RuntimeEventEnvelope.event = l.messages.filter l.kind.matchesAgent
  started : (l.started.map RuntimeEventEnvelope.event).Sublist
    (l.messages.filter l.kind.matchesAgent)
  idle : l.ended = true → l.waiting = none
  permits : ∀ limit, l.limit = some limit → l.running.length ≤ limit
  running : l.running.Sublist l.started
  named : ∀ e ∈ l.taken, Named emitted e

variable {emitted : List AgentEvent} {l : Listener}

theorem Named.grow {e : RuntimeEventEnvelope} (h : Named emitted e) (more : List AgentEvent) :
    Named (emitted ++ more) e := by
  refine ⟨h.1, fun sessionId hsession => ?_⟩
  obtain ⟨event, hmem, hevent⟩ := h.2 sessionId hsession
  exact ⟨event, List.mem_append_left _ hmem, hevent⟩

theorem Sound.grow (h : l.Sound emitted) (more : List AgentEvent) : l.Sound (emitted ++ more) := by
  refine ⟨h.covers.grow more, ?_, h.taken, h.started, h.idle, h.permits, h.running, fun e he => ?_⟩
  · rw [List.length_append]
    exact Nat.le_add_right_of_le h.position
  · exact (h.named e he).grow more

theorem sound_spawned (kind : EventKind) (limit : Option Nat) (emitted : List AgentEvent) :
    Sound emitted ⟨kind, limit, emitted.length, emitted.length, [], none, [], [], false, false⟩ :=
  ⟨.nil _, Nat.le_refl _, fun _ => rfl, .refl _, fun _ => rfl, fun _ _ => Nat.zero_le _, .refl _,
    fun _ he => absurd he List.not_mem_nil⟩

/-- A reading that nothing is started for. -/
theorem Sound.pass (h : l.Sound emitted) {reading : Reading AgentEvent} {position : Nat}
    (hread : Covers emitted l.position [reading] position)
    (hpass : ∀ event, reading = .value event → l.kind.matchesAgent event = false) :
    Sound emitted { l with position, readings := l.readings ++ [reading] } := by
  have hsame : List.filter l.kind.matchesAgent
      (List.filterMap Reading.value? (l.readings ++ [reading])) =
        l.messages.filter l.kind.matchesAgent := by
    rw [List.filterMap_append, List.filter_append]
    cases reading with
    | value event => simp [Reading.value?, hpass event rfl, messages]
    | lagged skipped => simp [Reading.value?, messages]
  refine ⟨h.covers.append hread, hread.le_length h.position, ?_, ?_, h.idle, h.permits, h.running,
    h.named⟩
  · intro hended
    rw [messages, hsame]
    exact h.taken hended
  · rw [messages, hsame]
    exact h.started

/-- A reading of the listener's kind waits for a permit. -/
theorem Sound.take (h : l.Sound emitted) (hended : l.ended = false) (hfree : l.waiting = none)
    {e : RuntimeEventEnvelope} {position : Nat}
    (hread : Covers emitted l.position [.value e.event] position)
    (hmatches : l.kind.matchesAgent e.event = true) (hnamed : Named emitted e) :
    Sound emitted { l with
      position, readings := l.readings ++ [.value e.event], waiting := some e } := by
  have hmore : List.filter l.kind.matchesAgent
      (List.filterMap Reading.value? (l.readings ++ [.value e.event])) =
        l.messages.filter l.kind.matchesAgent ++ [e.event] := by
    rw [List.filterMap_append, List.filter_append]
    simp [Reading.value?, hmatches, messages]
  have htaken := h.taken hended
  rw [Listener.taken, hfree, Option.toList_none, List.append_nil] at htaken
  refine ⟨h.covers.append hread, hread.le_length h.position, ?_, ?_, ?_, h.permits, h.running, ?_⟩
  · intro _
    rw [messages, hmore, Listener.taken, List.map_append, htaken]
    rfl
  · rw [messages, hmore]
    exact h.started.trans (List.sublist_append_left _ _)
  · intro hyes
    exact absurd (hended.symm.trans hyes) Bool.false_ne_true
  · intro a ha
    rcases List.mem_append.mp ha with ha | ha
    · exact h.named a (List.mem_append_left _ ha)
    · cases List.mem_singleton.mp ha
      exact hnamed

/-- The event that waits gets its handler. -/
theorem Sound.permit (h : l.Sound emitted) {e : RuntimeEventEnvelope} (hended : l.ended = false)
    (hwaiting : l.waiting = some e)
    (hroom : l.limit.all (fun limit => l.running.length < limit) = true) :
    Sound emitted { l with
      waiting := none, started := l.started ++ [e], running := l.running ++ [e] } := by
  have htaken := h.taken hended
  rw [Listener.taken, hwaiting] at htaken
  refine ⟨h.covers, h.position, ?_, ?_, fun _ => rfl, ?_, h.running.append (.refl _), ?_⟩
  · intro _
    rw [Listener.taken, Option.toList_none, List.append_nil]
    exact htaken
  · show List.Sublist _ (l.messages.filter _)
    rw [← htaken]
    exact .refl _
  · intro limit hlimit
    have hlimit' : l.limit = some limit := hlimit
    rw [hlimit', Option.all_some, decide_eq_true_eq] at hroom
    rw [List.length_append]
    exact hroom
  · intro a ha
    apply h.named
    rw [Listener.taken, hwaiting]
    simpa [Listener.taken] using ha

theorem Sound.finish (h : l.Sound emitted) (i : Nat) :
    Sound emitted { l with running := l.running.eraseIdx i } :=
  ⟨h.covers, h.position, h.taken, h.started, h.idle,
    fun limit hlimit => Nat.le_trans (List.eraseIdx_sublist _ _).length_le (h.permits limit hlimit),
    (List.eraseIdx_sublist _ _).trans h.running, h.named⟩

theorem Sound.cancel (h : l.Sound emitted) : Sound emitted { l with cancelled := true } :=
  ⟨h.covers, h.position, h.taken, h.started, h.idle, h.permits, h.running, h.named⟩

theorem Sound.stop (h : l.Sound emitted) (hfree : l.waiting = none) :
    Sound emitted { l with ended := true } :=
  ⟨h.covers, h.position, fun hended => absurd hended.symm Bool.false_ne_true, h.started,
    fun _ => hfree, h.permits, h.running, h.named⟩

theorem Sound.drop (h : l.Sound emitted) :
    Sound emitted { l with ended := true, waiting := none } := by
  refine ⟨h.covers, h.position, fun hended => absurd hended.symm Bool.false_ne_true, h.started,
    fun _ => rfl, h.permits, h.running, fun e he => h.named e ?_⟩
  rw [Listener.taken, Option.toList_none, List.append_nil] at he
  exact List.mem_append_left _ he

end Listener

namespace Invocation

variable {x y : Invocation} {key : Nat}

/-- Every listener is sound, and the map names the session that a run was started in. -/
structure Sound (x : Invocation) : Prop where
  listeners : ∀ key l, x.listeners key = some l → l.Sound x.emitted
  sessions : ∀ runId sessionId, x.sessionMap runId = some sessionId →
    ∃ event ∈ x.emitted, event.runId = runId ∧ event.startedSession = some sessionId

theorem sound_new : new.Sound := by
  constructor
  · rintro key l ⟨⟩
  · rintro runId sessionId ⟨⟩

theorem listeners_put (x : Invocation) (key : Nat) (l : Listener) (other : Nat) :
    (x.put key l).listeners other = if other = key then some l else x.listeners other := by
  unfold put
  by_cases hkey : other = key
  · subst hkey
    simp
  · simp [hkey]

theorem Sound.put (h : x.Sound) {l : Listener} (hl : l.Sound x.emitted) : (x.put key l).Sound := by
  refine ⟨fun other l' hother => ?_, h.sessions⟩
  rw [listeners_put] at hother
  split at hother
  · cases hother
    exact hl
  · exact h.listeners other l' hother

/-- The session of an event that was sent. -/
theorem Sound.sessionOf (h : x.Sound) {event : AgentEvent} (hevent : event ∈ x.emitted) :
    (∀ sessionId, (x.sessionOf event).1 = some sessionId →
      ∃ started ∈ x.emitted, started.runId = event.runId ∧
        started.startedSession = some sessionId) ∧
    Sound { x with sessionMap := (x.sessionOf event).2 } := by
  unfold Invocation.sessionOf
  cases hstarted : event.startedSession with
  | none => exact ⟨h.sessions event.runId, h.listeners, h.sessions⟩
  | some startedIn =>
    refine ⟨?_, h.listeners, fun runId sessionId hsession => ?_⟩
    · rintro sessionId ⟨⟩
      exact ⟨event, hevent, rfl, hstarted⟩
    · dsimp only at hsession
      by_cases hrun : runId = event.runId
      · subst hrun
        rw [Function.update_self] at hsession
        cases hsession
        exact ⟨event, hevent, rfl, hstarted⟩
      · rw [Function.update_of_ne hrun] at hsession
        exact h.sessions runId sessionId hsession

theorem Sound.emit (h : x.Sound) (event : AgentEvent) :
    Sound { x with emitted := x.emitted ++ [event] } := by
  refine ⟨fun key l hl => (h.listeners key l hl).grow _, fun runId sessionId hsession => ?_⟩
  obtain ⟨started, hmem, hstarted⟩ := h.sessions runId sessionId hsession
  exact ⟨started, List.mem_append_left _ hmem, hstarted⟩

theorem Sound.receive (h : x.Sound) {eventId emittedAt : Nat}
    (hstep : x.receive key eventId emittedAt = some y) : y.Sound := by
  unfold Invocation.receive at hstep
  split at hstep
  · cases hstep
  · next l hl =>
    have hsound := h.listeners key l hl
    split at hstep
    · cases hstep
    · next hready =>
      rw [not_or, Bool.not_eq_true, Bool.not_eq_true, Option.isSome_eq_false_iff,
        Option.isNone_iff_eq_none] at hready
      obtain ⟨⟨reading, position⟩, hrecv, rfl⟩ := Option.map_eq_some_iff.mp hstep
      have hread := covers_of_recv hrecv
      cases reading with
      | lagged skipped =>
        apply h.put
        apply hsound.pass hread
        rintro event ⟨⟩
      | value event =>
        have hmem : event ∈ x.emitted := by
          cases hread with
          | value hget _ => exact List.mem_of_getElem? hget
        dsimp only
        split
        · exact h.put (hsound.stop hready.2)
        · split
          · next hmatches =>
            obtain ⟨hnamed, hmap⟩ := h.sessionOf hmem
            apply hmap.put
            exact hsound.take (e := ⟨_, _, _, _, event, _⟩) hready.1 hready.2 hread hmatches
              ⟨rfl, hnamed⟩
          · next hmatches =>
            apply h.put
            apply hsound.pass hread
            rintro event ⟨⟩
            exact Bool.not_eq_true _ ▸ hmatches

theorem Sound.permit (h : x.Sound) (hstep : x.permit key = some y) : y.Sound := by
  unfold Invocation.permit at hstep
  split at hstep
  · cases hstep
  · next l hl =>
    have hsound := h.listeners key l hl
    split at hstep
    · cases hstep
    · next e hwaiting =>
      split at hstep
      · next hroom =>
        cases hstep
        apply h.put
        apply hsound.permit _ hwaiting hroom
        by_contra hended
        have hidle := hsound.idle (Bool.eq_true_of_not_eq_false hended)
        rw [hwaiting] at hidle
        cases hidle
      · cases hstep

theorem Sound.move (h : x.Sound) {f : Listener → Option Listener} (hstep : x.move key f = some y)
    (hf : ∀ l l', l.Sound x.emitted → f l = some l' → l'.Sound x.emitted) : y.Sound := by
  unfold Invocation.move at hstep
  split at hstep
  · next l hl =>
    obtain ⟨l', hl', rfl⟩ := Option.map_eq_some_iff.mp hstep
    exact h.put (hf l l' (h.listeners key l hl) hl')
  · cases hstep

theorem Sound.step (h : x.Sound) {t : Turn} (hstep : x.step t = some y) : y.Sound := by
  cases t with
  | emit event =>
    cases hstep
    exact h.emit event
  | spawn key kind limit =>
    have hspawn : x.spawn key kind limit = some y := hstep
    unfold Invocation.spawn at hspawn
    split at hspawn <;> cases hspawn
    exact h.put (Listener.sound_spawned kind limit x.emitted)
  | receive key eventId emittedAt => exact h.receive hstep
  | permit key => exact h.permit hstep
  | finish key i =>
    apply h.move hstep
    intro l l' hl hfinish
    split at hfinish <;> cases hfinish
    exact hl.finish i
  | cancel key =>
    apply h.move hstep
    rintro l l' hl ⟨⟩
    exact hl.cancel
  | drop key =>
    apply h.move hstep
    rintro l l' hl ⟨⟩
    exact hl.drop

/-- **Whatever the order of the steps**: a listener starts a handler for events of its kind only,
sent after it subscribed, each once and in order; as long as it lives and reads no gap, for every
one that it has passed but the one that waits for a permit. No more handlers run than there are
permits, and the session a handler is told is one that its own run was started in. -/
theorem started_of_leadsTo (x : Invocation) (h : LeadsTo step (fun _ _ => True) new x) (key : Nat)
    (l : Listener) (hl : x.listeners key = some l) :
    let passed := (x.emitted.drop l.start).take (l.position - l.start)
    (l.started.map RuntimeEventEnvelope.event).Sublist (passed.filter l.kind.matchesAgent) ∧
      (l.ended = false → (∀ reading ∈ l.readings, reading.value?.isSome) →
        l.taken.map RuntimeEventEnvelope.event = passed.filter l.kind.matchesAgent) ∧
      (∀ limit, l.limit = some limit → l.running.length ≤ limit) ∧
      l.running.Sublist l.started ∧
      ∀ e ∈ l.started, e.runId = e.event.runId ∧
        ∀ sessionId, e.sessionId = some sessionId →
          ∃ event ∈ x.emitted, event.runId = e.runId ∧ event.startedSession = some sessionId := by
  intro passed
  have hsound : x.Sound := h.invariant Sound sound_new fun _ _ _ hx _ hstep => hx.step hstep
  have hlistener := hsound.listeners key l hl
  refine ⟨?_, fun hended hgap => ?_, hlistener.permits, hlistener.running, fun e he => ?_⟩
  · exact hlistener.started.trans (hlistener.covers.sublist.filter _)
  · rw [hlistener.taken hended, Listener.messages, hlistener.covers.eq_of_no_gap hgap]
  · exact hlistener.named e (List.mem_append_left _ he)

set_option maxRecDepth 2000 in
/-- One permit, and a listener of another kind that learns the session. -/
theorem started_of_leadsTo_two_listeners :
    ∃ (x : Invocation) (l : Listener), x.listeners 1 = some l ∧
      l.started.map RuntimeEventEnvelope.sessionId = [some 7] ∧
      l.taken.map RuntimeEventEnvelope.eventId = [11, 13] ∧ l.running.length ≤ 1 := by
  obtain ⟨x, hx, hany⟩ := exists_leadsTo step (fun _ _ => True) new
    [.spawn 0 .runStarted none, .spawn 1 .textDelta (some 1), .emit (.runStarted 1 7 "p" "m"),
      .emit (.textDelta 1 "a"), .emit (.textDelta 1 "b"), .receive 0 10 0, .receive 1 12 0,
      .receive 1 11 0, .permit 1, .receive 1 13 0]
    (fun x => (x.listeners 1).any (fun l =>
      decide (l.limit = some 1 ∧ l.started.map RuntimeEventEnvelope.sessionId = [some 7] ∧
        l.taken.map RuntimeEventEnvelope.eventId = [11, 13])) = true) (by decide)
  obtain ⟨l, hl, hsome⟩ := Option.any_eq_true _ _ |>.mp hany
  obtain ⟨hlimit, hsession, htaken⟩ := of_decide_eq_true hsome
  exact ⟨x, l, hl, hsession, htaken, (started_of_leadsTo x hx 1 l hl).2.2.1 1 hlimit⟩

/-! ### Cancellation -/

/-- The listener is cancelled, and has taken up no more than it had. -/
def Stopped (key : Nat) (before : List RuntimeEventEnvelope) (x : Invocation) : Prop :=
  ∃ l, x.listeners key = some l ∧ l.cancelled = true ∧ l.taken <+: before

theorem stopped_put {before : List RuntimeEventEnvelope} {other : Nat} {l : Listener}
    (h : x.Stopped key before) {sessionMap : Uuid → Option Uuid}
    (hl : other = key → l.cancelled = true ∧ l.taken <+: before) :
    Stopped key before ({ x with sessionMap }.put other l) := by
  obtain ⟨l', hl', hcancelled, htaken⟩ := h
  unfold Stopped
  rw [listeners_put]
  by_cases hkey : key = other
  · exact ⟨l, if_pos hkey, hl hkey.symm⟩
  · exact ⟨l', (if_neg hkey).trans hl', hcancelled, htaken⟩

theorem Stopped.receive {before : List RuntimeEventEnvelope} {other eventId emittedAt : Nat}
    (h : x.Stopped key before) (hstep : x.receive other eventId emittedAt = some y) :
    y.Stopped key before := by
  obtain ⟨l, hl, hcancelled, htaken⟩ := h
  unfold Invocation.receive at hstep
  split at hstep
  · cases hstep
  · next r hr =>
    have hsame : other = key → r = l := fun hkey => by
      subst hkey
      exact Option.some.inj (hr.symm.trans hl)
    split at hstep
    · cases hstep
    · obtain ⟨⟨reading, position⟩, -, rfl⟩ := Option.map_eq_some_iff.mp hstep
      cases reading with
      | lagged skipped =>
        apply stopped_put ⟨l, hl, hcancelled, htaken⟩
        intro hkey
        cases hsame hkey
        exact ⟨hcancelled, htaken⟩
      | value event =>
        dsimp only
        split
        · apply stopped_put ⟨l, hl, hcancelled, htaken⟩
          intro hkey
          cases hsame hkey
          exact ⟨hcancelled, htaken⟩
        · next hlive =>
          have hother : other ≠ key := fun hkey => by
            cases hsame hkey
            exact hlive hcancelled
          split <;> exact stopped_put ⟨l, hl, hcancelled, htaken⟩ fun hkey => absurd hkey hother

theorem Stopped.move {before : List RuntimeEventEnvelope} {other : Nat}
    {f : Listener → Option Listener} (h : x.Stopped key before)
    (hstep : x.move other f = some y)
    (hf : ∀ l l', l.cancelled = true → f l = some l' →
      l'.cancelled = true ∧ l'.taken <+: l.taken) : y.Stopped key before := by
  obtain ⟨l, hl, hcancelled, htaken⟩ := h
  unfold Invocation.move at hstep
  split at hstep
  · next r hr =>
    obtain ⟨r', hr', rfl⟩ := Option.map_eq_some_iff.mp hstep
    apply stopped_put ⟨l, hl, hcancelled, htaken⟩
    rintro rfl
    cases hr.symm.trans hl
    obtain ⟨hcancelled', hprefix⟩ := hf l r' hcancelled hr'
    exact ⟨hcancelled', hprefix.trans htaken⟩
  · cases hstep

theorem Stopped.step {before : List RuntimeEventEnvelope} (h : x.Stopped key before) {t : Turn}
    (hstep : x.step t = some y) : y.Stopped key before := by
  obtain ⟨l, hl, hcancelled, htaken⟩ := id h
  cases t with
  | emit event =>
    cases hstep
    exact h
  | spawn other kind limit =>
    have hspawn : x.spawn other kind limit = some y := hstep
    unfold Invocation.spawn at hspawn
    split at hspawn
    · cases hspawn
    · next hfree =>
      cases hspawn
      apply stopped_put h
      rintro rfl
      rw [hl] at hfree
      cases hfree
  | receive other eventId emittedAt => exact h.receive hstep
  | permit other =>
    have hpermit : x.permit other = some y := hstep
    unfold Invocation.permit at hpermit
    split at hpermit
    · cases hpermit
    · next r hr =>
      split at hpermit
      · cases hpermit
      · next e hwaiting =>
        split at hpermit <;> cases hpermit
        apply stopped_put h
        rintro rfl
        cases hr.symm.trans hl
        refine ⟨hcancelled, ?_⟩
        rw [Listener.taken, hwaiting] at htaken
        simpa [Listener.taken] using htaken
  | finish other i =>
    refine h.move hstep fun l l' hl hfinish => ?_
    split at hfinish <;> cases hfinish
    exact ⟨hl, List.prefix_refl _⟩
  | cancel other =>
    refine h.move hstep fun l l' hl hcancel => ?_
    cases hcancel
    exact ⟨rfl, List.prefix_refl _⟩
  | drop other =>
    refine h.move hstep fun l l' hl hdrop => ?_
    cases hdrop
    refine ⟨hl, ?_⟩
    rw [Listener.taken, Option.toList_none, List.append_nil]
    exact List.prefix_append _ _

/-- **A cancelled listener takes up no further event**: from there on, whatever the order of the
steps, it starts a handler at most for the event that was waiting for a permit. -/
theorem started_of_cancelled (x y : Invocation) (h : LeadsTo step (fun _ _ => True) x y)
    (key : Nat) (l : Listener) (hl : x.listeners key = some l) (hcancelled : l.cancelled = true) :
    ∃ l', y.listeners key = some l' ∧ l'.cancelled = true ∧ l'.started <+: l.taken := by
  have hstopped : y.Stopped key l.taken := by
    apply h.invariant (Stopped key l.taken) ⟨l, hl, hcancelled, List.prefix_refl _⟩
    intro x t y hx _ hstep
    exact hx.step hstep
  obtain ⟨l', hl', hcancelled', htaken⟩ := hstopped
  exact ⟨l', hl', hcancelled', (List.prefix_append _ _).trans htaken⟩

set_option maxRecDepth 2000 in
/-- A handler runs and an event waits when the listener is cancelled; the third is not taken up. -/
theorem started_of_cancelled_third :
    let e (eventId : Nat) : RuntimeEventEnvelope :=
      ⟨eventId, 0, 1, none, .textDelta 1 "a", 0⟩
    ∃ (y : Invocation) (l : Listener), y.listeners 0 = some l ∧ l.ended = true ∧
      l.started.length = 2 ∧ l.started <+: [e 10, e 11] := by
  intro e
  obtain ⟨y, hy, hany⟩ := exists_leadsTo step (fun _ _ => True)
    (put { new with emitted := [.textDelta 1 "a", .textDelta 1 "a", .textDelta 1 "a"] } 0
      ⟨.any, some 1, 0, 2, [], some (e 11), [e 10], [e 10], true, false⟩)
    [.finish 0 0, .permit 0, .receive 0 12 0]
    (fun y => (y.listeners 0).any (fun l =>
      decide (l.ended = true ∧ l.started.length = 2)) = true) (by decide)
  obtain ⟨l, hl, hsome⟩ := Option.any_eq_true _ _ |>.mp hany
  obtain ⟨l', hl', -, hstarted⟩ := started_of_cancelled _ y hy 0 _ rfl rfl
  cases hl.symm.trans hl'
  obtain ⟨hended, hlength⟩ := of_decide_eq_true hsome
  exact ⟨y, l, hl, hended, hlength, hstarted⟩

end Invocation

end Runtime

end Behest
