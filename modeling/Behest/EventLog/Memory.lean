import Mathlib.Data.List.Induction
import Mathlib.Logic.Function.Basic
import Behest.EventLog.Paging
import Behest.Runtime.Run

/-!
# The in-memory event log

`MemoryRuntimeEventStore` (`behest-runtime/src/event_store.rs`). An append holds the one mutex
of the store from its start to its end, so appends that run at the same time are appends made
one after the other, in some order. Each run has its own numbers, its own session and its own
log.
-/

namespace Behest

/-- The session a run starts in. -/
def AgentEvent.startedSession : AgentEvent → Option Uuid
  | runStarted _ sessionId _ _ => some sessionId
  | _ => none

namespace EventLog

/-- Source: `behest-runtime/src/stream.rs:83–96`. -/
structure RuntimeEventEnvelope where
  eventId : Uuid
  seq : Nat
  runId : Uuid
  sessionId : Option Uuid
  event : AgentEvent
  emittedAt : Nat

/-- A call of `append`, with the identifier and the time it is going to draw. -/
structure AppendCall where
  event : AgentEvent
  eventId : Uuid
  emittedAt : Nat

/-- The run a call is about. -/
def AppendCall.runId (c : AppendCall) : Uuid := c.event.runId

/-- The envelope of an event once its number and its session are known. -/
def AppendCall.envelope (c : AppendCall) (seq : Nat) (sessionId : Option Uuid) :
    RuntimeEventEnvelope :=
  ⟨c.eventId, seq, c.runId, sessionId, c.event, c.emittedAt⟩

/-- The calls about a run. -/
def callsOf (calls : List AppendCall) (runId : Uuid) : List AppendCall :=
  calls.filter fun c => c.runId == runId

/-- The session of the latest start among the events. -/
def latestSession (calls : List AppendCall) : Option Uuid :=
  (calls.filterMap fun c => c.event.startedSession).getLast?

/-- The envelopes of the events of one run: numbered from one, each with the session of the
latest start up to it. -/
def recorded (calls : List AppendCall) : List RuntimeEventEnvelope :=
  calls.mapIdx fun i c => c.envelope (i + 1) (latestSession (calls.take (i + 1)))

@[simp] theorem length_recorded (calls : List AppendCall) :
    (recorded calls).length = calls.length := List.length_mapIdx

theorem recorded_snoc (calls : List AppendCall) (c : AppendCall) :
    recorded (calls ++ [c]) =
      recorded calls ++ [c.envelope (calls.length + 1) (latestSession (calls ++ [c]))] := by
  unfold recorded
  rw [List.mapIdx_append]
  congr 1
  · apply List.ext_getElem
    · simp
    · intro i hi _
      rw [List.length_mapIdx] at hi
      rw [List.getElem_mapIdx, List.getElem_mapIdx, List.take_append_of_le_length (by omega)]
  · simp [List.take_of_length_le]

theorem latestSession_snoc (calls : List AppendCall) (c : AppendCall) :
    latestSession (calls ++ [c]) = c.event.startedSession.or (latestSession calls) := by
  unfold latestSession
  rw [List.filterMap_append]
  cases h : c.event.startedSession <;> simp [h]

/-- The number of an event is its place among those of its run. -/
theorem dense_recorded (calls : List AppendCall) :
    Paging.Dense RuntimeEventEnvelope.seq (recorded calls) := by
  intro i hi
  simp [recorded, AppendCall.envelope]

/-- Source: `event_store.rs:40–44`. -/
structure StoreState where
  events : Uuid → Option (List RuntimeEventEnvelope)
  seq : Uuid → Option Nat
  sessions : Uuid → Option (Option Uuid)

namespace StoreState

def new : StoreState := ⟨fun _ => none, fun _ => none, fun _ => none⟩

/-- The session of an event, and the sessions after it. Source: `event_store.rs:122–127`. -/
def sessionOf (s : StoreState) (c : AppendCall) : Option Uuid × (Uuid → Option (Option Uuid)) :=
  match c.event.startedSession with
  | some sessionId => (some sessionId, Function.update s.sessions c.runId (some (some sessionId)))
  | none => ((s.sessions c.runId).join, s.sessions)

/-- Source: `event_store.rs:115–151`. -/
def append (s : StoreState) (c : AppendCall) : RuntimeEventEnvelope × StoreState :=
  let nextSeq := (s.seq c.runId).getD 0 + 1
  let envelope := c.envelope nextSeq (s.sessionOf c).1
  (envelope,
    { events := Function.update s.events c.runId (some ((s.events c.runId).getD [] ++ [envelope]))
      seq := Function.update s.seq c.runId (some nextSeq)
      sessions := (s.sessionOf c).2 })

/-- Source: `event_store.rs:153–175`. -/
def listAfter (s : StoreState) (runId : Uuid) (afterSeq : Option Nat) (limit : Nat) :
    List RuntimeEventEnvelope :=
  match s.events runId with
  | none => []
  | some events => Paging.page RuntimeEventEnvelope.seq events afterSeq limit

/-- The store after calls in the order in which they get the mutex. -/
def appendAll (s : StoreState) (calls : List AppendCall) : StoreState :=
  calls.foldl (fun s c => (s.append c).2) s

/-- The log of a run. -/
def log (s : StoreState) (runId : Uuid) : List RuntimeEventEnvelope := (s.events runId).getD []

theorem listAfter_eq (s : StoreState) (runId : Uuid) (afterSeq : Option Nat) (limit : Nat) :
    s.listAfter runId afterSeq limit =
      Paging.page RuntimeEventEnvelope.seq (s.log runId) afterSeq limit := by
  unfold listAfter log
  cases s.events runId with
  | none => simp [Paging.page]
  | some events => rfl

theorem appendAll_snoc (s : StoreState) (calls : List AppendCall) (c : AppendCall) :
    s.appendAll (calls ++ [c]) = ((s.appendAll calls).append c).2 := by
  simp [appendAll]

/-- The three maps of a run are those of the calls about it. -/
structure Holds (s : StoreState) (runId : Uuid) (own : List AppendCall) : Prop where
  log : s.log runId = recorded own
  seq : (s.seq runId).getD 0 = own.length
  session : (s.sessions runId).join = latestSession own

variable {s : StoreState} {runId : Uuid} {own : List AppendCall} {c : AppendCall}

theorem Holds.sessionOf (h : s.Holds runId own) (hc : c.runId = runId) :
    (s.sessionOf c).1 = latestSession (own ++ [c]) ∧
      ((s.sessionOf c).2 runId).join = latestSession (own ++ [c]) := by
  rw [latestSession_snoc, StoreState.sessionOf]
  cases hstarted : c.event.startedSession with
  | none => exact ⟨hc ▸ h.session, h.session⟩
  | some sessionId => simp [hc]

/-- An append to a run extends its three maps. -/
theorem Holds.append (h : s.Holds runId own) (hc : c.runId = runId) :
    (s.append c).2.Holds runId (own ++ [c]) := by
  obtain ⟨hsession, hsessions⟩ := h.sessionOf hc
  constructor
  · have hlog := h.log
    subst hc
    simp only [StoreState.append, StoreState.log, Function.update_self, Option.getD_some,
      recorded_snoc, h.seq, hsession] at hlog ⊢
    rw [hlog]
  · subst hc
    simp [StoreState.append, h.seq]
  · exact hsessions

/-- An append to another run leaves them alone. -/
theorem Holds.append_other (h : s.Holds runId own) (hc : c.runId ≠ runId) :
    (s.append c).2.Holds runId own := by
  have hne : runId ≠ c.runId := Ne.symm hc
  constructor
  · simpa [StoreState.append, StoreState.log, Function.update_of_ne hne] using h.log
  · simpa [StoreState.append, Function.update_of_ne hne] using h.seq
  · have hsessions : (s.sessionOf c).2 runId = s.sessions runId := by
      unfold StoreState.sessionOf
      cases c.event.startedSession with
      | none => rfl
      | some sessionId => exact Function.update_of_ne hne _ _
    simpa [StoreState.append, hsessions] using h.session

theorem holds_new (runId : Uuid) : new.Holds runId [] := ⟨rfl, rfl, rfl⟩

/-- After any calls, the maps of a run are those of the calls about it. -/
theorem holds_appendAll (calls : List AppendCall) (runId : Uuid) :
    (new.appendAll calls).Holds runId (callsOf calls runId) := by
  induction calls using List.reverseRecOn with
  | nil => exact holds_new runId
  | append_singleton calls c ih =>
    rw [appendAll_snoc]
    unfold callsOf at ih ⊢
    rw [List.filter_append]
    by_cases hc : c.runId = runId
    · rw [List.filter_cons_of_pos (by simp [hc]), List.filter_nil]
      exact ih.append hc
    · rw [List.filter_cons_of_neg (by simp [hc]), List.filter_nil, List.append_nil]
      exact ih.append_other hc

/-- **The log of a run is that of the calls about it**: numbered from one in the order of the
appends, with the session of the latest start, whatever is appended to other runs in between;
**and pages of any positive size, read to the empty one, give it back**. -/
theorem log_appendAll (calls : List AppendCall) (runId : Uuid) :
    let s := new.appendAll calls
    let own := callsOf calls runId
    s.log runId = recorded own ∧
      ∀ limit, 0 < limit → ∀ reads, own.length < reads →
        Paging.readPages RuntimeEventEnvelope.seq
          (fun after => s.listAfter runId after limit) reads none = some (recorded own) := by
  intro s own
  have hlog : s.log runId = recorded own := (holds_appendAll calls runId).log
  refine ⟨hlog, ?_⟩
  intro limit hlimit reads hreads
  simp only [listAfter_eq, hlog]
  apply Paging.readPages_start (dense_recorded own).ordered hlimit reads
  rwa [length_recorded]

/-- Two runs interleaved, read one event at a time. -/
theorem log_appendAll_interleaved :
    let calls : List AppendCall :=
      [⟨.textDelta 1 "a", 10, 0⟩, ⟨.runStarted 2 8 "p" "m", 11, 1⟩,
        ⟨.runStarted 1 7 "p" "m", 12, 2⟩, ⟨.textDelta 1 "b", 13, 3⟩]
    Paging.readPages RuntimeEventEnvelope.seq
        (fun after => (new.appendAll calls).listAfter 1 after 1) 4 none =
      some [⟨10, 1, 1, none, .textDelta 1 "a", 0⟩,
        ⟨12, 2, 1, some 7, .runStarted 1 7 "p" "m", 2⟩,
        ⟨13, 3, 1, some 7, .textDelta 1 "b", 3⟩] :=
  (log_appendAll _ 1).2 1 (by decide) 4 (by decide)

end StoreState

end EventLog

end Behest
