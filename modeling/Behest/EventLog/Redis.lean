import Behest.EventLog.Memory
import Behest.Store.Backends

/-!
# The event log in Redis streams

`RedisRuntimeEventStore` (`behest-runtime/src/event_store/redis.rs`), one command at a time. A
page is a range of stream identifiers, which count milliseconds, cut to the limit by the server;
only then are the events looked at, whose numbers count from one.
-/

namespace Behest

namespace EventLog

/-- The identifier of an entry of a stream. -/
structure StreamId where
  ms : Nat
  counter : Nat
deriving DecidableEq

namespace StreamId

/-- The first part decides, then the second. -/
def le (a b : StreamId) : Bool := a.ms < b.ms || a.ms == b.ms && a.counter ≤ b.counter

theorem le_iff {a b : StreamId} :
    a.le b = true ↔ a.ms < b.ms ∨ a.ms = b.ms ∧ a.counter ≤ b.counter := by
  simp [le]

/-- The identifier that the server generates for `*`: the time, or the next one after the last. -/
def next (last : StreamId) (clock : Nat) : StreamId :=
  if last.ms < clock then ⟨clock, 0⟩ else ⟨last.ms, last.counter + 1⟩

theorem clock_le_next (last : StreamId) (clock : Nat) : clock ≤ (last.next clock).ms := by
  unfold next
  split
  · exact Nat.le_refl _
  · next h => exact Nat.le_of_not_lt h

end StreamId

/-- The entries of a stream that are kept, about. Source: `event_store/redis.rs:33`. -/
def streamMaxlen : Nat := 10000

/-- What the store relies on: texts of envelopes and of session identifiers, and a server that
may trim a stream once it is longer than asked. -/
structure RedisStreams where
  envelope : Serde RuntimeEventEnvelope
  sessionId : Serde Uuid
  trim : List (StreamId × envelope.Text) → List (StreamId × envelope.Text)
  trim_suffix (entries : List (StreamId × envelope.Text)) : trim entries <:+ entries
  trim_short (entries : List (StreamId × envelope.Text)) (h : entries.length ≤ streamMaxlen) :
    trim entries = entries

/-- The keys of the runs: the stream, its last identifier, the counter and the session.
Source: `event_store/redis.rs:35–67`. -/
structure RedisLog (redis : RedisStreams) where
  stream : Uuid → List (StreamId × redis.envelope.Text)
  lastId : Uuid → StreamId
  seq : Uuid → Nat
  session : Uuid → Option redis.sessionId.Text

/-- An append, with the time on the server's clock when it adds to the stream. -/
structure RedisCall extends AppendCall where
  clock : Nat

namespace RedisLog

variable {redis : RedisStreams}

def new : RedisLog redis := ⟨fun _ => [], fun _ => ⟨0, 0⟩, fun _ => 0, fun _ => none⟩

/-! ### Commands -/

/-- `SET`. -/
def setSession (s : RedisLog redis) (runId sessionId : Uuid) : RedisLog redis :=
  { s with session := Function.update s.session runId (some (redis.sessionId.render sessionId)) }

/-- `GET`; a text that is no identifier counts as none. -/
def getSession (s : RedisLog redis) (runId : Uuid) : Option Uuid :=
  (s.session runId).bind fun text => (redis.sessionId.parse text).toOption

/-- `INCR`. -/
def incr (s : RedisLog redis) (runId : Uuid) : Nat × RedisLog redis :=
  (s.seq runId + 1, { s with seq := Function.update s.seq runId (s.seq runId + 1) })

/-- `XADD` with `MAXLEN ~`. -/
def xadd (s : RedisLog redis) (runId : Uuid) (clock : Nat) (text : redis.envelope.Text) :
    RedisLog redis :=
  let id := (s.lastId runId).next clock
  { s with
    stream := Function.update s.stream runId (redis.trim (s.stream runId ++ [(id, text)]))
    lastId := Function.update s.lastId runId id }

/-- `XRANGE` to the end of the stream with `COUNT`. -/
def xrangeCount (s : RedisLog redis) (runId : Uuid) (start : StreamId) (count : Nat) :
    List (StreamId × redis.envelope.Text) :=
  ((s.stream runId).filter fun e => start.le e.1).take count

/-! ### Methods -/

/-- The session of an event: it is set, or it is asked for. Source: `event_store/redis.rs:79–95`. -/
def sessionOf (s : RedisLog redis) (c : AppendCall) : Option Uuid × RedisLog redis :=
  match c.event.startedSession with
  | some sessionId => (some sessionId, s.setSession c.runId sessionId)
  | none => (s.getSession c.runId, s)

/-- Source: `event_store/redis.rs:72–130`. -/
def append (s : RedisLog redis) (c : RedisCall) : RuntimeEventEnvelope × RedisLog redis :=
  let session := s.sessionOf c.toAppendCall
  let next := session.2.incr c.runId
  let envelope := c.envelope next.1 session.1
  (envelope, next.2.xadd c.runId c.clock (redis.envelope.render envelope))

/-- Where a range starts: the first identifier, or the number read as one.
Source: `event_store/redis.rs:141`. -/
def rangeStart : Option Nat → StreamId
  | none => ⟨0, 0⟩
  | some seq => ⟨seq, 0⟩

/-- The envelope of an entry, when the text is one and its number is asked for.
Source: `event_store/redis.rs:153–158`. -/
def parseAfter (redis : RedisStreams) (afterSeq : Option Nat) (text : redis.envelope.Text) :
    Option RuntimeEventEnvelope :=
  match redis.envelope.parse text with
  | .ok env => if Paging.isAfter RuntimeEventEnvelope.seq afterSeq env then some env else none
  | .error _ => none

/-- Source: `event_store/redis.rs:132–177`. -/
def listAfter (s : RedisLog redis) (runId : Uuid) (afterSeq : Option Nat) (limit : Nat) :
    List RuntimeEventEnvelope :=
  (s.xrangeCount runId (rangeStart afterSeq) limit).filterMap fun e =>
    parseAfter redis afterSeq e.2

/-- The store after calls made one after the other. -/
def appendAll (s : RedisLog redis) (calls : List RedisCall) : RedisLog redis :=
  calls.foldl (fun s c => (s.append c).2) s

theorem appendAll_snoc (s : RedisLog redis) (calls : List RedisCall) (c : RedisCall) :
    s.appendAll (calls ++ [c]) = ((s.appendAll calls).append c).2 := by
  simp [appendAll]

/-! ### What a run's keys hold -/

@[simp] theorem getSession_setSession (s : RedisLog redis) (runId sessionId : Uuid) :
    (s.setSession runId sessionId).getSession runId = some sessionId := by
  simp only [getSession, setSession, Function.update_self, Option.bind_some,
    redis.sessionId.parse_render]
  rfl

/-- The keys of a run are those of the calls about it. -/
structure Holds (s : RedisLog redis) (runId : Uuid) (own : List AppendCall) : Prop where
  texts : (s.stream runId).map Prod.snd = (recorded own).map redis.envelope.render
  ids : ∀ e ∈ s.stream runId, streamMaxlen ≤ e.1.ms
  seq : s.seq runId = own.length
  session : s.getSession runId = latestSession own

theorem holds_new (runId : Uuid) : (new : RedisLog redis).Holds runId [] :=
  ⟨rfl, nofun, rfl, rfl⟩

variable {s : RedisLog redis} {runId : Uuid} {own : List AppendCall} {c : RedisCall}

theorem sessionOf_other (hc : c.runId ≠ runId) :
    (s.sessionOf c.toAppendCall).2.getSession runId = s.getSession runId := by
  unfold sessionOf
  cases c.event.startedSession with
  | none => rfl
  | some sessionId =>
    simp [getSession, setSession, Function.update_of_ne (Ne.symm hc)]

/-- The session is the latest one, and the other keys are as they were. -/
theorem Holds.sessionOf (h : s.Holds runId own) (hc : c.runId = runId) :
    (s.sessionOf c.toAppendCall).1 = latestSession (own ++ [c.toAppendCall]) ∧
      (s.sessionOf c.toAppendCall).2.getSession runId =
        latestSession (own ++ [c.toAppendCall]) := by
  subst hc
  rw [latestSession_snoc]
  unfold RedisLog.sessionOf
  cases c.event.startedSession with
  | none => exact ⟨h.session, h.session⟩
  | some sessionId => exact ⟨rfl, getSession_setSession _ _ _⟩

theorem sessionOf_stream (s : RedisLog redis) (c : AppendCall) :
    (s.sessionOf c).2.stream = s.stream ∧ (s.sessionOf c).2.seq = s.seq := by
  unfold RedisLog.sessionOf
  cases c.event.startedSession <;> exact ⟨rfl, rfl⟩

/-- An append to a run that is not trimmed extends its keys. -/
theorem Holds.append (h : s.Holds runId own) (hc : c.runId = runId)
    (hclock : streamMaxlen ≤ c.clock) (hshort : own.length < streamMaxlen) :
    (s.append c).2.Holds runId (own ++ [c.toAppendCall]) := by
  obtain ⟨hsession, hsessions⟩ := h.sessionOf hc
  obtain ⟨hstream, hseq⟩ := sessionOf_stream s c.toAppendCall
  subst hc
  have hlength : (s.stream c.runId).length = own.length := by
    have htexts := congrArg List.length h.texts
    simpa using htexts
  have hnext : (s.append c).2.stream c.runId = s.stream c.runId ++
      [(((s.sessionOf c.toAppendCall).2.lastId c.runId).next c.clock, redis.envelope.render
        (c.envelope (own.length + 1) (latestSession (own ++ [c.toAppendCall]))))] := by
    simp only [RedisLog.append, incr, xadd, Function.update_self, hstream, hseq, hsession, h.seq]
    apply redis.trim_short
    rw [List.length_append, hlength, List.length_singleton]
    exact hshort
  constructor
  · rw [hnext, recorded_snoc]
    simp [h.texts]
  · intro e he
    rw [hnext, List.mem_append] at he
    rcases he with he | he
    · exact h.ids e he
    · rw [List.mem_singleton.mp he]
      exact Nat.le_trans hclock (StreamId.clock_le_next _ _)
  · simp [RedisLog.append, incr, xadd, hseq, h.seq]
  · exact hsessions

/-- An append to another run leaves them alone. -/
theorem Holds.append_other (h : s.Holds runId own) (hc : c.runId ≠ runId) :
    (s.append c).2.Holds runId own := by
  obtain ⟨hstream, hseq⟩ := sessionOf_stream s c.toAppendCall
  have hne : runId ≠ c.runId := Ne.symm hc
  have hkept : (s.append c).2.stream runId = s.stream runId := by
    simp [RedisLog.append, incr, xadd, Function.update_of_ne hne, hstream]
  constructor
  · rw [hkept, h.texts]
  · rw [hkept]
    exact h.ids
  · simp [RedisLog.append, incr, xadd, Function.update_of_ne hne, hseq, h.seq]
  · exact (sessionOf_other hc).trans h.session

/-- After calls that trim nothing, the keys of a run are those of the calls about it. -/
theorem holds_appendAll (calls : List RedisCall) (runId : Uuid)
    (hclock : ∀ c ∈ calls, streamMaxlen ≤ c.clock)
    (hshort : (callsOf (calls.map RedisCall.toAppendCall) runId).length ≤ streamMaxlen) :
    ((new : RedisLog redis).appendAll calls).Holds runId
      (callsOf (calls.map RedisCall.toAppendCall) runId) := by
  induction calls using List.reverseRecOn with
  | nil => exact holds_new runId
  | append_singleton calls c ih =>
    have hclocks := fun d hd => hclock d (List.mem_append_left [c] hd)
    rw [appendAll_snoc]
    unfold callsOf at ih hshort ⊢
    rw [List.map_append, List.filter_append] at hshort ⊢
    by_cases hc : c.runId = runId
    · rw [List.map_singleton, List.filter_cons_of_pos (by simp [hc]), List.filter_nil] at hshort ⊢
      rw [List.length_append, List.length_singleton] at hshort
      exact (ih hclocks (by omega)).append hc (hclock c (by simp)) (by omega)
    · rw [List.map_singleton, List.filter_cons_of_neg (by simp [hc]), List.filter_nil,
        List.append_nil] at hshort ⊢
      exact (ih hclocks hshort).append_other hc

/-! ### Pages -/

/-- The texts of envelopes are read back, but for those before the position. -/
theorem filterMap_parseAfter (redis : RedisStreams) (envelopes : List RuntimeEventEnvelope)
    (afterSeq : Option Nat) :
    (envelopes.map redis.envelope.render).filterMap (parseAfter redis afterSeq) =
      envelopes.filter (Paging.isAfter RuntimeEventEnvelope.seq afterSeq) := by
  rw [List.filterMap_map, ← List.filterMap_eq_filter]
  apply List.filterMap_congr
  intro env _
  simp [parseAfter, redis.envelope.parse_render, Option.guard]

/-- A range that starts at a number within the stream is the whole stream. -/
theorem filter_rangeStart (h : s.Holds runId own) {afterSeq : Option Nat}
    (hafter : ∀ n, afterSeq = some n → n ≤ streamMaxlen) :
    (s.stream runId).filter (fun e => (rangeStart afterSeq).le e.1) = s.stream runId := by
  rw [List.filter_eq_self]
  intro e he
  have hms := h.ids e he
  cases afterSeq with
  | none =>
    rw [StreamId.le_iff]
    simp only [rangeStart]
    omega
  | some n =>
    have hn := hafter n rfl
    rw [StreamId.le_iff]
    simp only [rangeStart]
    omega

/-- The page of the server is cut before the numbers are looked at. -/
theorem listAfter_eq (h : s.Holds runId own) (hshort : own.length ≤ streamMaxlen)
    (afterSeq : Option Nat) (limit : Nat) :
    s.listAfter runId afterSeq limit =
      Paging.latePage RuntimeEventEnvelope.seq (recorded own) afterSeq limit := by
  unfold listAfter xrangeCount
  by_cases hafter : ∀ n, afterSeq = some n → n ≤ streamMaxlen
  · rw [filter_rangeStart h hafter, Paging.latePage, ← filterMap_parseAfter redis,
      List.map_take, ← h.texts, ← List.map_take, List.filterMap_map]
    rfl
  · -- every number is below the position
    obtain ⟨n, rfl, hn⟩ : ∃ n, afterSeq = some n ∧ ¬ n ≤ streamMaxlen := by
      simpa only [not_forall, exists_prop] using hafter
    have hnone : Paging.latePage RuntimeEventEnvelope.seq (recorded own) (some n) limit = [] := by
      rw [Paging.latePage, ((dense_recorded own).take limit).filter_isAfter]
      apply List.drop_eq_nil_of_le
      rw [List.length_take, length_recorded]
      omega
    rw [hnone, List.filterMap_eq_nil_iff]
    intro e he
    have hmem : e.2 ∈ (recorded own).map redis.envelope.render := by
      rw [← h.texts]
      exact List.mem_map_of_mem (List.mem_of_mem_filter (List.mem_of_mem_take he))
    obtain ⟨env, henv, hrender⟩ := List.mem_map.mp hmem
    obtain ⟨i, hi, rfl⟩ := List.getElem_of_mem henv
    have hseq := dense_recorded own i hi
    rw [length_recorded] at hi
    rw [← hrender, parseAfter, redis.envelope.parse_render]
    simp only [Paging.isAfter, hseq]
    rw [if_neg (by simp; omega)]

/-- **A page is that of the in-memory log if and only if the position is none or zero, the limit
zero, or the run no longer than the position or than the limit; reading page after page gives
the whole log if and only if the run is no longer than the limit**: for all appends that trim no
stream, on a server whose clock is past the first seconds of its epoch. -/
theorem listAfter_eq_memory_iff (redis : RedisStreams) (calls : List RedisCall) (runId : Uuid)
    (hclock : ∀ c ∈ calls, streamMaxlen ≤ c.clock)
    (hshort : (callsOf (calls.map RedisCall.toAppendCall) runId).length ≤ streamMaxlen) :
    let s := (new : RedisLog redis).appendAll calls
    let memory := StoreState.new.appendAll (calls.map RedisCall.toAppendCall)
    let n := (callsOf (calls.map RedisCall.toAppendCall) runId).length
    (∀ afterSeq limit, s.listAfter runId afterSeq limit = memory.listAfter runId afterSeq limit ↔
      ∀ seq, afterSeq = some seq → seq = 0 ∨ limit = 0 ∨ n ≤ seq ∨ n ≤ limit) ∧
    ∀ limit, 0 < limit → ∀ reads, n < reads →
      (Paging.readPages RuntimeEventEnvelope.seq (fun after => s.listAfter runId after limit)
        reads none = some (memory.log runId) ↔ n ≤ limit) := by
  intro s memory n
  have h : s.Holds runId _ := holds_appendAll calls runId hclock hshort
  have hmemory : memory.log runId = recorded _ :=
    (StoreState.holds_appendAll (calls.map RedisCall.toAppendCall) runId).log
  have hdense := dense_recorded (callsOf (calls.map RedisCall.toAppendCall) runId)
  constructor
  · intro afterSeq limit
    rw [listAfter_eq h hshort, StoreState.listAfter_eq, hmemory, hdense.latePage_eq_page_iff,
      length_recorded]
  · intro limit _ reads hreads
    simp only [listAfter_eq h hshort]
    rw [hdense.readPages_latePage limit reads (by rwa [length_recorded]), hmemory,
      Option.some.injEq]
    constructor
    · intro htake
      have hlength := congrArg List.length htake
      rw [List.length_take, length_recorded] at hlength
      omega
    · intro hn
      exact List.take_of_length_le (by rwa [length_recorded])

/-! ### Three events -/

/-- Texts that are the values themselves, and a server that does not trim. -/
def plain : RedisStreams :=
  ⟨.identity _, .identity _, id, fun _ => List.suffix_rfl, fun _ _ => rfl⟩

/-- Three events of one run. -/
def threeDeltas : List RedisCall :=
  [⟨⟨.textDelta 1 "a", 10, 0⟩, 20000⟩, ⟨⟨.textDelta 1 "b", 11, 1⟩, 20000⟩,
    ⟨⟨.textDelta 1 "c", 12, 2⟩, 20001⟩]

/-- After the second event a page of two is empty, and pages of two give two events. -/
theorem threeDeltas_missed :
    let s := (new : RedisLog plain).appendAll threeDeltas
    let memory := StoreState.new.appendAll (threeDeltas.map RedisCall.toAppendCall)
    (s.listAfter 1 (some 2) 2).map RuntimeEventEnvelope.seq = [] ∧
      (memory.listAfter 1 (some 2) 2).map RuntimeEventEnvelope.seq = [3] ∧
      (Paging.readPages RuntimeEventEnvelope.seq (fun after => s.listAfter 1 after 2) 4 none).map
        (List.map RuntimeEventEnvelope.seq) = some [1, 2] := by
  decide

/-- A page of three is long enough. -/
theorem threeDeltas_listed :
    let s := (new : RedisLog plain).appendAll threeDeltas
    let memory := StoreState.new.appendAll (threeDeltas.map RedisCall.toAppendCall)
    s.listAfter 1 (some 2) 3 = memory.listAfter 1 (some 2) 3 ∧
      Paging.readPages RuntimeEventEnvelope.seq (fun after => s.listAfter 1 after 3) 4 none =
        some (memory.log 1) := by
  intro s memory
  have h := listAfter_eq_memory_iff plain threeDeltas 1 (by decide) (by decide)
  exact ⟨(h.1 (some 2) 3).mpr fun _ _ => .inr (.inr (.inr (by decide))),
    (h.2 3 (by decide) 4 (by decide)).mpr (by decide)⟩

end RedisLog

end EventLog

end Behest
