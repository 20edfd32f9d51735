import Mathlib.Logic.Function.Basic
import Behest.Runtime.Run
import Behest.Store.Record

/-!
# The runtime store facade

`behest-runtime/src/store.rs`: a runtime store composes a session, an execution and a run
store behind trait objects, and keeps a clone of the extension point of each kind. A trait
object is a handle into a heap; what it answers is any function of the calls it has served,
so every backend is some object. The facade turns out to reach only the stores it boxes.
-/

namespace Behest.Facade

inductive StoreKind where
  | session
  | execution
  | run
deriving DecidableEq

/-- The timestamps, which no modelled call reads, are left out.
Source: `behest-store/src/lib.rs:104–119`. -/
structure Session where
  id : Uuid
  title : String
  model : String
  metadata : Value

/-- What the three store traits offer beyond the calls the facade makes by itself. -/
structure Traits where
  SessionCall : Type
  SessionReply : SessionCall → Type
  ExecutionCall : Type
  ExecutionReply : ExecutionCall → Type
  RunCall : Type
  RunReply : RunCall → Type

/-- Calls to a session store. Source: `behest-store/src/lib.rs:489–632`. -/
inductive SessionCall (T : Traits) where
  | getSession (id : Uuid)
  | createSession (session : Session)
  | appendMessage (record : MessageRecord)
  | listMessages (id : Uuid)
  | other (c : T.SessionCall)

def SessionCall.Reply {T : Traits} : SessionCall T → Type
  | getSession _ => Except StorageError (Option Session)
  | createSession _ => Except StorageError Session
  | appendMessage _ => Except StorageError MessageRecord
  | listMessages _ => Except StorageError (List MessageRecord)
  | other c => T.SessionReply c

variable (T : Traits)

def Call : StoreKind → Type
  | .session => SessionCall T
  | .execution => T.ExecutionCall
  | .run => T.RunCall

def Reply : (k : StoreKind) → Call T k → Type
  | .session, c => SessionCall.Reply c
  | .execution, c => T.ExecutionReply c
  | .run, c => T.RunReply c

/-- A store behind a trait object: its answers, and the calls it has served. -/
structure Backend (k : StoreKind) where
  answer : List (Call T k) → (c : Call T k) → Reply T k c
  served : List (Call T k)

/-- A trait object: registered by the operator, or boxed by a facade. -/
inductive Handle where
  | registered (n : Nat)
  | boxed (n : Nat)
deriving DecidableEq

/-- The trait objects of a process; the boxes from `boxes` on are not in use. -/
structure Heap where
  object : (k : StoreKind) → Handle → Backend T k
  boxes : Nat

variable {T}

/-- The behaviour of the three in-memory stores when they are new. -/
abbrev Builtin (T : Traits) :=
  (k : StoreKind) → List (Call T k) → (c : Call T k) → Reply T k c

namespace Heap

/-- Put an object at a handle. -/
def place (heap : Heap T) (k : StoreKind) (h : Handle) (b : Backend T k) : Heap T :=
  { heap with object := Function.update heap.object k (Function.update (heap.object k) h b) }

/-- Apply a call to the object at a handle. -/
def invoke (heap : Heap T) (k : StoreKind) (h : Handle) (c : Call T k) : Reply T k c × Heap T :=
  let b := heap.object k h
  (b.answer b.served c, heap.place k h { b with served := b.served ++ [c] })

/-- `Box::new` of an in-memory store. -/
def box (builtin : Builtin T) (heap : Heap T) (k : StoreKind) : Handle × Heap T :=
  (.boxed heap.boxes,
    { heap.place k (.boxed heap.boxes) ⟨builtin k, []⟩ with boxes := heap.boxes + 1 })

@[simp] theorem object_place_self (heap : Heap T) (k : StoreKind) (h : Handle) (b : Backend T k) :
    (heap.place k h b).object k h = b := by
  simp [place]

theorem object_place_of_ne (heap : Heap T) {k k' : StoreKind} {h h' : Handle} (b : Backend T k)
    (hne : h' ≠ h) : (heap.place k h b).object k' h' = heap.object k' h' := by
  unfold place
  by_cases hk : k' = k
  · subst hk
    simp [hne]
  · simp [hk]

end Heap

/-- The registered entries of one kind, by name. -/
abbrev ExtensionPoint := List (String × Nat)

/-- Source: `behest-runtime/src/extensions.rs:59–87`. -/
structure Extensions where
  sessionStores : ExtensionPoint
  executionStores : ExtensionPoint
  runStores : ExtensionPoint

def Extensions.point (exts : Extensions) : StoreKind → ExtensionPoint
  | .session => exts.sessionStores
  | .execution => exts.executionStores
  | .run => exts.runStores

/-- Source: `behest-runtime/src/store.rs:159–171`. -/
structure RuntimeStore where
  sessions : Handle
  executions : Handle
  runs : Handle
  sessionsEp : ExtensionPoint
  executionsEp : ExtensionPoint
  runsEp : ExtensionPoint

/-- An operation on a runtime store: one of its own methods, with the identifiers it draws,
or a call through `sessions()`, `executions()` or `runs()`. -/
inductive StoreOp (T : Traits) where
  | ensureSession (sessionId : Option Uuid) (fresh : Session)
  | appendMessage (id createdAt : Nat) (sessionId : Uuid) (message : Message)
  | listMessages (sessionId : Uuid)
  | through (k : StoreKind) (c : Call T k)

namespace StoreOp

def kind : StoreOp T → StoreKind
  | through k _ => k
  | _ => .session

def Reply : StoreOp T → Type
  | ensureSession _ _ | appendMessage _ _ _ _ => Except RuntimeError Uuid
  | listMessages _ => Except RuntimeError (List Message)
  | through k c => Facade.Reply T k c

end StoreOp

namespace RuntimeStore

/-- Source: `store.rs:238–253`. -/
def fromExtensions (builtin : Builtin T) (exts : Extensions) (heap : Heap T) :
    RuntimeStore × Heap T :=
  let (sessions, heap) := heap.box builtin .session
  let (executions, heap) := heap.box builtin .execution
  let (runs, heap) := heap.box builtin .run
  (⟨sessions, executions, runs, exts.sessionStores, exts.executionStores, exts.runStores⟩, heap)

/-- The accessors `sessions()`, `executions()` and `runs()`. Source: `store.rs:213–229`. -/
def accessor (store : RuntimeStore) : StoreKind → Handle
  | .session => store.sessions
  | .execution => store.executions
  | .run => store.runs

/-- Source: `store.rs:291–309`. -/
def ensureSession (store : RuntimeStore) (sessionId : Option Uuid) (fresh : Session)
    (heap : Heap T) : Except RuntimeError Uuid × Heap T :=
  match sessionId with
  | some id =>
      let (reply, heap) := heap.invoke .session store.sessions (.getSession id)
      match (reply : Except StorageError (Option Session)) with
      | .error e => (.error (.storage e), heap)
      | .ok none => (.error (.sessionNotFound id), heap)
      | .ok (some _) => (.ok id, heap)
  | none =>
      let (reply, heap) := heap.invoke .session store.sessions (.createSession fresh)
      match (reply : Except StorageError Session) with
      | .error e => (.error (.storage e), heap)
      | .ok _ => (.ok fresh.id, heap)

/-- Source: `store.rs:316–324`. -/
def appendMessage (store : RuntimeStore) (id createdAt : Nat) (sessionId : Uuid)
    (message : Message) (heap : Heap T) : Except RuntimeError Uuid × Heap T :=
  let (reply, heap) := heap.invoke .session store.sessions
    (.appendMessage (messageToRecord id createdAt sessionId message))
  match (reply : Except StorageError MessageRecord) with
  | .error e => (.error (.storage e), heap)
  | .ok record => (.ok record.id, heap)

/-- Source: `store.rs:331–338`. -/
def listMessages (store : RuntimeStore) (sessionId : Uuid) (heap : Heap T) :
    Except RuntimeError (List Message) × Heap T :=
  let (reply, heap) := heap.invoke .session store.sessions (.listMessages sessionId)
  match (reply : Except StorageError (List MessageRecord)) with
  | .error e => (.error (.storage e), heap)
  | .ok records => (.ok (records.map recordToMessage), heap)

def perform (store : RuntimeStore) (heap : Heap T) : (op : StoreOp T) → op.Reply × Heap T
  | .ensureSession sessionId fresh => store.ensureSession sessionId fresh heap
  | .appendMessage id createdAt sessionId message =>
      store.appendMessage id createdAt sessionId message heap
  | .listMessages sessionId => store.listMessages sessionId heap
  | .through k c => heap.invoke k (store.accessor k) c

/-- The heap after a sequence of operations. -/
def run (store : RuntimeStore) (heap : Heap T) : List (StoreOp T) → Heap T
  | [] => heap
  | op :: rest => store.run (store.perform heap op).2 rest

/-- The runtime store with another store of one kind in its place. -/
def withStore (store : RuntimeStore) (k : StoreKind) (h : Handle) : RuntimeStore :=
  match k with
  | .session => { store with sessions := h }
  | .execution => { store with executions := h }
  | .run => { store with runs := h }

@[simp] theorem accessor_withStore (store : RuntimeStore) (k : StoreKind) (h : Handle) :
    (store.withStore k h).accessor k = h := by
  cases k <;> rfl

/-! ### Which object an operation reaches -/

/-- An operation applies one call, to the store its kind's accessor gives. -/
theorem perform_invokes (store : RuntimeStore) (heap : Heap T) (op : StoreOp T) :
    ∃ c, (store.perform heap op).2 = (heap.invoke op.kind (store.accessor op.kind) c).2 := by
  cases op with
  | ensureSession sessionId fresh =>
    cases sessionId with
    | some id =>
      refine ⟨.getSession id, ?_⟩
      simp only [perform, ensureSession]
      split <;> rfl
    | none =>
      refine ⟨.createSession fresh, ?_⟩
      simp only [perform, ensureSession]
      split <;> rfl
  | appendMessage id createdAt sessionId message =>
    refine ⟨.appendMessage (messageToRecord id createdAt sessionId message), ?_⟩
    simp only [perform, appendMessage]
    split <;> rfl
  | listMessages sessionId =>
    refine ⟨.listMessages sessionId, ?_⟩
    simp only [perform, listMessages]
    split <;> rfl
  | through k c => exact ⟨c, rfl⟩

/-- The stores a facade uses are boxes of its own. -/
def OwnBoxes (store : RuntimeStore) : Prop := ∀ k, ∃ n, store.accessor k = .boxed n

theorem ownBoxes_fromExtensions (builtin : Builtin T) (exts : Extensions) (heap : Heap T) :
    (fromExtensions builtin exts heap).1.OwnBoxes := by
  intro k
  cases k
  · exact ⟨heap.boxes, rfl⟩
  · exact ⟨heap.boxes + 1, rfl⟩
  · exact ⟨heap.boxes + 2, rfl⟩

/-- Building a facade leaves the registered stores alone. -/
theorem fromExtensions_registered (builtin : Builtin T) (exts : Extensions) (heap : Heap T)
    (k : StoreKind) (n : Nat) :
    (fromExtensions builtin exts heap).2.object k (.registered n) =
      heap.object k (.registered n) := by
  have hne : ∀ m, Handle.registered n ≠ .boxed m := by simp
  simp only [fromExtensions, Heap.box, Heap.object_place_of_ne _ _ (hne _)]

/-- No operation changes a registered store. -/
theorem run_registered {store : RuntimeStore} (hown : store.OwnBoxes) (heap : Heap T)
    (ops : List (StoreOp T)) (k : StoreKind) (n : Nat) :
    (store.run heap ops).object k (.registered n) = heap.object k (.registered n) := by
  induction ops generalizing heap with
  | nil => rfl
  | cons op rest ih =>
    obtain ⟨c, hc⟩ := store.perform_invokes heap op
    obtain ⟨m, hm⟩ := hown op.kind
    rw [run, ih, hc, hm]
    exact heap.object_place_of_ne _ (by simp)

/-- The operation is applied to a registered store of its kind, and returns what that store
returns. -/
def AppliedTo (store : RuntimeStore) (exts : Extensions) (heap : Heap T) (op : StoreOp T) : Prop :=
  ∃ entry ∈ exts.point op.kind,
    store.perform heap op = (store.withStore op.kind (.registered entry.2)).perform heap op

/-- Every operation of a kind with registered stores is applied to one of them. -/
def Routed (store : RuntimeStore) (exts : Extensions) : Heap T → List (StoreOp T) → Prop
  | _, [] => True
  | heap, op :: rest =>
      (exts.point op.kind ≠ [] → store.AppliedTo exts heap op) ∧
        Routed store exts (store.perform heap op).2 rest

/-- An operation on a box is not an operation on a registered store. -/
theorem not_appliedTo {store : RuntimeStore} (hown : store.OwnBoxes) (exts : Extensions)
    (heap : Heap T) (op : StoreOp T) : ¬ store.AppliedTo exts heap op := by
  rintro ⟨entry, -, heq⟩
  obtain ⟨n, hn⟩ := hown op.kind
  obtain ⟨c, hc⟩ := store.perform_invokes heap op
  obtain ⟨c', hc'⟩ := (store.withStore op.kind (.registered entry.2)).perform_invokes heap op
  rw [accessor_withStore] at hc'
  have hheap := congrArg Prod.snd heq
  rw [hc, hc', hn] at hheap
  -- the box has served one call more on the left than on the right
  have hbox := congrArg (fun h : Heap T => (h.object op.kind (.boxed n)).served.length) hheap
  simp only [Heap.invoke, Heap.object_place_self, List.length_append, List.length_singleton,
    heap.object_place_of_ne _ (show Handle.boxed n ≠ .registered entry.2 by simp)] at hbox
  omega

/-- **The operations on a runtime store are routed to the registered stores exactly when
none of them is of a kind with a registered store**; and all of them leave every registered
store as it was before the runtime store was built. -/
theorem routed_iff (builtin : Builtin T) (exts : Extensions) (heap : Heap T)
    (ops : List (StoreOp T)) :
    let built := fromExtensions builtin exts heap
    (built.1.Routed exts built.2 ops ↔ ∀ op ∈ ops, exts.point op.kind = []) ∧
      ∀ k n, (built.1.run built.2 ops).object k (.registered n) =
        heap.object k (.registered n) := by
  intro built
  have hown : built.1.OwnBoxes := ownBoxes_fromExtensions builtin exts heap
  constructor
  · generalize built.2 = heap'
    induction ops generalizing heap' with
    | nil => simp [Routed]
    | cons op rest ih =>
      rw [Routed, ih, List.forall_mem_cons]
      apply and_congr_left'
      constructor
      · intro h
        by_contra hne
        exact not_appliedTo hown exts heap' op (h hne)
      · exact fun h hne => absurd h hne
  · intro k n
    rw [run_registered hown]
    exact fromExtensions_registered builtin exts heap k n

end RuntimeStore

/-! ### Two lifetimes over one session store -/

/-- Source: `behest-store/src/memory/session.rs:19–24`; the index used by `update_usage` is
left out. -/
structure MemorySessionStore where
  sessions : Uuid → Option Session
  messages : Uuid → Option (List MessageRecord)

/-- One further call of each trait. -/
def oneCallTraits : Traits where
  SessionCall := Unit
  SessionReply _ := Except StorageError Unit
  ExecutionCall := ToolExecution
  ExecutionReply _ := Except StorageError ToolExecution
  RunCall := RunRecord
  RunReply _ := Except RuntimeError Unit

namespace MemorySessionStore

def new : MemorySessionStore := ⟨fun _ => none, fun _ => none⟩

/-- Source: `memory/session.rs:36–119`. -/
def serve (m : MemorySessionStore) : SessionCall oneCallTraits → MemorySessionStore
  | .createSession s =>
      ⟨Function.update m.sessions s.id (some s), Function.update m.messages s.id (some [])⟩
  | .appendMessage r =>
      if (m.sessions r.sessionId).isSome then
        { m with
          messages :=
            Function.update m.messages r.sessionId
              (some ((m.messages r.sessionId).getD [] ++ [r])) }
      else m
  | _ => m

def reply (m : MemorySessionStore) : (c : SessionCall oneCallTraits) → c.Reply
  | .getSession id => .ok (m.sessions id)
  | .createSession s => .ok s
  | .appendMessage r =>
      if (m.sessions r.sessionId).isSome then .ok r
      else .error (.notFound (Uuid.display r.sessionId))
  | .listMessages id => .ok ((m.messages id).getD [])
  | .other _ => .ok ()

end MemorySessionStore

/-- The in-memory stores: executions and runs are accepted as they come. -/
def inMemory : Builtin oneCallTraits
  | .session, served, c => (served.foldl MemorySessionStore.serve .new).reply c
  | .execution, _, e => .ok e
  | .run, _, _ => .ok ()

/-- A session store is registered, and the first lifetime of the process creates a session
with one message in it. -/
def firstLifetime : List (StoreOp oneCallTraits) :=
  [.ensureSession none ⟨7, "Agent Run", "default", .null⟩,
    .appendMessage 1 0 7 (.userText "ping")]

/-- The registered session store serves none of the calls, and the second lifetime does not
find the session. -/
theorem firstLifetime_not_routed :
    let exts : Extensions := ⟨[("main", 0)], [], []⟩
    let heap : Heap oneCallTraits := ⟨fun k _ => ⟨inMemory k, []⟩, 0⟩
    let first := RuntimeStore.fromExtensions inMemory exts heap
    let after := first.1.run first.2 firstLifetime
    let second := RuntimeStore.fromExtensions inMemory exts after
    ¬ first.1.Routed exts first.2 firstLifetime ∧
      (after.object .session (.registered 0)).served = [] ∧
      (second.1.ensureSession (some 7) ⟨8, "Agent Run", "default", .null⟩ second.2).1 =
        .error (.sessionNotFound 7) := by
  intro exts heap first after second
  refine ⟨?_, rfl, rfl⟩
  intro h
  have hown := RuntimeStore.ownBoxes_fromExtensions inMemory exts heap
  have hpoint : exts.point .session ≠ [] := by simp [Extensions.point, exts]
  exact RuntimeStore.not_appliedTo hown exts first.2 _ (h.1 hpoint)

end Behest.Facade
