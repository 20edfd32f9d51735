import Behest.Effect.Crowd
import Behest.SessionData.Stores
import Behest.Store.Cascade

/-!
# Artifacts as two objects each

The artifact stores on disk and on S3 (`behest-store/src/object/artifact.rs`): the bytes of an
artifact are one object, its metadata another. A put writes the bytes first, a delete removes them
first, and a get reads the metadata first. Each request to the object store is one step; the
object store may refuse it, or carry it out and say that it failed. Calls take their steps in any
order, and a process may crash.
-/

namespace Behest

open Effect

/-- What `serde_json` writes and reads of artifacts. -/
structure ArtifactFormat where
  toVec : Artifact → Except String (List UInt8)
  fromSlice : List UInt8 → Except String Artifact
  roundTrip (a : Artifact) (bytes : List UInt8) : toVec a = .ok bytes → fromSlice bytes = .ok a

/-- An artifact whose identifier has 128 bits. -/
abbrev WideArtifact : Type := { a : Artifact // a.id < 2 ^ 128 }

/-- The identifier of an artifact, of 128 bits. -/
abbrev ArtifactId : Type := { id : Uuid // id < 2 ^ 128 }

def WideArtifact.id (a : WideArtifact) : ArtifactId := ⟨a.val.id, a.property⟩

/-- A call of the trait. Source: `behest-store/src/lib.rs:664–676`. -/
inductive ArtifactOperation where
  | put (artifact : WideArtifact)
  | get (id : ArtifactId)
  | delete (id : ArtifactId)
  | listBySession (sessionId : Uuid)

/-- What a call returns when it does not fail. -/
inductive ArtifactAnswer where
  | stored (artifact : Artifact)
  | found (artifact : Option Artifact)
  | deleted
  | listed (artifacts : List Artifact)

namespace ObjectArtifactStore

/-- Source: `object/artifact.rs:56–58, 215–217`. -/
def artifactPath (id : Uuid) : String := "artifacts/" ++ Uuid.display id

/-- Source: `object/artifact.rs:60–62, 219–221`. -/
def metadataPath (id : Uuid) : String := "metadata/" ++ Uuid.display id ++ ".json"

/-- Where a call stands. -/
inductive Phase where
  | putData
  | putMetadata (bytes : List UInt8)
  | getMetadata
  | getData (artifact : Artifact)
  | deleteData
  | deleteMetadata
  | listObjects
  | readEntries (left : List String) (found : List Artifact)
  | answering (outcome : Except StorageError ArtifactAnswer)
  | returned (outcome : Except StorageError ArtifactAnswer)
  | killed

/-- A call under way. -/
structure Call where
  operation : ArtifactOperation
  phase : Phase

/-- A call enters. -/
def start : ArtifactOperation → Call
  | .put artifact => ⟨.put artifact, .putData⟩
  | .get id => ⟨.get id, .getMetadata⟩
  | .delete id => ⟨.delete id, .deleteData⟩
  | .listBySession sessionId => ⟨.listBySession sessionId, .listObjects⟩

abbrev Objects : Type := String → Option (List UInt8)

/-- The object store: its name in errors, and what it says of an object that is not there. -/
structure Backend where
  name : String
  notFound : String → String

variable (format : ArtifactFormat) (backend : Backend)

/-- Source: `object/artifact.rs:67–99, 226–256`. -/
def proceedPut (objects : Objects) (artifact : Artifact) : Phase → Option (Objects × Phase)
  | .putData =>
      let objects := Function.update objects (artifactPath artifact.id) (some artifact.data)
      match format.toVec artifact with
      | .ok bytes => some (objects, .putMetadata bytes)
      | .error e => some (objects, .answering (.error (.serializationFailed e)))
  | .putMetadata bytes =>
      some (Function.update objects (metadataPath artifact.id) (some bytes),
        .answering (.ok (.stored artifact)))
  | _ => none

/-- Source: `object/artifact.rs:101–155, 258–310`. -/
def proceedGet (objects : Objects) (id : Uuid) : Phase → Option Phase
  | .getMetadata =>
      match objects (metadataPath id) with
      | none => some (.answering (.ok (.found none)))
      | some bytes =>
          match format.fromSlice bytes with
          | .ok artifact => some (.getData artifact)
          | .error e => some (.answering (.error (.serializationFailed e)))
  | .getData artifact =>
      match objects (artifactPath id) with
      | some data => some (.answering (.ok (.found (some { artifact with data }))))
      | none =>
          let error := .backendError backend.name (backend.notFound (artifactPath id))
          some (.answering (.error error))
  | _ => none

/-- Source: `object/artifact.rs:157–164, 312–319`. -/
def proceedDelete (objects : Objects) (id : Uuid) : Phase → Option (Objects × Phase)
  | .deleteData => some (Function.update objects (artifactPath id) none, .deleteMetadata)
  | .deleteMetadata =>
      some (Function.update objects (metadataPath id) none, .answering (.ok .deleted))
  | _ => none

/-- The entries that were listed, one after the other. Source: `object/artifact.rs:184–194,
339–349`. -/
def proceedList (objects : Objects) (sessionId : Uuid) : Phase → Option Phase
  | .readEntries [] found => some (.answering (.ok (.listed found)))
  | .readEntries (location :: left) found =>
      match (objects location).map format.fromSlice with
      | some (.ok artifact) =>
          some (.readEntries left
            (if artifact.sessionId = some sessionId then found ++ [artifact] else found))
      | _ => some (.readEntries left found)
  | _ => none

/-- A step that goes well. -/
def proceed (objects : Objects) (c : Call) : Option (Objects × Phase) :=
  match c.phase with
  | .answering outcome => some (objects, .returned outcome)
  | p =>
      match c.operation with
      | .put artifact => proceedPut format objects artifact.val p
      | .get id => (proceedGet format backend objects id.val p).map (objects, ·)
      | .delete id => proceedDelete objects id.val p
      | .listBySession sessionId => (proceedList format objects sessionId p).map (objects, ·)

/-- A request that the object store refuses; a delete and a listing pass over it. -/
def refuse (c : Call) (error : String) : Option Phase :=
  match c.operation, c.phase with
  | _, .putData | _, .putMetadata _ | _, .getMetadata | _, .getData _ | _, .listObjects =>
      some (.answering (.error (.backendError backend.name error)))
  | .delete _, .deleteData => some .deleteMetadata
  | .delete _, .deleteMetadata => some (.answering (.ok .deleted))
  | .listBySession _, .readEntries (_ :: left) found => some (.readEntries left found)
  | _, _ => none

/-- The prefix under which metadata is. -/
def underMetadata (location : String) : Bool := "metadata/".toList.isPrefixOf location.toList

/-- The object store lists the locations under a prefix. Source: `object/artifact.rs:166–182,
321–337`. -/
def list (c : Call) (locations : List String) : Option Phase :=
  match c.operation, c.phase with
  | .listBySession _, .listObjects =>
      if locations.all underMetadata then some (.readEntries locations []) else none
  | _, _ => none

/-- A crash ends the calls that have not returned. -/
def kill (c : Call) : Call :=
  match c.phase with
  | .returned _ => c
  | _ => { c with phase := .killed }

end ObjectArtifactStore

/-- The objects and the calls in the order in which they entered. -/
structure ObjectArtifactStore where
  objects : ObjectArtifactStore.Objects
  calls : List ObjectArtifactStore.Call

namespace ObjectArtifactStore

/-- Whose turn it is; the answer to a request that was carried out may be lost. -/
inductive Turn where
  | enter (operation : ArtifactOperation)
  | proceed (call : Nat)
  | refuse (call : Nat) (error : String)
  | lose (call : Nat) (error : String)
  | list (call : Nat) (locations : List String)
  | crash

/-- A bucket without objects. -/
def new : ObjectArtifactStore := ⟨fun _ => none, []⟩

/-- A call goes on in a phase. -/
def go (x : ObjectArtifactStore) (i : Nat) (c : Call) (p : Phase) : ObjectArtifactStore :=
  { x with calls := x.calls.set i { c with phase := p } }

variable (format : ArtifactFormat) (backend : Backend)

def step (x : ObjectArtifactStore) : Turn → Option ObjectArtifactStore
  | .enter operation => some { x with calls := x.calls ++ [start operation] }
  | .proceed i => do
      let c ← x.calls[i]?
      let done ← proceed format backend x.objects c
      some ({ x with objects := done.1 }.go i c done.2)
  | .refuse i error => do
      let c ← x.calls[i]?
      let p ← refuse backend c error
      some (x.go i c p)
  | .lose i error => do
      let c ← x.calls[i]?
      let done ← proceed format backend x.objects c
      let p ← refuse backend c error
      some ({ x with objects := done.1 }.go i c p)
  | .list i locations => do
      let c ← x.calls[i]?
      let p ← list c locations
      some (x.go i c p)
  | .crash => some { x with calls := x.calls.map kill }

end ObjectArtifactStore

/-! ### The store in memory -/

namespace MemoryArtifactStore

/-- Source: `memory/artifact.rs:42–45`. -/
def delete (s : MemoryArtifactStore) (id : Uuid) : MemoryArtifactStore := ⟨s.artifacts.remove id⟩

/-- A call of the store in memory, which holds its lock throughout. -/
def call (s : MemoryArtifactStore) : ArtifactOperation → MemoryArtifactStore × ArtifactAnswer
  | .put artifact => (s.put artifact.val, .stored artifact.val)
  | .get id => (s, .found (s.get id.val))
  | .delete id => (s.delete id.val, .deleted)
  | .listBySession sessionId => (s, .listed (s.listBySession sessionId))

end MemoryArtifactStore

end Behest
