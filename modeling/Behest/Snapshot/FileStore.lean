import Behest.Effect.Crowd
import Behest.Files.Inodes
import Behest.Runtime.Run
import Behest.SessionData.Stores

/-!
# Snapshots in files

The snapshot store of `behest-runtime/src/snapshot.rs` on a disk. A save writes a temporary file
part by part and renames it; a load, a delete and a listing look first and act then. Calls of any
number take these steps in any order, the system may refuse each of them, and a process that
crashes leaves the disk as it is.
-/

namespace Behest

open Effect Files

/-- A `RunId` has 128 bits. -/
abbrev SnapshotRunId : Type := { id : Uuid // id < 2 ^ 128 }

/-- What `serde_json` writes and reads. -/
structure SnapshotFormat where
  toStringPretty : Snapshot → Except String String
  fromStr : String → Except String Snapshot

/-- A call of the trait. Source: `snapshot.rs:45–75`. -/
inductive SnapshotOperation where
  | save (snapshot : Snapshot) (wide : snapshot.runId < 2 ^ 128)
  | load (runId : SnapshotRunId)
  | delete (runId : SnapshotRunId)
  | list

/-- What a call returns when it does not fail. -/
inductive SnapshotAnswer where
  | saved
  | loaded (snapshot : Option Snapshot)
  | deleted
  | listed (snapshots : List Snapshot)

namespace FileSnapshotStore

/-! ### Names and texts -/

/-- Source: `snapshot.rs:93–95`; names are those within `base_dir`. -/
def pathFor (runId : Uuid) : String := "snapshot_" ++ Uuid.display runId ++ ".json"

/-- Source: `snapshot.rs:111–113`. -/
def tempPath (runId : Uuid) : String := "snapshot_" ++ Uuid.display runId ++ ".json.tmp"

/-- What follows the last dot of a name, unless the name begins there. -/
def extension (name : String) : Option String :=
  let ending := name.toList.reverse.takeWhile (· != '.')
  if ending.length + 1 < name.length then some (String.ofList ending.reverse) else none

/-- The bytes of a text. -/
def bytesOf (text : String) : List UInt8 := text.toUTF8.data.toList

/-- What `read_to_string` makes of the bytes of a file. -/
def readToString (bytes : List UInt8) : Except String String :=
  match String.fromUTF8? ⟨bytes.toArray⟩ with
  | some text => .ok text
  | none => .error "stream did not contain valid UTF-8"

variable (format : SnapshotFormat)

/-- The snapshot in the bytes of a file. Source: `snapshot.rs:134–140`. -/
def decode (bytes : List UInt8) : Except RuntimeError Snapshot :=
  match readToString bytes with
  | .error e => .error (.recoveryFailed ("failed to read snapshot file: " ++ e))
  | .ok text =>
      match format.fromStr text with
      | .error e => .error (.recoveryFailed ("failed to deserialize snapshot file: " ++ e))
      | .ok snapshot => .ok snapshot

/-! ### The steps of a call -/

/-- Where a call stands. -/
inductive Phase where
  | createDir
  | openTemp (bytes : List UInt8)
  | writeTemp (file offset : Nat) (left : List UInt8)
  | rename
  | checkFile
  | openFile
  | readFile (file : Nat) (got : List UInt8)
  | remove
  | checkDir
  | readDir
  | nextEntry (found : List Snapshot)
  | checkEntry (name : String) (found : List Snapshot)
  | openEntry (name : String) (found : List Snapshot)
  | readEntry (file : Nat) (got : List UInt8) (found : List Snapshot)
  | answering (outcome : Except RuntimeError SnapshotAnswer)
  | returned (outcome : Except RuntimeError SnapshotAnswer)
  | killed

/-- A call under way. -/
structure Call where
  operation : SnapshotOperation
  phase : Phase

/-- A call enters. -/
def start : SnapshotOperation → Call
  | .save snapshot wide => ⟨.save snapshot wide, .createDir⟩
  | .load runId => ⟨.load runId, .checkFile⟩
  | .delete runId => ⟨.delete runId, .checkFile⟩
  | .list => ⟨.list, .checkDir⟩

def failed (message error : String) : Phase :=
  .answering (.error (.recoveryFailed (message ++ error)))

/-- What `std::fs` says of a file that is not there. -/
def noSuchFile : String := "No such file or directory (os error 2)"

/-- The next part of a file; nothing at its end. -/
def nextPart (d : Disk String UInt8) (file : Nat) (got : List UInt8) (size : Nat) : List UInt8 :=
  ((d.file file).drop got.length).take (size + 1)

/-- The steps of a save that go well; `size` bounds what is written at once.
Source: `snapshot.rs:100–126`. -/
def proceedSave (d : Disk String UInt8) (snapshot : Snapshot) (size : Nat) :
    Phase → Option (Disk String UInt8 × Phase)
  | .createDir =>
      match format.toStringPretty snapshot with
      | .ok text => some (d, .openTemp (bytesOf text))
      | .error e => some (d, failed "failed to serialize snapshot: " e)
  | .openTemp bytes =>
      let opened := d.create (tempPath snapshot.runId)
      some (opened.2, .writeTemp opened.1 0 bytes)
  | .writeTemp _ _ [] => some (d, .rename)
  | .writeTemp file offset left =>
      let part := left.take (size + 1)
      some (d.write 0 file offset part,
        .writeTemp file (offset + part.length) (left.drop (size + 1)))
  | .rename =>
      match d.rename (tempPath snapshot.runId) (pathFor snapshot.runId) with
      | some d' => some (d', .answering (.ok .saved))
      | none => some (d, failed "failed to finalize snapshot: " noSuchFile)
  | _ => none

/-- The steps of a load. Source: `snapshot.rs:128–143`. -/
def proceedLoad (d : Disk String UInt8) (runId : Uuid) (size : Nat) : Phase → Option Phase
  | .checkFile =>
      if (d.names (pathFor runId)).isSome then some .openFile
      else some (.answering (.ok (.loaded none)))
  | .openFile =>
      match d.names (pathFor runId) with
      | some file => some (.readFile file [])
      | none => some (failed "failed to read snapshot file: " noSuchFile)
  | .readFile file got =>
      match nextPart d file got size with
      | [] =>
          match decode format got with
          | .ok snapshot => some (.answering (.ok (.loaded (some snapshot))))
          | .error e => some (.answering (.error e))
      | part => some (.readFile file (got ++ part))
  | _ => none

/-- The steps of a delete. Source: `snapshot.rs:145–153`. -/
def proceedDelete (d : Disk String UInt8) (runId : Uuid) :
    Phase → Option (Disk String UInt8 × Phase)
  | .checkFile =>
      if (d.names (pathFor runId)).isSome then some (d, .remove)
      else some (d, .answering (.ok .deleted))
  | .remove =>
      match d.remove (pathFor runId) with
      | some d' => some (d', .answering (.ok .deleted))
      | none => some (d, failed "failed to delete snapshot file: " noSuchFile)
  | _ => none

/-- The steps of a listing, but for the next entry of the directory, which the system picks.
Source: `snapshot.rs:155–180`. -/
def proceedList (d : Disk String UInt8) (hasDir : Bool) (size : Nat) : Phase → Option Phase
  | .checkDir => some (if hasDir then .readDir else .answering (.ok (.listed [])))
  | .readDir => some (.nextEntry [])
  | .checkEntry name found =>
      if (d.names name).isSome ∧ extension name = some "json" then some (.openEntry name found)
      else some (.nextEntry found)
  | .openEntry name found =>
      match d.names name with
      | some file => some (.readEntry file [] found)
      | none => some (.nextEntry found)
  | .readEntry file got found =>
      match nextPart d file got size with
      | [] =>
          match decode format got with
          | .ok snapshot => some (.nextEntry (found ++ [snapshot]))
          | .error _ => some (.nextEntry found)
      | part => some (.readEntry file (got ++ part) found)
  | _ => none

/-- A step that goes well. -/
def proceed (d : Disk String UInt8) (hasDir : Bool) (c : Call) (size : Nat) :
    Option (Disk String UInt8 × Phase) :=
  match c.phase with
  | .answering outcome => some (d, .returned outcome)
  | p =>
      match c.operation with
      | .save snapshot _ => proceedSave format d snapshot size p
      | .load runId => (proceedLoad format d runId.val size p).map (d, ·)
      | .delete runId => proceedDelete d runId.val p
      | .list => (proceedList format d hasDir size p).map (d, ·)

/-- A step that the system refuses; `exists` and `is_file` then say no. -/
def refuse (c : Call) (error : String) : Option Phase :=
  match c.operation, c.phase with
  | _, .createDir => some (failed "failed to create snapshot dir: " error)
  | _, .openTemp _ | _, .writeTemp _ _ _ => some (failed "failed to write snapshot: " error)
  | _, .rename => some (failed "failed to finalize snapshot: " error)
  | .load _, .checkFile => some (.answering (.ok (.loaded none)))
  | .delete _, .checkFile => some (.answering (.ok .deleted))
  | _, .openFile | _, .readFile _ _ => some (failed "failed to read snapshot file: " error)
  | _, .remove => some (failed "failed to delete snapshot file: " error)
  | .list, .checkDir => some (.answering (.ok (.listed [])))
  | _, .readDir => some (failed "failed to read snapshot dir: " error)
  | _, .nextEntry _ => some (failed "failed to read snapshot directory entry: " error)
  | _, .checkEntry _ found | _, .openEntry _ found | _, .readEntry _ _ found =>
      some (.nextEntry found)
  | _, _ => none

/-- The system picks an entry of the directory, or says that there are no more. -/
def pick (c : Call) (name : Option String) : Option Phase :=
  match c.operation, c.phase, name with
  | .list, .nextEntry found, some name => some (.checkEntry name found)
  | .list, .nextEntry found, none => some (.answering (.ok (.listed found)))
  | _, _, _ => none

/-- A crash ends the calls that have not returned. -/
def kill (c : Call) : Call :=
  match c.phase with
  | .returned _ => c
  | _ => { c with phase := .killed }

end FileSnapshotStore

/-! ### The store under way -/

/-- The disk and the calls in the order in which they entered. -/
structure FileSnapshotStore where
  disk : Disk String UInt8
  hasDir : Bool
  calls : List FileSnapshotStore.Call

namespace FileSnapshotStore

inductive Turn where
  | enter (operation : SnapshotOperation)
  | proceed (call size : Nat)
  | refuse (call : Nat) (error : String)
  | pick (call : Nat) (name : Option String)
  | crash

/-- A process begins with what is on the disk. Source: `snapshot.rs:87–91`. -/
def new (disk : Disk String UInt8) (hasDir : Bool) : FileSnapshotStore := ⟨disk, hasDir, []⟩

/-- A call goes on in a phase. -/
def go (x : FileSnapshotStore) (i : Nat) (c : Call) (p : Phase) : FileSnapshotStore :=
  { x with calls := x.calls.set i { c with phase := p } }

variable (format : SnapshotFormat)

def step (x : FileSnapshotStore) : Turn → Option FileSnapshotStore
  | .enter operation => some { x with calls := x.calls ++ [start operation] }
  | .proceed i size => do
      let c ← x.calls[i]?
      let done ← proceed format x.disk x.hasDir c size
      let hasDir := x.hasDir || match c.phase with
        | .createDir => true
        | _ => false
      some ({ x with disk := done.1, hasDir }.go i c done.2)
  | .refuse i error => do
      let c ← x.calls[i]?
      let p ← refuse c error
      some (x.go i c p)
  | .pick i name => do
      let c ← x.calls[i]?
      let p ← pick c name
      some (x.go i c p)
  | .crash => some { x with calls := x.calls.map kill }

end FileSnapshotStore

end Behest
