import Mathlib.Data.List.Sort
import Behest.Store.Record

/-!
# Message selection for compaction

`behest-runtime/src/compaction/select.rs`: a history is grouped into turns, the last
`tailTurns` of them are walked backwards against a token budget, and the rest becomes the
head. Turns, heads and tails are lists of indices into the history, as in the source;
`recordsAt` reads the records back.
-/

namespace Behest.Compaction

/-- Result of the selection. Source: `select.rs:16–24`. -/
structure SelectionResult where
  head : List MessageRecord
  tail : List MessageRecord
  tailStartId : Option Uuid

/-- A turn starts at a user message that is not a compaction marker. -/
def startsTurn (msg : MessageRecord) : Bool := !msg.isCompaction && decide (msg.role = .user)

/-- The turns of `messages`, whose first record has index `i`, after the unfinished turn
`current`. Source: `select.rs:39–51`. -/
def turnsFrom (current : List Nat) (i : Nat) : List MessageRecord → List (List Nat)
  | [] => if current.isEmpty then [] else [current]
  | msg :: rest =>
      if startsTurn msg && !current.isEmpty then
        current :: turnsFrom [i] (i + 1) rest
      else
        turnsFrom (current ++ [i]) (i + 1) rest

/-- Source: `select.rs:35–54`. -/
def turns (messages : List MessageRecord) : List (List Nat) := turnsFrom [] 0 messages

/-- The records at the given indices. -/
def recordsAt (messages : List MessageRecord) (indices : List Nat) : List MessageRecord :=
  indices.filterMap (messages[·]?)

/-- The estimate of the record at an index. -/
def tokensAt (messages : List MessageRecord) (i : Nat) : Nat :=
  match messages[i]? with
  | some msg => estimateRecordTokens msg
  | none => 0

/-- `sort_unstable` on indices. -/
def sortIndices (indices : List Nat) : List Nat := indices.insertionSort (· ≤ ·)

/-- Walk the indices of one turn, given last to first, and stop at the first record that
does not fit beside `accumulated`; `opened` says that the tail has a record already.
Returns the tokens and the indices taken, in the order taken. Source: `select.rs:111–124`. -/
def takeTurn (tokens : Nat → Nat) (keep accumulated : Nat) (opened : Bool) :
    List Nat → Nat × List Nat
  | [] => (0, [])
  | idx :: rest =>
      if accumulated + tokens idx > keep && opened then (0, [])
      else
        let taken := takeTurn tokens keep accumulated opened rest
        (tokens idx + taken.1, idx :: taken.2)

/-- How the walk over the preserved turns ended. -/
inductive Walk where
  | overflowed (overflow tail : List Nat)
  | fitted (tail : List Nat)

/-- Walk the preserved turns, given youngest first. Source: `select.rs:106–163`. -/
def walkTurns (tokens : Nat → Nat) (keep : Nat) : List (List Nat) → Nat → List Nat → Walk
  | [], _, tail => .fitted (sortIndices tail)
  | turn :: earlier, accumulated, tail =>
      let taken := takeTurn tokens keep accumulated (!tail.isEmpty) turn.reverse
      if accumulated + taken.1 > keep && !tail.isEmpty then
        .overflowed (turn.filter fun i => !taken.2.contains i) tail.reverse
      else
        walkTurns tokens keep earlier (accumulated + taken.1) (taken.2.reverse ++ tail)

/-- How many of the turns are preserved. Source: `select.rs:91–95`. -/
def preservedTurns (messages : List MessageRecord) (tailTurns : Nat) : Nat :=
  if (turns messages).length ≤ tailTurns then (turns messages).length else tailTurns

/-- The turns before the preserved ones. -/
def headTurns (messages : List MessageRecord) (tailTurns : Nat) : List (List Nat) :=
  (turns messages).take ((turns messages).length - preservedTurns messages tailTurns)

/-- The preserved turns. -/
def tailTurnsSlice (messages : List MessageRecord) (tailTurns : Nat) : List (List Nat) :=
  (turns messages).drop ((turns messages).length - preservedTurns messages tailTurns)

/-- Source: `select.rs:67–174`. -/
def select (messages : List MessageRecord) (tailTurns keepTokens : Nat) : SelectionResult :=
  if messages.isEmpty then ⟨[], [], none⟩
  else if (turns messages).isEmpty then ⟨messages, [], none⟩
  else
    let headIndices := (headTurns messages tailTurns).flatten
    match walkTurns (tokensAt messages) keepTokens
        (tailTurnsSlice messages tailTurns).reverse 0 [] with
    | .overflowed overflow tailIndices =>
        let tail := recordsAt messages tailIndices
        ⟨recordsAt messages (sortIndices (headIndices ++ overflow)), tail,
          tail.head?.map MessageRecord.id⟩
    | .fitted tailIndices =>
        let tail := recordsAt messages tailIndices
        ⟨recordsAt messages headIndices, tail, tail.head?.map MessageRecord.id⟩

end Behest.Compaction
