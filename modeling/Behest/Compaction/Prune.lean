import Behest.Compaction.Select

/-!
# Pruning tool outputs

`behest-runtime/src/compaction/prune.rs`: old tool outputs are replaced by a placeholder and
flagged. The pass walks backwards, leaves recent records alone, stops at the first record it
takes for a summary and changes nothing unless enough tokens are freed.
-/

namespace Behest.Compaction

/-- Source: `prune.rs:18`. -/
def pruneMinimum : Nat := 20000

/-- Source: `prune.rs:21`. -/
def pruneProtect : Nat := 40000

/-- Source: `prune.rs:24`. -/
def pruneProtectedTools : List String := ["skill"]

/-- Source: `prune.rs:27`. -/
def prunedPlaceholder : String := "[Old tool result content cleared]"

/-- Source: `prune.rs:31–36`. -/
structure PruneResult where
  prunedCount : Nat
  tokensFreed : Nat
deriving DecidableEq

/-- The record of the turn up to which recent turns are skipped, over `(record, index)` last to
first. Source: `prune.rs:72–84`. -/
def skipUntil (skipTurns : Nat) : Nat → List (MessageRecord × Nat) → Option Nat
  | _, [] => none
  | turnCount, (msg, i) :: rest =>
      if startsTurn msg then
        if turnCount + 1 ≥ skipTurns then some i else skipUntil skipTurns (turnCount + 1) rest
      else skipUntil skipTurns turnCount rest

/-- Source: `prune.rs:108–113`. -/
def isProtectedTool (msg : MessageRecord) : Bool :=
  match msg.toolName with
  | some name => pruneProtectedTools.contains name
  | none => false

/-- The indices to prune and the tokens they free, over `(record, index)` last to first;
`guarded` counts the tokens protected so far. Source: `prune.rs:86–129`. -/
def collectTargets (stops : MessageRecord → Bool) (skips : Bool) (guarded : Nat) :
    List (MessageRecord × Nat) → List Nat × Nat
  | [] => ([], 0)
  | (msg, i) :: rest =>
      if stops msg then ([], 0)
      else if skips && decide (guarded < pruneProtect) then
        collectTargets stops skips (guarded + estimateRecordTokens msg) rest
      else if msg.role ≠ .tool then collectTargets stops skips guarded rest
      else if isProtectedTool msg then collectTargets stops skips guarded rest
      else if msg.isSummary then collectTargets stops skips guarded rest
      else if guarded < pruneProtect then
        collectTargets stops skips (guarded + estimateRecordTokens msg) rest
      else
        let older := collectTargets stops skips guarded rest
        (i :: older.1, estimateRecordTokens msg + older.2)

/-- The pruned form of a record. Source: `prune.rs:140–142`. -/
def prunedForm (msg : MessageRecord) : MessageRecord :=
  { msg with isSummary := true, content := [.ofText prunedPlaceholder] }

/-- Source: `prune.rs:138–143`. -/
def applyTargets (targets : List Nat) (messages : List MessageRecord) : List MessageRecord :=
  targets.foldl (fun messages i => messages.modify i prunedForm) messages

/-- A pass that stops at the records that `stops` accepts. -/
def prunePass (stops : MessageRecord → Bool) (messages : List MessageRecord) (skipTurns : Nat) :
    PruneResult × List MessageRecord :=
  if messages.isEmpty then (⟨0, 0⟩, messages)
  else
    let newestFirst := messages.zipIdx.reverse
    let (targets, estimatedFreed) :=
      collectTargets stops (skipUntil skipTurns 0 newestFirst).isSome 0 newestFirst
    if estimatedFreed < pruneMinimum then (⟨0, 0⟩, messages)
    else (⟨targets.length, estimatedFreed⟩, applyTargets targets messages)

/-- Source: `prune.rs:64–149`. -/
def pruneToolOutputs (messages : List MessageRecord) (skipTurns : Nat) :
    PruneResult × List MessageRecord :=
  prunePass MessageRecord.isSummary messages skipTurns

end Behest.Compaction
