import Behest.Compaction.Flags

/-!
# What a pruning pass protects

Which records a pass prunes is read off the records behind each of them. The pass looks for the
start of the recent turns and then only asks whether it found one, so recent turns are protected
by their tokens alone.
-/

namespace Behest.Compaction

variable (messages : List MessageRecord) (skipTurns : Nat)

/-! ### The records that are pruned -/

/-- The record counts among the recent tokens: any one where the turns were found, else a tool
output that may be pruned. -/
def counts (skips : Bool) (r : MessageRecord) : Bool :=
  skips || decide (r.role = .tool) && !isProtectedTool r

/-- The recent tokens among some records. -/
def recentTokens (skips : Bool) (records : List MessageRecord) : Nat :=
  estimateRecordsTokens (records.filter (counts skips))

variable {messages skipTurns}

theorem recentTokens_cons (skips : Bool) (r : MessageRecord) (after : List MessageRecord) :
    recentTokens skips (r :: after) =
      (if counts skips r then estimateRecordTokens r else 0) + recentTokens skips after := by
  unfold recentTokens
  cases hcounts : counts skips r <;> simp [hcounts]

/-- What the guard of a pass says about the records it has walked over. -/
structure Guards (skips : Bool) (guarded : Nat) (after : List MessageRecord) : Prop where
  exact_of_lt : guarded < pruneProtect → guarded = recentTokens skips after
  spent : pruneProtect ≤ guarded → pruneProtect ≤ recentTokens skips after
  noSummary : after.all (fun r => !r.isSummary) = true

/-- A record that adds to the guard. -/
theorem Guards.count {skips : Bool} {guarded : Nat} {r : MessageRecord}
    {after : List MessageRecord} (h : Guards skips guarded after) (hsummary : r.isSummary = false)
    (hcounts : counts skips r = true) (hlow : guarded < pruneProtect) :
    Guards skips (guarded + estimateRecordTokens r) (r :: after) := by
  have hexact := h.exact_of_lt hlow
  have hcons := recentTokens_cons skips r after
  rw [if_pos hcounts] at hcons
  exact ⟨fun _ => by omega, fun _ => by omega, by simpa [hsummary] using h.noSummary⟩

/-- A record that leaves the guard alone. -/
theorem Guards.pass {skips : Bool} {guarded : Nat} {r : MessageRecord}
    {after : List MessageRecord} (h : Guards skips guarded after) (hsummary : r.isSummary = false)
    (hcounts : guarded < pruneProtect → counts skips r = false) :
    Guards skips guarded (r :: after) := by
  have hcons := recentTokens_cons skips r after
  refine ⟨fun hlow => ?_, fun hspent => ?_, by simpa [hsummary] using h.noSummary⟩
  · rw [hcounts hlow, if_neg Bool.false_ne_true] at hcons
    have hexact := h.exact_of_lt hlow
    omega
  · have := h.spent hspent
    omega

end Behest.Compaction
