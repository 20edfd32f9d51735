import Behest.Compaction.Partition

/-!
# The budget of the retained tail

The walk looks at the budget only once the tail has a record, so the youngest preserved turn is
taken whole. Everything older is added within the budget.
-/

namespace Behest.Compaction

variable {messages : List MessageRecord} {tailTurns keepTokens : Nat}

@[simp] theorem weight_sortIndices (tokens : Nat → Nat) (is : List Nat) :
    weight tokens (sortIndices is) = weight tokens is :=
  ((List.perm_insertionSort _ is).map tokens).sum_nat

/-- From a tail within the budget the walk arrives at a tail within the budget. -/
theorem weight_tailIndices_le {tokens : Nat → Nat} {keep : Nat} {earlier : List (List Nat)}
    {tail : List Nat} (hnd : ∀ turn ∈ earlier, turn.Nodup) (htail : tail ≠ [])
    (h : weight tokens tail ≤ keep) :
    weight tokens (walkTurns tokens keep earlier (weight tokens tail) tail).tailIndices ≤
      keep := by
  induction earlier generalizing tail with
  | nil => simpa [walkTurns, Walk.tailIndices] using h
  | cons turn rest ih =>
    rw [walkTurns_older tokens keep (hnd turn (by simp)) htail]
    dsimp only
    split
    · simpa [Walk.tailIndices] using h
    · next hfits =>
      have hmore : weight tokens (keptOf tokens keep (weight tokens tail) turn ++ tail) ≤ keep := by
        rw [weight_append]
        omega
      have hrest := ih (fun t ht => hnd t (by simp [ht])) (by simp [htail]) hmore
      rwa [weight_append, Nat.add_comm (weight tokens _) (weight tokens tail)] at hrest

section Youngest

variable {earlier : List (List Nat)} {youngest : List Nat}
  (hslice : tailTurnsSlice messages tailTurns = earlier ++ [youngest])
include hslice

private theorem turn_of_slice {turn : List Nat} (h : turn ∈ earlier ++ [youngest]) :
    turn ≠ [] ∧ turn.Nodup := by
  rw [← hslice] at h
  exact ⟨ne_nil_of_mem_tailTurnsSlice h, nodup_of_mem_tailTurnsSlice h⟩

/-- The youngest preserved turn is the last turn of the history. -/
theorem getLast?_turns : (turns messages).getLast? = some youngest := by
  have hsuffix := List.drop_suffix
    ((turns messages).length - preservedTurns messages tailTurns) (turns messages)
  change tailTurnsSlice messages tailTurns <:+ _ at hsuffix
  rw [hslice] at hsuffix
  obtain ⟨before, hbefore⟩ := hsuffix
  rw [← hbefore]
  simp

/-- The walk starts with the youngest turn as its tail. -/
theorem outcome_of_youngest : outcome messages tailTurns keepTokens =
    walkTurns (tokensAt messages) keepTokens earlier.reverse (weight (tokensAt messages) youngest)
      youngest := by
  unfold outcome
  rw [hslice, List.reverse_append, List.reverse_singleton, List.singleton_append,
    walkTurns_youngest]

/-- A youngest turn over the budget is the whole tail. -/
theorem tailIndices_perm_youngest (hover : keepTokens < weight (tokensAt messages) youngest) :
    (outcome messages tailTurns keepTokens).tailIndices.Perm youngest := by
  rw [outcome_of_youngest hslice]
  cases hearlier : earlier.reverse with
  | nil => exact List.perm_insertionSort _ youngest
  | cons older rest =>
    have holder : older ∈ earlier := List.mem_reverse.mp (by rw [hearlier]; simp)
    have hnd : older.Nodup := (turn_of_slice hslice (by simp [holder])).2
    rw [walkTurns_over _ _ hnd (turn_of_slice hslice (by simp)).1 rest hover]
    exact List.reverse_perm youngest

/-- A youngest turn within the budget leaves a tail within the budget. -/
theorem weight_outcome_le (hfits : weight (tokensAt messages) youngest ≤ keepTokens) :
    weight (tokensAt messages) (outcome messages tailTurns keepTokens).tailIndices ≤
      keepTokens := by
  rw [outcome_of_youngest hslice]
  exact weight_tailIndices_le
    (fun turn hturn => (turn_of_slice hslice (by simp [List.mem_reverse.mp hturn])).2)
    (turn_of_slice hslice (by simp)).1 hfits

end Youngest

/-- A tail within its budget; a single record may exceed it. -/
def WithinBudget (tail : List MessageRecord) (keepTokens : Nat) : Prop :=
  estimateRecordsTokens tail ≤ keepTokens ∨ tail.length = 1

/-- Only the records of a tail matter, not their order. -/
theorem withinBudget_congr {tail tail' : List MessageRecord} (h : tail.Perm tail') :
    WithinBudget tail keepTokens ↔ WithinBudget tail' keepTokens := by
  have hsum : estimateRecordsTokens tail = estimateRecordsTokens tail' :=
    (h.map estimateRecordTokens).sum_nat
  unfold WithinBudget
  rw [hsum, h.length_eq]

/-- **The retained tail is within its budget exactly when no turn is asked for or the last turn
of the history is within it: the last turn is never cut**. -/
theorem select_withinBudget_iff (messages : List MessageRecord) (tailTurns keepTokens : Nat) :
    WithinBudget (select messages tailTurns keepTokens).tail keepTokens ↔
      tailTurns = 0 ∨ ∀ turn, (turns messages).getLast? = some turn →
        WithinBudget (recordsAt messages turn) keepTokens := by
  have htail : (select messages tailTurns keepTokens).tail =
      recordsAt messages (outcome messages tailTurns keepTokens).tailIndices := by
    rw [select_eq]
  have hcount := length_tailTurnsSlice messages tailTurns
  unfold preservedTurns at hcount
  rw [htail]
  rcases List.eq_nil_or_concat (tailTurnsSlice messages tailTurns) with
    hnone | ⟨earlier, youngest, hslice⟩
  · -- no turn is preserved, and nothing retained
    have hempty : (outcome messages tailTurns keepTokens).tailIndices = [] := by
      unfold outcome
      rw [hnone]
      rfl
    rw [hempty]
    apply iff_of_true (.inl (Nat.zero_le _))
    rw [hnone, List.length_nil] at hcount
    split at hcount
    · right
      intro turn hlast
      rw [List.length_eq_zero_iff.mp hcount.symm] at hlast
      cases hlast
    · exact .inl hcount.symm
  · rw [List.concat_eq_append] at hslice
    have hsome : tailTurns ≠ 0 := by
      rintro rfl
      rw [hslice] at hcount
      split at hcount <;> simp at hcount
      omega
    rw [getLast?_turns hslice]
    simp only [hsome, false_or, Option.some.injEq, forall_eq']
    rcases Nat.lt_or_ge keepTokens (weight (tokensAt messages) youngest) with hover | hfits
    · have hperm := (tailIndices_perm_youngest hslice hover).filterMap (messages[·]?)
      exact withinBudget_congr hperm
    · have hweight := weight_outcome_le hslice hfits
      rw [weight_tokensAt] at hweight hfits
      exact iff_of_true (.inl hweight) (.inl hfits)

/-- A last turn of two records over its budget is kept whole. -/
theorem twoExchanges_over_budget : ¬ WithinBudget (select twoExchanges 2 10).tail 10 := by
  rintro (hfits | hone)
  · exact absurd hfits (by decide)
  · exact absurd hone (by decide)

end Behest.Compaction
