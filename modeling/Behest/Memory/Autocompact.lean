import Mathlib.Data.List.SplitBy
import Behest.Core.Budget
import Behest.Core.Message

/-!
# Autocompact

The second tier of `behest-memory/src/compaction.rs`: the messages are split into groups at user
messages, and the oldest groups are dropped until the others fit the compact threshold.
-/

namespace Behest

/-- Source: `behest-memory/src/compaction.rs:192–199`. -/
structure AutocompactReport where
  groupsDropped : Nat := 0
  groupsKept : Nat := 0
  tokensFreed : Nat := 0
deriving DecidableEq

namespace Autocompact

/-- The loop behind position `i`, with the groups so far and the group under way.
Source: `behest-memory/src/compaction.rs:283–294`. -/
def splitFrom (i : Nat) (groups : List (Nat × List Nat)) (start : Nat) (current : List Nat) :
    List Message → List (Nat × List Nat)
  | [] => if current.isEmpty then groups else groups ++ [(start, current)]
  | msg :: rest =>
      if msg.isUser && !current.isEmpty then
        splitFrom (i + 1) (groups ++ [(start, current)]) i [i] rest
      else splitFrom (i + 1) groups start (current ++ [i]) rest

/-- Each group with the position it starts at and the positions of its messages.
Source: `behest-memory/src/compaction.rs:278–296`. -/
def splitIntoGroups (messages : List Message) : List (Nat × List Nat) :=
  splitFrom 0 [] 0 [] messages

def groupTokens (messages : List Message) (group : Nat × List Nat) : Nat :=
  (group.2.map fun i => (messages[i]?).elim 0 estimateMessageTokens).sum

/-- The number of groups kept, newest first. Source: `behest-memory/src/compaction.rs:237–248`. -/
def keepFrom (limit keptTokens keptCount : Nat) : List Nat → Nat
  | [] => keptCount
  | tokens :: rest =>
      if decide (keptCount > 0) && decide (keptTokens + tokens > limit) then keptCount
      else keepFrom limit (keptTokens + tokens) (keptCount + 1) rest

/-- The messages that are left, and the report.
Source: `behest-memory/src/compaction.rs:209–271`. -/
def autocompact (messages : List Message) (budget : TokenBudget) :
    List Message × AutocompactReport :=
  if messages.isEmpty then (messages, {})
  else
    let beforeTokens := estimateMessagesTokens messages
    let limit := budget.thresholds.compactThreshold
    if beforeTokens ≤ limit then (messages, { groupsKept := 1 })
    else
      let groups := splitIntoGroups messages
      if groups.length ≤ 1 then (messages, { groupsKept := 1 })
      else
        let kept := keepFrom limit 0 0 (groups.reverse.map (groupTokens messages))
        let dropped := groups.length - kept
        if dropped = 0 then (messages, { groupsKept := kept })
        else
          let left := messages.drop ((groups[groups.length - kept]?).elim 0 Prod.fst)
          (left, ⟨dropped, kept, beforeTokens - estimateMessagesTokens left⟩)

/-! ### Groups -/

/-- The messages split before each user message. -/
def turns (messages : List Message) : List (List Message) :=
  messages.splitBy fun _ msg => !msg.isUser

/-- Groups with the positions of their messages, from position `k` on. -/
def located : Nat → List (List Message) → List (Nat × List Nat)
  | _, [] => []
  | k, group :: rest => (k, List.range' k group.length) :: located (k + group.length) rest

theorem located_append (k : Nat) (groups more : List (List Message)) :
    located k (groups ++ more) = located k groups ++ located (k + groups.flatten.length) more := by
  induction groups generalizing k with
  | nil => simp [located]
  | cons group rest ih =>
    simp only [List.cons_append, located, ih, List.flatten_cons, List.length_append, Nat.add_assoc]

@[simp] theorem length_located (k : Nat) (groups : List (List Message)) :
    (located k groups).length = groups.length := by
  induction groups generalizing k with
  | nil => rfl
  | cons group rest ih => rw [located, List.length_cons, List.length_cons, ih]

/-- The loop of the source is the loop of `splitBy`, on positions. -/
theorem splitFrom_eq (rest : List Message) (last : Message) (current : List Message)
    (groups : List (List Message)) :
    splitFrom (groups.reverse.flatten.length + (current.length + 1)) (located 0 groups.reverse)
        groups.reverse.flatten.length
        (List.range' groups.reverse.flatten.length (current.length + 1)) rest =
      located 0 (List.splitBy.loop (fun _ msg => !msg.isUser) rest last current groups) := by
  induction rest generalizing last current groups with
  | nil =>
    rw [splitFrom, List.splitBy.loop, List.reverse_cons, located_append, Nat.zero_add]
    simp [located]
  | cons msg rest ih =>
    rw [splitFrom, List.splitBy.loop]
    by_cases huser : msg.isUser = true
    · have hnext := ih msg [] ((last :: current).reverse :: groups)
      rw [List.reverse_cons, located_append, List.flatten_append, List.length_append,
        Nat.zero_add] at hnext
      simpa [huser, located, List.range'_succ] using hnext
    · have hnext := ih msg (last :: current) groups
      rw [List.length_cons, List.range'_1_concat] at hnext
      simpa [huser, Nat.add_assoc, List.range'_succ] using hnext

theorem splitIntoGroups_eq (messages : List Message) :
    splitIntoGroups messages = located 0 (turns messages) := by
  cases messages with
  | nil => rfl
  | cons msg rest =>
    have h := splitFrom_eq rest msg [] []
    rw [splitIntoGroups, splitFrom, turns, List.splitBy]
    simpa [located] using h

/-- The groups by their positions weigh what their messages weigh. -/
theorem map_groupTokens (front : List Message) (groups : List (List Message)) :
    (located front.length groups).map (groupTokens (front ++ groups.flatten)) =
      groups.map estimateMessagesTokens := by
  induction groups generalizing front with
  | nil => rfl
  | cons group rest ih =>
    rw [located, List.map_cons, List.map_cons, List.flatten_cons]
    congr 1
    · rw [groupTokens, estimateMessagesTokens]
      congr 1
      apply List.ext_getElem
      · simp
      · intro i hi _
        have hi : i < group.length := by simpa using hi
        rw [List.getElem_map, List.getElem_map, List.getElem_range', Nat.one_mul,
          List.getElem?_append_right (Nat.le_add_right _ _), Nat.add_sub_cancel_left,
          List.getElem?_append_left hi, List.getElem?_eq_getElem hi]
        rfl
    · have hnext := ih (front ++ group)
      rwa [List.length_append, List.append_assoc] at hnext

theorem getElem?_located (k : Nat) (groups : List (List Message)) (i : Nat) :
    ((located k groups)[i]?).map Prod.fst =
      if i < groups.length then some (k + (groups.take i).flatten.length) else none := by
  induction groups generalizing k i with
  | nil => simp [located]
  | cons group rest ih =>
    cases i with
    | zero => simp [located]
    | succ i =>
      rw [located, List.getElem?_cons_succ, ih, List.take_succ_cons, List.flatten_cons,
        List.length_append, Nat.add_assoc]
      simp

/-! ### The loop -/

/-- What the loop adds to the groups kept: as many as fit, and at least one. -/
theorem keepFrom_spec (limit : Nat) (weights : List Nat) (keptTokens keptCount : Nat) :
    ∃ k, keepFrom limit keptTokens keptCount weights = keptCount + k ∧ k ≤ weights.length ∧
      (weights ≠ [] → 0 < keptCount + k) ∧
      (0 < k → 1 < keptCount + k → keptTokens + (weights.take k).sum ≤ limit) ∧
      ∀ j ≤ weights.length, keptTokens + (weights.take j).sum ≤ limit → j ≤ k := by
  induction weights generalizing keptTokens keptCount with
  | nil =>
    refine ⟨0, rfl, Nat.le_refl _, fun h => absurd rfl h, fun h => absurd h (Nat.lt_irrefl _), ?_⟩
    exact fun j hj _ => hj
  | cons tokens rest ih =>
    rw [keepFrom]
    by_cases hstop : keptCount > 0 ∧ keptTokens + tokens > limit
    · rw [if_pos (by simpa using hstop)]
      refine ⟨0, rfl, Nat.zero_le _, fun _ => hstop.1, fun h => absurd h (Nat.lt_irrefl _), ?_⟩
      intro j _ hfits
      cases j with
      | zero => exact Nat.le_refl _
      | succ j =>
        rw [List.take_succ_cons, List.sum_cons] at hfits
        omega
    · rw [if_neg (by simpa using hstop)]
      obtain ⟨k, hkept, hle, hpos, hfits, hlargest⟩ := ih (keptTokens + tokens) (keptCount + 1)
      refine ⟨k + 1, by rw [hkept]; omega, Nat.succ_le_succ hle, fun _ => by omega, ?_, ?_⟩
      · intro _ hone
        rw [List.take_succ_cons, List.sum_cons, ← Nat.add_assoc]
        cases k with
        | zero =>
          -- the group is not the first, so it was added because it fits
          rw [List.take_zero, List.sum_nil]
          omega
        | succ k => exact hfits (Nat.succ_pos _) (by omega)
      · intro j hj hsum
        cases j with
        | zero => exact Nat.zero_le _
        | succ j =>
          rw [List.take_succ_cons, List.sum_cons, ← Nat.add_assoc] at hsum
          exact Nat.succ_le_succ (hlargest j (Nat.le_of_succ_le_succ hj) hsum)

/-! ### The largest suffix -/

/-- The last `k` groups. -/
def lastGroups (groups : List (List Message)) (k : Nat) : List Message :=
  (groups.drop (groups.length - k)).flatten

/-- The groups before them. -/
def oldGroups (groups : List (List Message)) (k : Nat) : List Message :=
  (groups.take (groups.length - k)).flatten

/-- The largest number of trailing groups that fit the limit, and at least one. -/
structure LargestFit (groups : List (List Message)) (limit k : Nat) : Prop where
  le : k ≤ groups.length
  pos : groups ≠ [] → 0 < k
  fits : 1 < k → estimateMessagesTokens (lastGroups groups k) ≤ limit
  largest : ∀ j ≤ groups.length, estimateMessagesTokens (lastGroups groups j) ≤ limit → j ≤ k

theorem old_append_last (groups : List (List Message)) (k : Nat) :
    oldGroups groups k ++ lastGroups groups k = groups.flatten := by
  rw [oldGroups, lastGroups, ← List.flatten_append, List.take_append_drop]

theorem estimateMessagesTokens_append (ms ms' : List Message) :
    estimateMessagesTokens (ms ++ ms') =
      estimateMessagesTokens ms + estimateMessagesTokens ms' := by
  simp [estimateMessagesTokens]

theorem estimateMessagesTokens_flatten (groups : List (List Message)) :
    estimateMessagesTokens groups.flatten = (groups.map estimateMessagesTokens).sum := by
  induction groups with
  | nil => rfl
  | cons group rest ih =>
    rw [List.flatten_cons, estimateMessagesTokens_append, ih, List.map_cons, List.sum_cons]

theorem estimate_lastGroups (groups : List (List Message)) (k : Nat) :
    ((groups.map estimateMessagesTokens).reverse.take k).sum =
      estimateMessagesTokens (lastGroups groups k) := by
  rw [lastGroups, estimateMessagesTokens_flatten, List.take_reverse, List.sum_reverse,
    List.length_map, List.map_drop]

/-- The loop keeps the largest number of groups that fit. -/
theorem largestFit_keepFrom (groups : List (List Message)) (limit : Nat) :
    LargestFit groups limit
      (keepFrom limit 0 0 (groups.map estimateMessagesTokens).reverse) := by
  obtain ⟨k, hkept, hle, hpos, hfits, hlargest⟩ :=
    keepFrom_spec limit (groups.map estimateMessagesTokens).reverse 0 0
  simp only [Nat.zero_add, List.length_reverse, List.length_map, ne_eq, List.reverse_eq_nil_iff,
    List.map_eq_nil_iff] at hkept hle hpos hfits hlargest
  rw [hkept]
  refine ⟨hle, hpos, fun hone => ?_, fun j hj hfit => ?_⟩
  · rw [← estimate_lastGroups]
    exact hfits (Nat.zero_lt_of_lt hone) hone
  · rw [← estimate_lastGroups] at hfit
    exact hlargest j hj hfit

theorem LargestFit.eq {groups : List (List Message)} {limit k k' : Nat}
    (h : LargestFit groups limit k) (h' : LargestFit groups limit k') : k = k' := by
  have hle : ∀ {a b}, LargestFit groups limit a → LargestFit groups limit b → a ≤ b := by
    intro a b ha hb
    rcases Nat.lt_or_ge 1 a with hone | hone
    · exact hb.largest a ha.le (ha.fits hone)
    · rcases Nat.eq_zero_or_pos a with rfl | hpos
      · exact Nat.zero_le b
      · have hne : groups ≠ [] := List.ne_nil_of_length_pos (Nat.lt_of_lt_of_le hpos ha.le)
        exact Nat.le_trans hone (hb.pos hne)
  exact Nat.le_antisymm (hle h h') (hle h' h)

/-- All groups are kept when everything fits. -/
theorem largestFit_all {groups : List (List Message)} {limit : Nat}
    (h : estimateMessagesTokens groups.flatten ≤ limit) :
    LargestFit groups limit groups.length := by
  refine ⟨Nat.le_refl _, List.length_pos_of_ne_nil, fun _ => ?_, fun _ hj _ => hj⟩
  rwa [lastGroups, Nat.sub_self]

theorem largestFit_one {groups : List (List Message)} (limit : Nat) (h : groups.length = 1) :
    LargestFit groups limit 1 :=
  ⟨Nat.le_of_eq h.symm, fun _ => Nat.one_pos, fun h => absurd h (Nat.lt_irrefl _),
    fun _ hj _ => h ▸ hj⟩

theorem lastGroups_length (groups : List (List Message)) :
    lastGroups groups groups.length = groups.flatten := by
  rw [lastGroups, Nat.sub_self, List.drop_zero]

theorem oldGroups_length (groups : List (List Message)) : oldGroups groups groups.length = [] := by
  rw [oldGroups, Nat.sub_self, List.take_zero, List.flatten_nil]

theorem flatten_turns (messages : List Message) : (turns messages).flatten = messages :=
  List.flatten_splitBy _ _

theorem autocompact_of_fits {messages : List Message} {budget : TokenBudget}
    (h : estimateMessagesTokens messages ≤ budget.thresholds.compactThreshold) :
    autocompact messages budget =
      (messages, { groupsKept := if messages.isEmpty then 0 else 1 }) := by
  rw [autocompact]
  split
  · rfl
  · rw [if_pos h]

/-- Where the last groups start, in the list of all groups with their places. -/
theorem start_lastGroups {groups : List (List Message)} {k : Nat} (hpos : 0 < k)
    (hle : k ≤ groups.length) :
    (located 0 groups)[groups.length - k]?.elim 0 Prod.fst = (oldGroups groups k).length := by
  have hget := getElem?_located 0 groups (groups.length - k)
  rw [if_pos (by omega), Nat.zero_add] at hget
  cases hentry : (located 0 groups)[groups.length - k]? with
  | none =>
    rw [hentry] at hget
    cases hget
  | some entry =>
    rw [hentry] at hget
    exact Option.some.inj hget

/-- Above the threshold, the messages that are left are the largest suffix of groups that fits, and
the report is about the groups before it. -/
theorem autocompact_of_exceeds {messages : List Message} {budget : TokenBudget}
    (h : budget.thresholds.compactThreshold < estimateMessagesTokens messages) :
    ∃ k, LargestFit (turns messages) budget.thresholds.compactThreshold k ∧
      autocompact messages budget =
        (lastGroups (turns messages) k, ⟨(turns messages).length - k, k,
          estimateMessagesTokens (oldGroups (turns messages) k)⟩) := by
  have hne : messages ≠ [] := by
    rintro rfl
    exact absurd h (Nat.not_lt_zero _)
  have hturns : turns messages ≠ [] := by rwa [turns, ne_eq, List.splitBy_eq_nil]
  have hweights := map_groupTokens [] (turns messages)
  rw [List.nil_append, flatten_turns, List.length_nil] at hweights
  rw [autocompact, if_neg (by simpa using hne), if_neg (Nat.not_le.mpr h), splitIntoGroups_eq]
  dsimp only
  rw [length_located, List.map_reverse, hweights]
  split
  · next hone =>
    have hlength : (turns messages).length = 1 :=
      Nat.le_antisymm hone (List.length_pos_of_ne_nil hturns)
    refine ⟨1, largestFit_one _ hlength, ?_⟩
    rw [← hlength, lastGroups_length, oldGroups_length, flatten_turns, Nat.sub_self]
    rfl
  · have hfit := largestFit_keepFrom (turns messages) budget.thresholds.compactThreshold
    generalize keepFrom _ 0 0 ((turns messages).map estimateMessagesTokens).reverse = k at hfit ⊢
    refine ⟨k, hfit, ?_⟩
    split
    · next hall =>
      have hk : k = (turns messages).length := Nat.le_antisymm hfit.le (Nat.le_of_sub_eq_zero hall)
      rw [hk, lastGroups_length, oldGroups_length, flatten_turns, Nat.sub_self]
      rfl
    · next hsome =>
      have hstart := start_lastGroups (hfit.pos hturns) hfit.le
      have hsplit := old_append_last (turns messages) k
      rw [flatten_turns] at hsplit
      have hdrop : messages.drop (oldGroups (turns messages) k).length =
          lastGroups (turns messages) k :=
        (congrArg (List.drop _) hsplit.symm).trans List.drop_left
      have htokens : estimateMessagesTokens messages =
          estimateMessagesTokens (oldGroups (turns messages) k) +
            estimateMessagesTokens (lastGroups (turns messages) k) :=
        (congrArg _ hsplit.symm).trans (estimateMessagesTokens_append ..)
      rw [hstart, hdrop, htokens, Nat.add_sub_cancel]

/-- What is asked: the largest suffix of groups that fits is left, and reported as it is. -/
def KeepsLargest (messages : List Message) (limit : Nat)
    (r : List Message × AutocompactReport) : Prop :=
  ∃ k, LargestFit (turns messages) limit k ∧
    r = (lastGroups (turns messages) k, ⟨(turns messages).length - k, k,
      estimateMessagesTokens (oldGroups (turns messages) k)⟩)

/-- The largest suffix is always left, and it is reported except when several groups fit. -/
theorem keepsLargest_iff (messages : List Message) (budget : TokenBudget) :
    KeepsLargest messages budget.thresholds.compactThreshold (autocompact messages budget) ↔
      budget.thresholds.compactThreshold < estimateMessagesTokens messages ∨
        (turns messages).length ≤ 1 := by
  rcases Nat.lt_or_ge budget.thresholds.compactThreshold (estimateMessagesTokens messages)
    with hover | hfits
  · exact iff_of_true (autocompact_of_exceeds hover) (.inl hover)
  rw [or_iff_right (Nat.not_lt.mpr hfits), autocompact_of_fits hfits]
  have hall : LargestFit (turns messages) budget.thresholds.compactThreshold
      (turns messages).length := largestFit_all (by rwa [flatten_turns])
  constructor
  · rintro ⟨k, hk, heq⟩
    have hkept := congrArg (fun r => r.2.groupsKept) heq
    rw [← hk.eq hall, ← show _ = k from hkept]
    split <;> simp
  · intro hone
    refine ⟨_, hall, ?_⟩
    rw [lastGroups_length, oldGroups_length, flatten_turns, Nat.sub_self]
    cases messages with
    | nil => rfl
    | cons msg rest =>
      have hne : turns (msg :: rest) ≠ [] := by rw [turns, ne_eq, List.splitBy_eq_nil]; nofun
      rw [Nat.le_antisymm hone (List.length_pos_of_ne_nil hne)]
      rfl

/-- Two short exchanges fit, and are reported as one group. -/
theorem two_groups_one_kept :
    ¬ KeepsLargest [.userText "one", .userText "two"] (TokenBudget.thresholds {}).compactThreshold
      (autocompact [.userText "one", .userText "two"] {}) := by
  rintro ⟨k, hfit, heq⟩
  have hlargest := hfit.largest 2 (by decide) (by decide +kernel)
  have hkept : 1 = k := congrArg (fun r => r.2.groupsKept) heq
  omega

end Autocompact

end Behest
