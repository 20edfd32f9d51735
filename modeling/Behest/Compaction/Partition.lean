import Behest.Compaction.Walk

/-!
# When the selection partitions the history

Head and tail of a selection put together give the history back in a few shapes only: at
most one turn is preserved, the preserved turns fit the budget together, or exactly two
turns are preserved and the younger one is a single record that is over budget by itself.
-/

namespace Behest.Compaction

variable (messages : List MessageRecord)

/-! ### Records at indices -/

@[simp] theorem recordsAt_append (is js : List Nat) :
    recordsAt messages (is ++ js) = recordsAt messages is ++ recordsAt messages js := by
  simp [recordsAt]

theorem recordsAt_range : recordsAt messages (List.range messages.length) = messages := by
  induction messages using List.reverseRecOn with
  | nil => rfl
  | append_singleton rest msg ih =>
    have hrest : recordsAt (rest ++ [msg]) (List.range rest.length) = rest := by
      refine Eq.trans ?_ ih
      refine List.filterMap_congr fun i hi => ?_
      rw [List.getElem?_append_left (List.mem_range.mp hi)]
    rw [List.length_append, List.length_singleton, List.range_succ, recordsAt_append, hrest]
    simp [recordsAt]

/-- Indices within the history. -/
def InRange (is : List Nat) : Prop := ∀ i ∈ is, i < messages.length

variable {messages}

theorem recordsAt_cons {i : Nat} {is : List Nat} {msg : MessageRecord}
    (h : messages[i]? = some msg) :
    recordsAt messages (i :: is) = msg :: recordsAt messages is := by
  simp [recordsAt, h]

theorem InRange.exists_record {is : List Nat} (h : InRange messages is) {i : Nat} (hi : i ∈ is) :
    ∃ msg, messages[i]? = some msg :=
  ⟨messages.get ⟨i, h i hi⟩, List.getElem?_eq_getElem (h i hi)⟩

theorem length_recordsAt {is : List Nat} (h : InRange messages is) :
    (recordsAt messages is).length = is.length := by
  induction is with
  | nil => rfl
  | cons i rest ih =>
    obtain ⟨msg, hmsg⟩ := h.exists_record (i := i) (by simp)
    rw [recordsAt_cons hmsg, List.length_cons, List.length_cons,
      ih fun j hj => h j (by simp [hj])]

/-- With distinct identifiers, a record is at one index only. -/
theorem index_unique (hids : (messages.map MessageRecord.id).Nodup) {i j : Nat}
    {a b : MessageRecord} (hi : messages[i]? = some a) (hj : messages[j]? = some b)
    (h : a.id = b.id) : i = j := by
  have hlt : i < (messages.map MessageRecord.id).length := by
    simpa using (List.getElem?_eq_some_iff.mp hi).1
  refine (List.getElem?_inj hlt hids).mp ?_
  simp [hi, hj, h]

/-- With distinct identifiers, records determine their indices. -/
theorem recordsAt_inj (hids : (messages.map MessageRecord.id).Nodup) {is js : List Nat}
    (his : InRange messages is) (hjs : InRange messages js)
    (h : recordsAt messages is = recordsAt messages js) : is = js := by
  induction is generalizing js with
  | nil =>
    have hlen := congrArg List.length h
    rw [length_recordsAt hjs] at hlen
    exact (List.length_eq_zero_iff.mp hlen.symm).symm
  | cons i rest ih =>
    cases js with
    | nil =>
      have hlen := congrArg List.length h
      rw [length_recordsAt his] at hlen
      simp [recordsAt] at hlen
    | cons j rest' =>
      obtain ⟨a, ha⟩ := his.exists_record (i := i) (by simp)
      obtain ⟨b, hb⟩ := hjs.exists_record (i := j) (by simp)
      rw [recordsAt_cons ha, recordsAt_cons hb] at h
      injection h with hab hrest
      rw [index_unique hids ha hb (by rw [hab]),
        ih (fun k hk => his k (by simp [hk])) (fun k hk => hjs k (by simp [hk])) hrest]

theorem weight_tokensAt (is : List Nat) :
    weight (tokensAt messages) is = estimateRecordsTokens (recordsAt messages is) := by
  induction is with
  | nil => rfl
  | cons i rest ih =>
    rw [weight_cons, ih]
    cases h : messages[i]? with
    | none => simp [tokensAt, recordsAt, h]
    | some msg => simp [tokensAt, recordsAt, h]

/-! ### Head and preserved turns -/

variable (messages) (tailTurns keepTokens : Nat)

theorem preservedTurns_le : preservedTurns messages tailTurns ≤ (turns messages).length := by
  unfold preservedTurns
  split <;> omega

@[simp] theorem length_tailTurnsSlice :
    (tailTurnsSlice messages tailTurns).length = preservedTurns messages tailTurns := by
  have := preservedTurns_le messages tailTurns
  simp only [tailTurnsSlice, List.length_drop]
  omega

/-- Head turns and preserved turns enumerate the history. -/
theorem headTurns_append_tailTurnsSlice :
    (headTurns messages tailTurns).flatten ++ (tailTurnsSlice messages tailTurns).flatten =
      List.range messages.length := by
  rw [headTurns, tailTurnsSlice, ← List.flatten_append, List.take_append_drop, turns_flatten]

variable {messages tailTurns} in
theorem ne_nil_of_mem_tailTurnsSlice {turn : List Nat}
    (h : turn ∈ tailTurnsSlice messages tailTurns) : turn ≠ [] :=
  ne_nil_of_mem_turns (List.mem_of_mem_drop h)

variable {messages tailTurns} in
theorem nodup_of_mem_tailTurnsSlice {turn : List Nat}
    (h : turn ∈ tailTurnsSlice messages tailTurns) : turn.Nodup := by
  have hsub : List.Sublist turn (List.range messages.length) := by
    rw [← turns_flatten]
    exact List.sublist_flatten_of_mem (List.mem_of_mem_drop h)
  exact hsub.nodup List.nodup_range

/-- How the walk over the preserved turns of a history ends. -/
def outcome : Walk :=
  walkTurns (tokensAt messages) keepTokens (tailTurnsSlice messages tailTurns).reverse 0 []

/-- The indices of the head, given those before the preserved turns. -/
def Walk.headIndices (before : List Nat) : Walk → List Nat
  | .overflowed overflow _ => sortIndices (before ++ overflow)
  | .fitted _ => before

/-- The indices of the tail. -/
def Walk.tailIndices : Walk → List Nat
  | .overflowed _ tail => tail
  | .fitted tail => tail

/-- The selection reads its two halves off the walk. -/
theorem select_eq :
    select messages tailTurns keepTokens =
      let walk := outcome messages tailTurns keepTokens
      let tail := recordsAt messages walk.tailIndices
      ⟨recordsAt messages (walk.headIndices (headTurns messages tailTurns).flatten), tail,
        tail.head?.map MessageRecord.id⟩ := by
  by_cases hnil : messages = []
  · subst hnil
    simp [select, recordsAt]
  · have hturns : turns messages ≠ [] := fun h => hnil ((turns_eq_nil_iff messages).mp h)
    have hcond : messages.isEmpty = false ∧ (turns messages).isEmpty = false := by
      simp [hnil, hturns]
    simp only [select, hcond.1, hcond.2, Bool.false_eq_true, if_false]
    cases houtcome : outcome messages tailTurns keepTokens
    all_goals
      rw [outcome] at houtcome
      rw [houtcome]
      rfl

theorem length_headIndices_add (before : List Nat) (walk : Walk) :
    (walk.headIndices before).length + walk.tailIndices.length =
      before.length + walk.accounted.length := by
  cases walk with
  | overflowed overflow tail =>
    simp [Walk.headIndices, Walk.tailIndices, Walk.accounted, sortIndices, Nat.add_assoc]
  | fitted tail => rfl

theorem sortIndices_eq_self {is : List Nat} {n : Nat} (h : List.Sublist is (List.range n)) :
    sortIndices is = is :=
  List.Pairwise.insertionSort_eq (List.pairwise_le_range.sublist h)

theorem tailTurnsSlice_flatten_sublist :
    List.Sublist (tailTurnsSlice messages tailTurns).flatten (List.range messages.length) := by
  rw [← headTurns_append_tailTurnsSlice messages tailTurns]
  exact List.sublist_append_right _ _

/-- With at most one preserved turn the walk keeps it whole. -/
theorem outcome_of_le_one (h : preservedTurns messages tailTurns ≤ 1) :
    outcome messages tailTurns keepTokens =
      .fitted (tailTurnsSlice messages tailTurns).flatten := by
  have hlen := length_tailTurnsSlice messages tailTurns
  have hsub := tailTurnsSlice_flatten_sublist messages tailTurns
  unfold outcome
  match hslice : tailTurnsSlice messages tailTurns with
  | [] => simp [walkTurns, sortIndices]
  | [turn] =>
    rw [hslice, List.flatten_singleton] at hsub
    rw [List.reverse_singleton, walkTurns_youngest, List.flatten_singleton, walkTurns,
      sortIndices_eq_self hsub]
  | _ :: _ :: _ =>
    rw [hslice] at hlen
    simp only [List.length_cons] at hlen
    omega

/-- With two or more preserved turns, the two youngest can be named. -/
theorem tailTurnsSlice_eq (h : 2 ≤ preservedTurns messages tailTurns) :
    ∃ more older youngest, tailTurnsSlice messages tailTurns = more ++ [older, youngest] := by
  have hlen := length_tailTurnsSlice messages tailTurns
  match hrev : (tailTurnsSlice messages tailTurns).reverse with
  | [] | [_] =>
    have := congrArg List.length hrev
    simp only [List.length_reverse, List.length_nil, List.length_cons] at this
    omega
  | youngest :: older :: more =>
    refine ⟨more.reverse, older, youngest, ?_⟩
    rw [← List.reverse_reverse (tailTurnsSlice messages tailTurns), hrev]
    simp

variable {messages tailTurns} in
/-- The walk over two or more preserved turns, after the youngest one. -/
theorem outcome_of_eq {more : List (List Nat)} {older youngest : List Nat}
    (h : tailTurnsSlice messages tailTurns = more ++ [older, youngest]) :
    outcome messages tailTurns keepTokens =
      walkTurns (tokensAt messages) keepTokens (older :: more.reverse)
        (weight (tokensAt messages) youngest) youngest := by
  unfold outcome
  rw [h, List.reverse_append]
  exact walkTurns_youngest _ _ _ _

/-! ### The partition -/

/-- Head and tail give the history back in order, and the boundary is the tail's first. -/
structure Partitions (messages : List MessageRecord) (s : SelectionResult) : Prop where
  split : s.head ++ s.tail = messages
  suffix : s.tail <:+ messages
  boundary : ∀ id, s.tailStartId = some id → s.tail.head?.map MessageRecord.id = some id

/-- The shapes of a history for which nothing is lost or reordered. -/
def Separable (messages : List MessageRecord) (tailTurns keepTokens : Nat) : Prop :=
  preservedTurns messages tailTurns ≤ 1 ∨
  estimateRecordsTokens (recordsAt messages (tailTurnsSlice messages tailTurns).flatten)
    ≤ keepTokens ∨
  preservedTurns messages tailTurns = 2 ∧
    ∃ i, (tailTurnsSlice messages tailTurns).getLast? = some [i] ∧
      keepTokens < tokensAt messages i

theorem partitions_of_indices
    (h : let walk := outcome messages tailTurns keepTokens
      walk.headIndices (headTurns messages tailTurns).flatten ++ walk.tailIndices =
        List.range messages.length) :
    Partitions messages (select messages tailTurns keepTokens) := by
  have hsplit := congrArg (recordsAt messages) h
  rw [recordsAt_append, recordsAt_range] at hsplit
  rw [select_eq]
  exact ⟨hsplit, ⟨_, hsplit⟩, fun _ hid => hid⟩

theorem partitions_of_fitted
    (h : outcome messages tailTurns keepTokens =
      .fitted (tailTurnsSlice messages tailTurns).flatten) :
    Partitions messages (select messages tailTurns keepTokens) := by
  refine partitions_of_indices messages tailTurns keepTokens ?_
  rw [h]
  exact headTurns_append_tailTurnsSlice messages tailTurns

/-- A partition accounts for every index. -/
theorem length_accounted_of_partitions
    (h : Partitions messages (select messages tailTurns keepTokens)) :
    (tailTurnsSlice messages tailTurns).flatten.length ≤
      (outcome messages tailTurns keepTokens).accounted.length := by
  have hsplit := h.split
  rw [select_eq] at hsplit
  have hlen := congrArg List.length hsplit
  rw [List.length_append] at hlen
  have hhead := List.length_filterMap_le (messages[·]?)
    ((outcome messages tailTurns keepTokens).headIndices (headTurns messages tailTurns).flatten)
  have htail := List.length_filterMap_le (messages[·]?)
    (outcome messages tailTurns keepTokens).tailIndices
  have hadd := length_headIndices_add (headTurns messages tailTurns).flatten
    (outcome messages tailTurns keepTokens)
  have hall := congrArg List.length (headTurns_append_tailTurnsSlice messages tailTurns)
  rw [List.length_append, List.length_range] at hall
  simp only [recordsAt] at hlen
  omega

variable {messages tailTurns keepTokens}

private theorem weight_flatten_reverse (tokens : Nat → Nat) (blocks : List (List Nat)) :
    weight tokens blocks.reverse.flatten = weight tokens blocks.flatten := by
  induction blocks with
  | nil => rfl
  | cons block rest ih =>
    simp only [List.reverse_cons, List.flatten_append, List.flatten_cons, List.flatten_nil,
      List.append_nil, weight_append, ih]
    omega

/-- A list without duplicates that reads the same both ways has at most one element. -/
private theorem eq_singleton_of_reverse {i : Nat} {is : List Nat} (hnd : (i :: is).Nodup)
    (h : (i :: is).reverse = i :: is) : is = [] := by
  by_contra hne
  have hlast : (i :: is).getLast? = some i := by
    rw [← List.head?_reverse, h, List.head?_cons]
  rw [List.getLast?_cons_of_ne_nil hne] at hlast
  exact (List.nodup_cons.mp hnd).1 (List.mem_of_getLast? hlast)

section TwoOrMore

variable {more : List (List Nat)} {older youngest : List Nat}
  (hslice : tailTurnsSlice messages tailTurns = more ++ [older, youngest])
include hslice

private theorem mem_slice {turn : List Nat} (h : turn ∈ older :: more.reverse) :
    turn ∈ tailTurnsSlice messages tailTurns := by
  rw [hslice]
  rcases List.mem_cons.mp h with rfl | h
  · simp
  · simp [List.mem_reverse.mp h]

private theorem youngest_ne_nil : youngest ≠ [] :=
  ne_nil_of_mem_tailTurnsSlice (by rw [hslice]; simp)

private theorem nodup_of_mem_older {turn : List Nat} (h : turn ∈ older :: more.reverse) :
    turn.Nodup :=
  nodup_of_mem_tailTurnsSlice (mem_slice hslice h)

private theorem weight_slice (tokens : Nat → Nat) :
    weight tokens (tailTurnsSlice messages tailTurns).flatten =
      weight tokens youngest + weight tokens (older :: more.reverse).flatten := by
  have hmore := weight_flatten_reverse tokens more
  rw [hslice]
  simp only [List.flatten_append, List.flatten_cons, List.flatten_nil, List.append_nil,
    weight_append, hmore]
  omega

/-- Preserved turns that fit together are all kept. -/
private theorem partitions_of_fit
    (hfit : weight (tokensAt messages) (tailTurnsSlice messages tailTurns).flatten ≤ keepTokens) :
    Partitions messages (select messages tailTurns keepTokens) := by
  have hsub := tailTurnsSlice_flatten_sublist messages tailTurns
  rw [weight_slice hslice] at hfit
  refine partitions_of_fitted messages tailTurns keepTokens ?_
  rw [outcome_of_eq keepTokens hslice, walkTurns_of_fits _ _
    (fun turn h => nodup_of_mem_older hslice h) (youngest_ne_nil hslice) hfit]
  have hflat : (older :: more.reverse).reverse.flatten ++ youngest =
      (tailTurnsSlice messages tailTurns).flatten := by
    rw [hslice]
    simp
  rw [hflat, sortIndices_eq_self hsub]

/-- Preserved turns that do not fit, after a youngest turn that does, lose records. -/
private theorem not_partitions_of_loss
    (hyoung : weight (tokensAt messages) youngest ≤ keepTokens)
    (hover : keepTokens < weight (tokensAt messages) (tailTurnsSlice messages tailTurns).flatten) :
    ¬ Partitions messages (select messages tailTurns keepTokens) := by
  intro h
  have hall := length_accounted_of_partitions messages tailTurns keepTokens h
  rw [weight_slice hslice] at hover
  have hlost := length_accounted_lt (tokensAt messages) keepTokens youngest
    (fun turn h => nodup_of_mem_older hslice h) (youngest_ne_nil hslice) hyoung hover
  rw [outcome_of_eq keepTokens hslice, hslice] at hall
  have hlen := congrArg List.length (List.flatten_cons (L := more.reverse) (l := older))
  simp only [List.flatten_append, List.flatten_cons, List.flatten_nil, List.append_nil,
    List.length_append, List.length_flatten, List.map_reverse, List.sum_reverse] at hall hlost hlen
  omega

/-- Over a youngest turn that does not fit, only two preserved turns whose younger one is
a single record keep their order. -/
private theorem partitions_iff_of_over (hids : (messages.map MessageRecord.id).Nodup)
    (hover : keepTokens < weight (tokensAt messages) youngest) :
    Partitions messages (select messages tailTurns keepTokens) ↔
      more = [] ∧ ∃ i, youngest = [i] := by
  have hflat := headTurns_append_tailTurnsSlice messages tailTurns
  have houtcome : outcome messages tailTurns keepTokens =
      .overflowed older youngest.reverse := by
    rw [outcome_of_eq keepTokens hslice]
    exact walkTurns_over _ _ (nodup_of_mem_older hslice (by simp)) (youngest_ne_nil hslice) _ hover
  rw [hslice] at hflat
  simp only [List.flatten_append, List.flatten_cons, List.flatten_nil, List.append_nil] at hflat
  generalize hbefore : (headTurns messages tailTurns).flatten = before at hflat
  constructor
  · intro h
    have hall := length_accounted_of_partitions messages tailTurns keepTokens h
    rw [houtcome, hslice] at hall
    have hmore : more = [] := by
      simp only [Walk.accounted, List.length_append, List.length_reverse, List.flatten_append,
        List.flatten_cons, List.flatten_nil, List.append_nil] at hall
      have hnil : more.flatten = [] := List.length_eq_zero_iff.mp (by omega)
      refine List.eq_nil_iff_forall_not_mem.mpr fun turn hturn => ?_
      have hmem : turn ∈ tailTurnsSlice messages tailTurns := by rw [hslice]; simp [hturn]
      exact ne_nil_of_mem_tailTurnsSlice hmem (List.flatten_eq_nil_iff.mp hnil turn hturn)
    refine ⟨hmore, ?_⟩
    rw [hmore, List.flatten_nil, List.nil_append] at hflat
    have hsub : List.Sublist (before ++ older) (List.range messages.length) := by
      rw [← hflat, ← List.append_assoc]
      exact List.sublist_append_left _ _
    have hsplit := h.split
    rw [select_eq, houtcome] at hsplit
    simp only [Walk.headIndices, Walk.tailIndices, hbefore, sortIndices_eq_self hsub] at hsplit
    rw [← recordsAt_append] at hsplit
    have hrange : before ++ older ++ youngest.reverse = before ++ older ++ youngest := by
      refine (recordsAt_inj hids ?_ ?_ ?_).trans ((List.append_assoc _ _ _).trans hflat).symm
      · intro i hi
        refine List.mem_range.mp (hflat ▸ ?_)
        simpa [or_assoc] using hi
      · exact fun i hi => List.mem_range.mp hi
      · rw [hsplit, recordsAt_range]
    have hrev := List.append_cancel_left hrange
    obtain ⟨i, rest, rfl⟩ := List.exists_cons_of_ne_nil (youngest_ne_nil hslice)
    have hnd : (i :: rest).Nodup := nodup_of_mem_tailTurnsSlice (by rw [hslice]; simp)
    rw [eq_singleton_of_reverse hnd hrev]
    exact ⟨i, rfl⟩
  · rintro ⟨rfl, i, rfl⟩
    refine partitions_of_indices messages tailTurns keepTokens ?_
    rw [List.flatten_nil, List.nil_append] at hflat
    have hsub : List.Sublist (before ++ older) (List.range messages.length) := by
      rw [← hflat, ← List.append_assoc]
      exact List.sublist_append_left _ _
    simp only [houtcome, Walk.headIndices, Walk.tailIndices, hbefore, sortIndices_eq_self hsub,
      List.reverse_singleton, List.append_assoc]
    exact hflat

end TwoOrMore

/-- **The selection partitions a history exactly when the history is separable.** -/
theorem select_partitions_iff (messages : List MessageRecord) (tailTurns keepTokens : Nat)
    (hids : (messages.map MessageRecord.id).Nodup) :
    Partitions messages (select messages tailTurns keepTokens) ↔
      Separable messages tailTurns keepTokens := by
  rcases Nat.lt_or_ge (preservedTurns messages tailTurns) 2 with hone | htwo
  · have hle : preservedTurns messages tailTurns ≤ 1 := by omega
    exact iff_of_true
      (partitions_of_fitted _ _ _ (outcome_of_le_one messages tailTurns keepTokens hle))
      (Or.inl hle)
  obtain ⟨more, older, youngest, hslice⟩ := tailTurnsSlice_eq messages tailTurns htwo
  have hweight : weight (tokensAt messages) (tailTurnsSlice messages tailTurns).flatten =
      estimateRecordsTokens (recordsAt messages (tailTurnsSlice messages tailTurns).flatten) :=
    weight_tokensAt _
  have hcount := length_tailTurnsSlice messages tailTurns
  rw [hslice, List.length_append] at hcount
  simp only [List.length_cons, List.length_nil] at hcount
  have hlast : (tailTurnsSlice messages tailTurns).getLast? = some youngest := by
    rw [hslice]
    simp
  unfold Separable
  rw [hlast, ← hweight]
  rcases Nat.lt_or_ge keepTokens (weight (tokensAt messages) youngest) with hover | hyoung
  · -- the youngest turn is over budget by itself
    rw [partitions_iff_of_over hslice hids hover]
    have hall := weight_slice hslice (tokensAt messages)
    constructor
    · rintro ⟨rfl, i, rfl⟩
      exact .inr (.inr ⟨by simpa using hcount.symm, i, rfl, by simpa using hover⟩)
    · rintro (h | h | ⟨h, i, hi, -⟩)
      · omega
      · omega
      · exact ⟨List.length_eq_zero_iff.mp (by omega), i, by simpa using hi⟩
  · rcases Nat.lt_or_ge keepTokens
      (weight (tokensAt messages) (tailTurnsSlice messages tailTurns).flatten) with hover | hfit
    · refine iff_of_false (not_partitions_of_loss hslice hyoung hover) ?_
      rintro (h | h | ⟨-, i, hi, hlt⟩)
      · omega
      · omega
      · obtain rfl : youngest = [i] := by simpa using hi
        rw [weight_cons, weight_nil] at hyoung
        omega
    · exact iff_of_true (partitions_of_fit hslice hfit) (.inr (.inl hfit))

/-- Two short exchanges of a user and an assistant; every record is estimated at 9 tokens. -/
def twoExchanges : List MessageRecord :=
  [.new 1 0 7 .user [.ofText "ping"], .new 2 1 7 .assistant [.ofText "pong"],
    .new 3 2 7 .user [.ofText "ping"], .new 4 3 7 .assistant [.ofText "pong"]]

/-- A budget for one exchange loses the other: it is neither in the head nor in the tail. -/
theorem select_drops_older_turn :
    (twoExchanges.map MessageRecord.id).Nodup ∧
      ¬ Partitions twoExchanges (select twoExchanges 2 20) :=
  ⟨by decide, fun h => absurd (congrArg List.length h.split) (by decide)⟩

/-- A budget for both exchanges keeps both. -/
theorem select_keeps_both_turns : Partitions twoExchanges (select twoExchanges 2 36) :=
  (select_partitions_iff twoExchanges 2 36 (by decide)).mpr (.inr (.inl (by decide)))

end Behest.Compaction
