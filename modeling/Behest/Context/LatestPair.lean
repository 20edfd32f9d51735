import Behest.Context.Filter

/-!
# The latest compaction pair

What the backward search of the compaction filter finds, and what the filter makes of a history
with and without a pair.
-/

namespace Behest.Context

variable {records : List MessageRecord} {c s : Nat}

/-- A summary that only flagged records separate from `n`. -/
structure Reaches (records : List MessageRecord) (n s : Nat) : Prop where
  le : n ≤ s
  summary : ∃ r, records[s]? = some r ∧ r.isSummary = true
  between : ∀ i r, n ≤ i → i < s → records[i]? = some r → r.isOrdinary = false

/-- A marker and a summary after it, with none but flagged records between them. -/
structure IsPair (records : List MessageRecord) (c s : Nat) : Prop where
  marker : ∃ r, records[c]? = some r ∧ r.isCompaction = true
  reaches : Reaches records (c + 1) s

/-- The latest marker of a pair with the last of its summaries. -/
structure IsLatest (records : List MessageRecord) (c s : Nat) : Prop where
  isPair : IsPair records c s
  marker : ∀ c' s', IsPair records c' s' → c' ≤ c
  summary : ∀ s', IsPair records c s' → s' ≤ s

/-- From the marker of a pair to its summary no record is ordinary. -/
theorem IsPair.flagged (h : IsPair records c s) :
    c < s ∧ ∀ i r, c ≤ i → i ≤ s → records[i]? = some r → r.isOrdinary = false := by
  refine ⟨h.reaches.le, fun i r hlow hhigh hr => ?_⟩
  by_cases hfirst : i = c
  · subst hfirst
    obtain ⟨r', hr', hflag⟩ := h.marker
    obtain rfl := Option.some.inj (hr.symm.trans hr')
    simp [MessageRecord.isOrdinary, hflag]
  · by_cases hlast : i = s
    · subst hlast
      obtain ⟨r', hr', hflag⟩ := h.reaches.summary
      obtain rfl := Option.some.inj (hr.symm.trans hr')
      simp [MessageRecord.isOrdinary, hflag]
    · exact h.reaches.between i r (by omega) (by omega) hr

theorem IsPair.lt_length (h : IsPair records c s) : c < records.length ∧ s < records.length := by
  obtain ⟨r, hr, -⟩ := h.marker
  obtain ⟨r', hr', -⟩ := h.reaches.summary
  exact ⟨(List.getElem?_eq_some_iff.mp hr).1, (List.getElem?_eq_some_iff.mp hr').1⟩

/-! ### The backward search -/

/-- What the search knows when it has passed the records from `n` on: they hold no pair, and
`waiting` is the last summary in reach. -/
structure Passed (records : List MessageRecord) (n : Nat) (waiting : Option Nat) : Prop where
  noPair : ∀ c s, n ≤ c → ¬ IsPair records c s
  reached : ∀ s, waiting = some s → Reaches records n s
  last : ∀ s, Reaches records n s → ∃ s₀, waiting = some s₀ ∧ s ≤ s₀

theorem reaches_succ {n : Nat} {r : MessageRecord} (hr : records[n]? = some r) :
    Reaches records n s ↔
      (n = s ∧ r.isSummary = true) ∨ (r.isOrdinary = false ∧ Reaches records (n + 1) s) := by
  constructor
  · intro h
    by_cases hs : n = s
    · subst hs
      obtain ⟨r', hr', hflag⟩ := h.summary
      obtain rfl := Option.some.inj (hr.symm.trans hr')
      exact .inl ⟨rfl, hflag⟩
    · have hle := h.le
      exact .inr ⟨h.between n r (Nat.le_refl n) (by omega) hr, by omega, h.summary,
        fun i r hlow => h.between i r (by omega)⟩
  · rintro (⟨rfl, hflag⟩ | ⟨hflag, h⟩)
    · exact ⟨Nat.le_refl n, ⟨r, hr, hflag⟩, fun i r hlow hhigh => by omega⟩
    · have hle := h.le
      refine ⟨by omega, h.summary, fun i r' hlow hhigh hr' => ?_⟩
      by_cases hi : i = n
      · subst hi
        obtain rfl := Option.some.inj (hr.symm.trans hr')
        exact hflag
      · exact h.between i r' (by omega) hhigh hr'

/-- One more record on the way back that completes no pair. -/
theorem Passed.back {n : Nat} {waiting : Option Nat} {r : MessageRecord}
    (h : Passed records (n + 1) waiting) (hr : records[n]? = some r)
    (hmarker : r.isCompaction = true → waiting = none) :
    Passed records n (if r.isSummary then some (waiting.getD n) else none) := by
  constructor
  · intro c s hle hpair
    by_cases hc : n = c
    · -- a marker here has no summary in reach
      subst hc
      obtain ⟨r', hr', hflag⟩ := hpair.marker
      obtain rfl := Option.some.inj (hr.symm.trans hr')
      obtain ⟨s₀, hs₀, -⟩ := h.last s hpair.reaches
      rw [hmarker hflag] at hs₀
      cases hs₀
    · exact h.noPair c s (by omega) hpair
  · intro s hs
    obtain ⟨hflag, hs⟩ := Option.ite_none_right_eq_some.mp hs
    obtain rfl := Option.some.inj hs
    rw [reaches_succ hr]
    cases waiting with
    | none => exact .inl ⟨rfl, hflag⟩
    | some s₀ =>
      exact .inr ⟨by simp [MessageRecord.isOrdinary, hflag], h.reached s₀ rfl⟩
  · intro s hs
    rcases (reaches_succ hr).mp hs with ⟨rfl, hflag⟩ | ⟨hflag, hreach⟩
    · rw [if_pos hflag]
      cases waiting with
      | none => exact ⟨n, rfl, Nat.le_refl n⟩
      | some s₀ =>
        have hle := (h.reached s₀ rfl).le
        exact ⟨s₀, rfl, by omega⟩
    · obtain ⟨s₀, rfl, hle⟩ := h.last s hreach
      have hsummary : r.isSummary = true := by
        cases hm : r.isCompaction with
        | true => cases hmarker hm
        | false => simpa [MessageRecord.isOrdinary, hm] using hflag
      exact ⟨s₀, by simp [hsummary], hle⟩

/-- What a search has found in a history. -/
def Found (records : List MessageRecord) : Option (Nat × Nat) → Prop
  | none => ∀ c s, ¬ IsPair records c s
  | some (c, s) => IsLatest records c s

theorem found_latestPair_take (n : Nat) (hn : n ≤ records.length) {waiting : Option Nat}
    (h : Passed records n waiting) :
    Found records (latestPair waiting (records.take n).zipIdx.reverse) := by
  induction n generalizing waiting with
  | zero =>
    cases waiting <;> exact fun c s => h.noPair c s (Nat.zero_le c)
  | succ n ih =>
    have hlt : n < records.length := hn
    have htake : (records.take (n + 1)).zipIdx.reverse =
        (records[n], n) :: (records.take n).zipIdx.reverse := by
      rw [List.take_succ_eq_append_getElem hlt, List.zipIdx_append, List.reverse_append]
      simp [Nat.min_eq_left (Nat.le_of_lt hlt)]
    have hr := List.getElem?_eq_getElem hlt
    rw [htake]
    cases waiting with
    | none => exact ih (by omega) (h.back hr fun _ => rfl)
    | some s₀ =>
      rw [latestPair]
      by_cases hmarker : records[n].isCompaction = true
      · rw [if_pos hmarker]
        refine ⟨⟨⟨_, hr, hmarker⟩, h.reached s₀ rfl⟩, fun c s hpair => ?_, fun s hpair => ?_⟩
        · by_contra hlater
          exact h.noPair c s (by omega) hpair
        · obtain ⟨s₁, hs₁, hle⟩ := h.last s hpair.reaches
          obtain rfl := Option.some.inj hs₁
          exact hle
      · have hback := h.back hr fun hflag => absurd hflag hmarker
        rw [if_neg hmarker]
        by_cases hsummary : records[n].isSummary = true
        · rw [hsummary, Bool.not_true, if_neg Bool.false_ne_true]
          rw [if_pos hsummary] at hback
          exact ih (by omega) hback
        · rw [Bool.not_eq_true] at hsummary
          rw [hsummary, Bool.not_false, if_pos rfl]
          rw [hsummary, if_neg Bool.false_ne_true] at hback
          exact ih (by omega) hback

variable (records) in
/-- The search finds the latest pair, and none only where there is none. -/
theorem found_latestPair : Found records (latestPair none records.zipIdx.reverse) := by
  have hstart : Passed records records.length none := by
    refine ⟨fun c s hle hpair => ?_, by simp, fun s hreach => ?_⟩
    · have hlt := hpair.lt_length
      omega
    · obtain ⟨r, hr, -⟩ := hreach.summary
      have hlt := (List.getElem?_eq_some_iff.mp hr).1
      have hle := hreach.le
      omega
  have hfound := found_latestPair_take records.length (Nat.le_refl _) hstart
  rwa [List.take_length] at hfound

theorem isLatest_of_latestPair (h : latestPair none records.zipIdx.reverse = some (c, s)) :
    IsLatest records c s := by
  have hfound := found_latestPair records
  rwa [h] at hfound

/-- No two pairs are the latest. -/
theorem IsLatest.unique {c' s' : Nat} (h : IsLatest records c s) (h' : IsLatest records c' s') :
    c = c' ∧ s = s' := by
  have hc : c = c' := Nat.le_antisymm (h'.marker c s h.isPair) (h.marker c' s' h'.isPair)
  subst hc
  exact ⟨rfl, Nat.le_antisymm (h'.summary s h.isPair) (h.summary s' h'.isPair)⟩

/-! ### The filtered history -/

/-- The first ordinary record after `s`, or the end of the history. -/
structure IsNextOrdinary (records : List MessageRecord) (s e : Nat) : Prop where
  lt : s < e
  le : e ≤ records.length
  between : ∀ i r, s < i → i < e → records[i]? = some r → r.isOrdinary = false
  ordinary : ∀ r, records[e]? = some r → r.isOrdinary = true

theorem isNextOrdinary_compactEnd (hs : s < records.length) :
    IsNextOrdinary records s (compactEnd records s) := by
  unfold compactEnd
  cases hfound : (records.drop (s + 1)).findIdx? MessageRecord.isOrdinary with
  | none =>
    rw [List.findIdx?_eq_none_iff] at hfound
    refine ⟨hs, Nat.le_refl _, fun i r hlow _ hr => ?_, fun r hr => by simp at hr⟩
    apply hfound
    rw [List.mem_iff_getElem?]
    exact ⟨i - (s + 1), by rw [List.getElem?_drop, Nat.add_sub_cancel' hlow]; exact hr⟩
  | some p =>
    obtain ⟨hp, hordinary, hbefore⟩ := List.findIdx?_eq_some_iff_getElem.mp hfound
    rw [List.length_drop] at hp
    rw [List.getElem_drop] at hordinary
    refine ⟨by simp only; omega, by simp only; omega, fun i r hlow hhigh hr => ?_,
      fun r hr => ?_⟩
    · simp only at hhigh
      have hrec := hbefore (i - (s + 1)) (by omega)
      rw [List.getElem_drop] at hrec
      obtain ⟨hi, rfl⟩ := List.getElem?_eq_some_iff.mp hr
      simpa [Nat.add_sub_cancel' hlow] using hrec
    · obtain ⟨hi, rfl⟩ := List.getElem?_eq_some_iff.mp hr
      exact hordinary

/-- What is kept of a history with the pair `(c, s)` that names the boundary `tailStart`: the
ordinary records from the boundary to the marker, and everything from the first ordinary record
after the summary on. -/
structure Kept (records : List MessageRecord) (c s : Nat) (tailStart : Uuid)
    (tail rest : List MessageRecord) : Prop where
  atBoundary : ∀ t r, records[t]? = some r → r.id = tailStart →
    tail = ((records.take c).drop t).filter MessageRecord.isOrdinary
  noBoundary : (∀ r ∈ records, r.id ≠ tailStart) → tail = []
  afterPair : ∃ e, IsNextOrdinary records s e ∧ rest = records.drop e
  sublist : (tail ++ rest).Sublist records
  complete : ((records.drop (s + 1)).filter MessageRecord.isOrdinary).Sublist (tail ++ rest)

theorem kept_retainedTail (hdistinct : (records.map MessageRecord.id).Nodup)
    (hpair : IsPair records c s) (tailStart : Uuid) :
    Kept records c s tailStart (retainedTail records tailStart c)
      (records.drop (compactEnd records s)) := by
  have hnext := isNextOrdinary_compactEnd hpair.lt_length.2
  have hcs := hpair.flagged.1
  have hlt := hnext.lt
  refine ⟨fun t r hr hid => ?_, fun hnone => ?_, ⟨_, hnext, rfl⟩, ?_, ?_⟩
  · -- the identifier names one record only
    have hfirst : records.findIdx? (fun r => r.id == tailStart) = some t := by
      obtain ⟨ht, hat⟩ := List.getElem?_eq_some_iff.mp hr
      rw [List.findIdx?_eq_some_iff_getElem]
      refine ⟨ht, by simpa [hat] using hid, fun j hj => ?_⟩
      intro hsame
      have heq : (records.map MessageRecord.id)[j]? = (records.map MessageRecord.id)[t]? := by
        rw [List.getElem?_map, List.getElem?_map, hr, List.getElem?_eq_getElem (by omega),
          Option.map_some, Option.map_some, hid]
        simpa using hsame
      have hindex := (List.getElem?_inj (by rw [List.length_map]; omega) hdistinct).mp heq
      omega
    rw [retainedTail, hfirst, List.drop_take]
  · have habsent : records.findIdx? (fun r => r.id == tailStart) = none := by
      rw [List.findIdx?_eq_none_iff]
      intro r hr
      simpa using hnone r hr
    rw [retainedTail, habsent]
  · have hfront :
        (retainedTail records tailStart c).Sublist (records.take (compactEnd records s)) := by
      unfold retainedTail
      split
      · next t ht =>
        rw [← List.drop_take]
        exact List.filter_sublist.trans ((List.drop_sublist _ _).trans
          (List.take_sublist_take_left (by omega)))
      · exact List.nil_sublist _
    have hwhole := hfront.append (List.Sublist.refl (records.drop (compactEnd records s)))
    rwa [List.take_append_drop] at hwhole
  · have hskip : (records.drop (s + 1)).filter MessageRecord.isOrdinary =
        (records.drop (compactEnd records s)).filter MessageRecord.isOrdinary := by
      have hsplit := List.take_append_drop (compactEnd records s - (s + 1)) (records.drop (s + 1))
      rw [List.drop_drop, Nat.add_sub_cancel' hlt] at hsplit
      rw [← hsplit, List.filter_append]
      have hnone : ((records.drop (s + 1)).take (compactEnd records s - (s + 1))).filter
          MessageRecord.isOrdinary = [] := by
        rw [List.filter_eq_nil_iff]
        intro r hr
        obtain ⟨i, hi⟩ := List.mem_iff_getElem?.mp hr
        rw [List.getElem?_take] at hi
        split at hi
        · rw [List.getElem?_drop] at hi
          rw [hnext.between (s + 1 + i) r (by omega) (by omega) hi]
          exact Bool.false_ne_true
        · cases hi
      rw [hnone, List.nil_append]
    rw [hskip]
    exact List.filter_sublist.trans (List.sublist_append_right _ _)

/-- One checkpoint for a text, if there is one. -/
theorem checkpointOf_eq (id : Uuid) (marker summary : MessageRecord) :
    checkpointOf id marker summary =
      (summary.compactionMeta.bind CompactionMeta.summaryText).toList.map
        (checkpoint id marker summary) := by
  unfold checkpointOf
  cases summary.compactionMeta.bind CompactionMeta.summaryText <;> rfl

/-- The latest pair of a history, with the boundary its marker names. -/
structure Names (records : List MessageRecord) (c s : Nat) (marker summary : MessageRecord)
    (tailStart : Uuid) : Prop where
  latest : IsLatest records c s
  atMarker : records[c]? = some marker
  atSummary : records[s]? = some summary
  boundary : marker.compactionMeta.bind CompactionMeta.tailStartId = some tailStart

/-- **The filter leaves a history without a latest pair that names a boundary as it is; of any
other history it keeps the ordinary records from the boundary to the marker and everything
after the pair, behind a checkpoint with the text of the summary**. -/
theorem applyCompactionFilter_spec (id : Uuid) (records : List MessageRecord)
    (hdistinct : (records.map MessageRecord.id).Nodup) :
    (applyCompactionFilter id records = records ∧
      ∀ c s marker summary tailStart, ¬ Names records c s marker summary tailStart) ∨
    ∃ c s marker summary tailStart tail rest, Names records c s marker summary tailStart ∧
      applyCompactionFilter id records =
        (summary.compactionMeta.bind CompactionMeta.summaryText).toList.map
            (checkpoint id marker summary) ++ (tail ++ rest) ∧
      Kept records c s tailStart tail rest := by
  unfold applyCompactionFilter
  have hfound := found_latestPair records
  cases hpair : latestPair none records.zipIdx.reverse with
  | none =>
    rw [hpair] at hfound
    exact .inl ⟨rfl, fun c s marker summary tailStart h => hfound c s h.latest.isPair⟩
  | some pair =>
    obtain ⟨c, s⟩ := pair
    have hlatest := isLatest_of_latestPair hpair
    obtain ⟨hc, hs⟩ := hlatest.isPair.lt_length
    simp only [filterAt, List.getElem?_eq_getElem hc, List.getElem?_eq_getElem hs]
    cases hboundary : records[c].compactionMeta.bind CompactionMeta.tailStartId with
    | none =>
      refine .inl ⟨rfl, fun c' s' marker summary tailStart h => ?_⟩
      obtain ⟨rfl, rfl⟩ := hlatest.unique h.latest
      obtain rfl := Option.some.inj ((List.getElem?_eq_getElem hc).symm.trans h.atMarker)
      have hnamed := h.boundary
      rw [hboundary] at hnamed
      cases hnamed
    | some tailStart =>
      refine .inr ⟨c, s, records[c], records[s], tailStart, _, _,
        ⟨hlatest, List.getElem?_eq_getElem hc, List.getElem?_eq_getElem hs, hboundary⟩, ?_,
        kept_retainedTail hdistinct hlatest.isPair tailStart⟩
      dsimp only
      rw [List.append_assoc, checkpointOf_eq]

/-- Two questions, a compaction that names the second one, and a third question. -/
def thirdQuestion : List MessageRecord :=
  [messageToRecord 1 0 7 (.userText "one"), messageToRecord 2 1 7 (.userText "two"),
    { messageToRecord 3 2 7 (.userText "[compaction]") with
      isCompaction := true, compactionMeta := some (.new 2) },
    { messageToRecord 4 3 7 (.assistantText "said") with
      isSummary := true, compactionMeta := some ((CompactionMeta.new 2).withSummary "said") },
    messageToRecord 5 4 7 (.userText "three")]

theorem thirdQuestion_kept :
    ∃ c s marker summary tailStart tail rest,
      Names thirdQuestion c s marker summary tailStart ∧
      applyCompactionFilter 9 thirdQuestion =
        (summary.compactionMeta.bind CompactionMeta.summaryText).toList.map
          (checkpoint 9 marker summary) ++ (tail ++ rest) ∧
      Kept thirdQuestion c s tailStart tail rest := by
  rcases applyCompactionFilter_spec 9 thirdQuestion (by decide) with ⟨hsame, -⟩ | hkept
  · have hlength : (applyCompactionFilter 9 thirdQuestion).length = 3 := by decide
    rw [hsame] at hlength
    cases hlength
  · exact hkept

end Behest.Context
