import Behest.Store.Record

/-!
# Compaction filter and token trimming

The two history filters of `behest-runtime/src/context.rs`. The compaction filter looks
backwards for the latest marker followed by its summary, puts a checkpoint in place of what
the pair summarises, keeps the ordinary records from the boundary to the marker, and keeps
everything after the pair.
-/

namespace Behest.Context

/-- Backward search for the latest pair, over `(record, index)` last to first; `summaryIdx`
is a summary still waiting for its marker. Source: `context.rs:376–392`. -/
def latestPair (summaryIdx : Option Nat) : List (MessageRecord × Nat) → Option (Nat × Nat)
  | [] => none
  | (rec, i) :: rest =>
      match summaryIdx with
      | none => latestPair (if rec.isSummary then some i else none) rest
      | some s =>
          if rec.isCompaction then some (i, s)
          else if !rec.isSummary then latestPair none rest
          else latestPair (some s) rest

/-- The synthetic system message that stands for the compacted head.
Source: `context.rs:434–452`. -/
def checkpoint (id : Uuid) (marker summary : MessageRecord) (summaryText : String) :
    MessageRecord :=
  .new id summary.createdAt marker.sessionId .system
    [.ofText ("<conversation-checkpoint>\n<summary>\n" ++ summaryText
      ++ "\n</summary>\n</conversation-checkpoint>")]

/-- The first index after the summary that holds an ordinary record.
Source: `context.rs:415–419`. -/
def compactEnd (records : List MessageRecord) (s : Nat) : Nat :=
  match (records.drop (s + 1)).findIdx? MessageRecord.isOrdinary with
  | some p => s + 1 + p
  | none => records.length

/-- The ordinary records from the boundary to the marker. Source: `context.rs:455–462`. -/
def retainedTail (records : List MessageRecord) (tailStart : Uuid) (c : Nat) :
    List MessageRecord :=
  match records.findIdx? (fun r => r.id == tailStart) with
  | some t => ((records.drop t).take (c - t)).filter MessageRecord.isOrdinary
  | none => []

/-- The checkpoint of a pair, when its summary carries a text. Source: `context.rs:431–452`. -/
def checkpointOf (id : Uuid) (marker summary : MessageRecord) : List MessageRecord :=
  match summary.compactionMeta.bind CompactionMeta.summaryText with
  | some text => [checkpoint id marker summary text]
  | none => []

/-- The filtered history for the pair of indices `(c, s)`. Source: `context.rs:395–468`. -/
def filterAt (id : Uuid) (records : List MessageRecord) (c s : Nat) : List MessageRecord :=
  match records[c]?, records[s]? with
  | some marker, some summary =>
      match marker.compactionMeta.bind CompactionMeta.tailStartId with
      | none => records
      | some tailStart =>
          checkpointOf id marker summary ++ retainedTail records tailStart c
            ++ records.drop (compactEnd records s)
  | _, _ => records

/-- `id` is the identifier drawn for the checkpoint. Source: `context.rs:368–469`. -/
def applyCompactionFilter (id : Uuid) (records : List MessageRecord) : List MessageRecord :=
  match latestPair none records.zipIdx.reverse with
  | none => records
  | some (c, s) => filterAt id records c s

/-- Walk backwards and keep records until the next one would exceed the budget.
Source: `context.rs:494–505`. -/
def trimFrom (maxTokens : Nat) : Nat → List MessageRecord → List MessageRecord → List MessageRecord
  | _, kept, [] => kept
  | tokens, kept, rec :: rest =>
      if tokens + estimateRecordTokens rec > maxTokens && !kept.isEmpty then kept
      else trimFrom maxTokens (tokens + estimateRecordTokens rec) (rec :: kept) rest

/-- Source: `context.rs:476–513`. -/
def trimByTokens (records : List MessageRecord) (maxTokens : Nat) : List MessageRecord :=
  if records.isEmpty then records
  else if estimateRecordsTokens records ≤ maxTokens then records
  else trimFrom maxTokens 0 [] records.reverse

/-- The filter adds nothing but a checkpoint. -/
theorem mem_applyCompactionFilter {id : Uuid} {records : List MessageRecord} {r : MessageRecord}
    (h : r ∈ applyCompactionFilter id records) :
    (∃ marker summary text, r = checkpoint id marker summary text) ∨ r ∈ records := by
  unfold applyCompactionFilter filterAt at h
  split at h
  · exact .inr h
  · split at h
    · split at h
      · exact .inr h
      · rw [List.mem_append, List.mem_append] at h
        rcases h with (h | h) | h
        · unfold checkpointOf at h
          split at h
          · exact .inl ⟨_, _, _, List.mem_singleton.mp h⟩
          · cases h
        · unfold retainedTail at h
          split at h
          · exact .inr (List.mem_of_mem_drop (List.mem_of_mem_take (List.mem_of_mem_filter h)))
          · cases h
        · exact .inr (List.mem_of_mem_drop h)
    · exact .inr h

/-! ### The search for the latest pair -/

/-- Records without flags after a history do not change which pair is the latest. -/
theorem latestPair_append_ordinary (records more : List MessageRecord)
    (h : ∀ r ∈ more, r.isOrdinary = true) :
    latestPair none (records ++ more).zipIdx.reverse = latestPair none records.zipIdx.reverse := by
  rw [List.zipIdx_append, List.reverse_append]
  have hskip : ∀ (l : List (MessageRecord × Nat)) (rest : List (MessageRecord × Nat)),
      (∀ p ∈ l, p.1.isOrdinary = true) → latestPair none (l ++ rest) = latestPair none rest := by
    intro l rest hl
    induction l with
    | nil => rfl
    | cons p l ih =>
      obtain ⟨r, i⟩ := p
      have hr : r.isSummary = false := by
        have := hl (r, i) (by simp)
        simp [MessageRecord.isOrdinary] at this
        exact this.2
      simp only [List.cons_append, latestPair, hr, Bool.false_eq_true, if_false]
      exact ih fun p hp => hl p (by simp [hp])
  apply hskip
  intro p hp
  rw [List.mem_reverse] at hp
  exact h p.1 (List.fst_mem_of_mem_zipIdx hp)

/-- A marker and a summary put at the end of a history are its latest pair. -/
theorem latestPair_append_pair (records : List MessageRecord) {marker summary : MessageRecord}
    (hm : marker.isCompaction = true) (hs : summary.isSummary = true) :
    latestPair none (records ++ [marker, summary]).zipIdx.reverse =
      some (records.length, records.length + 1) := by
  rw [List.zipIdx_append, List.reverse_append]
  simp [List.zipIdx, latestPair, hm, hs]

private theorem latestPair_mem {n : Nat} (l : List (MessageRecord × Nat)) (summaryIdx : Option Nat)
    (hl : ∀ p ∈ l, p.2 < n) (hs : ∀ s, summaryIdx = some s → s < n) {c s : Nat}
    (h : latestPair summaryIdx l = some (c, s)) : c < n ∧ s < n := by
  induction l generalizing summaryIdx with
  | nil => simp [latestPair] at h
  | cons p rest ih =>
    obtain ⟨rec, i⟩ := p
    have hi : i < n := hl (rec, i) (by simp)
    have hrest : ∀ q ∈ rest, q.2 < n := fun q hq => hl q (by simp [hq])
    cases summaryIdx with
    | none =>
      apply ih _ hrest _ h
      intro s' hs'
      split at hs'
      · cases hs'
        exact hi
      · cases hs'
    | some s₀ =>
      simp only [latestPair] at h
      split at h
      · simp only [Option.some.injEq, Prod.mk.injEq] at h
        exact ⟨h.1 ▸ hi, h.2 ▸ hs s₀ rfl⟩
      · split at h
        · exact ih none hrest (by simp) h
        · exact ih (some s₀) hrest hs h

/-- The indices of a pair are indices of the history. -/
theorem latestPair_lt (records : List MessageRecord) {c s : Nat}
    (h : latestPair none records.zipIdx.reverse = some (c, s)) :
    c < records.length ∧ s < records.length := by
  apply latestPair_mem _ none _ (by simp) h
  intro p hp
  rw [List.mem_reverse] at hp
  simpa using List.snd_lt_of_mem_zipIdx hp

/-! ### Filtering a longer history -/

private theorem compactEnd_append_ordinary (records more : List MessageRecord) {s : Nat}
    (hs : s < records.length) (h : ∀ r ∈ more, r.isOrdinary = true) :
    (records ++ more).drop (compactEnd (records ++ more) s) =
      records.drop (compactEnd records s) ++ more := by
  have hdrop : (records ++ more).drop (s + 1) = records.drop (s + 1) ++ more := by
    rw [List.drop_append_of_le_length (by omega)]
  unfold compactEnd
  rw [hdrop, List.findIdx?_append]
  cases hfind : (records.drop (s + 1)).findIdx? MessageRecord.isOrdinary with
  | some p =>
    have hp := (List.findIdx?_eq_some_iff_getElem.mp hfind).1
    rw [List.length_drop] at hp
    simp only [Option.some_or]
    rw [List.drop_append_of_le_length (by omega)]
  | none =>
    cases more with
    | nil => simp
    | cons r rest =>
      have hr : r.isOrdinary = true := h r (by simp)
      have hlen : s + 1 + (records.length - (s + 1)) = records.length := by omega
      simp [List.findIdx?_cons, hr, hlen]

private theorem retainedTail_append (records more : List MessageRecord) (tailStart : Uuid)
    {c : Nat} (hc : c ≤ records.length) :
    retainedTail (records ++ more) tailStart c = retainedTail records tailStart c := by
  unfold retainedTail
  rw [List.findIdx?_append]
  cases hfind : records.findIdx? (fun r => r.id == tailStart) with
  | some t =>
    have ht := (List.findIdx?_eq_some_iff_getElem.mp hfind).1
    simp only [Option.some_or]
    rw [List.drop_append_of_le_length (by omega), List.take_append_of_le_length]
    rw [List.length_drop]
    omega
  | none =>
    cases more.findIdx? (fun r => r.id == tailStart) with
    | none => rfl
    | some t =>
      have hzero : c - (t + records.length) = 0 := by omega
      simp [hzero]

/-- Ordinary records appended to a history are appended to the filtered history. -/
theorem applyCompactionFilter_append_ordinary (id : Uuid) (records more : List MessageRecord)
    (h : ∀ r ∈ more, r.isOrdinary = true) :
    applyCompactionFilter id (records ++ more) = applyCompactionFilter id records ++ more := by
  unfold applyCompactionFilter
  rw [latestPair_append_ordinary records more h]
  match hpair : latestPair none records.zipIdx.reverse with
  | none => rfl
  | some (c, s) =>
    obtain ⟨hc, hs⟩ := latestPair_lt records hpair
    simp only [filterAt, List.getElem?_append_left hc, List.getElem?_append_left hs,
      List.getElem?_eq_getElem hc, List.getElem?_eq_getElem hs]
    cases (records[c].compactionMeta.bind CompactionMeta.tailStartId) with
    | none => rfl
    | some tailStart =>
      simp only [retainedTail_append records more tailStart (Nat.le_of_lt hc),
        compactEnd_append_ordinary records more hs h, List.append_assoc]

/-- With a new pair at its end, a history is filtered to the pair's checkpoint and the
ordinary records from the pair's boundary on. -/
theorem applyCompactionFilter_append_pair (id : Uuid) (records : List MessageRecord)
    {marker summary : MessageRecord} {tailStart : Uuid} (hm : marker.isCompaction = true)
    (hs : summary.isSummary = true)
    (hstart : marker.compactionMeta.bind CompactionMeta.tailStartId = some tailStart) :
    applyCompactionFilter id (records ++ [marker, summary]) =
      checkpointOf id marker summary ++
        match records.findIdx? (fun r => r.id == tailStart) with
        | some t => (records.drop t).filter MessageRecord.isOrdinary
        | none => [] := by
  unfold applyCompactionFilter
  rw [latestPair_append_pair records hm hs]
  have hmarker : (records ++ [marker, summary])[records.length]? = some marker := by simp
  have hsummary : (records ++ [marker, summary])[records.length + 1]? = some summary := by
    rw [List.getElem?_append_right (by omega)]
    simp
  have hend : (records ++ [marker, summary]).drop
      (compactEnd (records ++ [marker, summary]) (records.length + 1)) = [] := by
    have hnone : (records ++ [marker, summary]).drop (records.length + 1 + 1) = [] :=
      List.drop_eq_nil_iff.mpr (by simp)
    simp only [compactEnd, hnone, List.findIdx?_nil, List.drop_length]
  simp only [filterAt, hmarker, hsummary, hstart, hend, List.append_nil]
  rw [retainedTail_append records [marker, summary] tailStart (Nat.le_refl _), retainedTail]
  cases records.findIdx? (fun r => r.id == tailStart) with
  | some t => simp only [← List.length_drop, List.take_length]
  | none => rfl

/-! ### Trimming -/

/-- A history within the budget is not trimmed. -/
theorem trimByTokens_of_le {records : List MessageRecord} {maxTokens : Nat}
    (h : estimateRecordsTokens records ≤ maxTokens) : trimByTokens records maxTokens = records := by
  simp [trimByTokens, h]

end Behest.Context
