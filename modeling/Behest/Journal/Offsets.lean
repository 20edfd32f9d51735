import Behest.Journal.Log

/-!
# Offsets over the life of a journal

A journal is recorded to, cut at an offset (`behest-core/src/recovery.rs`), and saved and
restored. The next offset is worked out again from the entries that survive a cut: as long as
some do, it stays, since the last entry is the last to be cut off.
-/

namespace Behest

/-- What is done to a journal in the course of a session; a recording has its time. -/
inductive JournalOp where
  | record (now : Nat) (event : SessionEvent)
  | snip (offset : Nat)
  | restore

namespace JournalOp

def isRecord : JournalOp → Bool
  | record _ _ => true
  | snip _ | restore => false

end JournalOp

namespace Journal

/-- The number of entries removed, and the journal without them.
Source: `behest-core/src/recovery.rs:142–158`. -/
def snipBeforeOffset (j : Journal) (offset : Nat) : Nat × Journal :=
  let before := j.entries.length
  if before = 0 then (0, j)
  else
    let kept := j.entries.filter fun e => decide (offset ≤ e.offset)
    (before - kept.length, fromEntries kept)

/-- One operation. -/
def act (j : Journal) : JournalOp → Journal
  | .record now event => j.record now event
  | .snip offset => (j.snipBeforeOffset offset).2
  | .restore => fromEntries j.entries

/-- The journal after some operations. -/
def after (j : Journal) (ops : List JournalOp) : Journal := ops.foldl act j

/-- The offsets that the recordings among some operations return, in order. -/
def offsets (j : Journal) : List JournalOp → List Nat
  | [] => []
  | op :: rest =>
      match op with
      | .record now event => j.nextOffset :: (j.record now event).offsets rest
      | op => (j.act op).offsets rest

/-- No offset is used twice: the offsets returned grow over the whole history, and what is
recorded after a moment lies at or behind the next offset of that moment. -/
def NeverReused (ops : List JournalOp) : Prop :=
  (new.offsets ops).Pairwise (· < ·) ∧
    ∀ earlier later, ops = earlier ++ later →
      ∀ o ∈ (new.after earlier).offsets later, (new.after earlier).nextOffset ≤ o

/-- The operation cuts off every entry of a journal that has some. -/
def emptiedBy (j : Journal) : JournalOp → Bool
  | .snip offset => !j.entries.isEmpty && j.entries.all fun e => decide (e.offset < offset)
  | .record _ _ | .restore => false

/-- A cut empties the journal, and something is recorded later. -/
def recordsAfterEmptying (j : Journal) : List JournalOp → Bool
  | [] => false
  | op :: rest =>
      (j.emptiedBy op && rest.any JournalOp.isRecord) || (j.act op).recordsAfterEmptying rest

/-! ### Journals whose offsets grow -/

/-- The offsets grow along the entries, and a restoration changes nothing. -/
structure Ordered (j : Journal) : Prop where
  sorted : j.entries.Pairwise fun e e' => e.offset < e'.offset
  restored : fromEntries j.entries = j

@[simp] theorem nextOffset_fromEntries_concat (entries : List LogEntry) (e : LogEntry) :
    (fromEntries (entries ++ [e])).nextOffset = e.offset + 1 := by
  simp [fromEntries]

theorem ordered_fromEntries {entries : List LogEntry}
    (h : entries.Pairwise fun e e' => e.offset < e'.offset) : Ordered (fromEntries entries) :=
  ⟨h, rfl⟩

theorem ordered_new : Ordered new := ⟨.nil, rfl⟩

theorem offset_le_last {front : List LogEntry} {last : LogEntry}
    (h : (front ++ [last]).Pairwise fun e e' => e.offset < e'.offset) {e : LogEntry}
    (he : e ∈ front ++ [last]) : e.offset ≤ last.offset := by
  rcases List.mem_append.mp he with he | he
  · exact Nat.le_of_lt ((List.pairwise_append.mp h).2.2 e he last (List.mem_singleton_self _))
  · exact Nat.le_of_eq (congrArg LogEntry.offset (List.mem_singleton.mp he))

theorem Ordered.lt_nextOffset {j : Journal} (h : j.Ordered) {e : LogEntry} (he : e ∈ j.entries) :
    e.offset < j.nextOffset := by
  obtain ⟨hsorted, hrestored⟩ := h
  rw [← hrestored]
  rcases List.eq_nil_or_concat' j.entries with hnil | ⟨front, last, hentries⟩
  · rw [hnil] at he
    cases he
  · rw [hentries] at he hsorted ⊢
    rw [nextOffset_fromEntries_concat]
    exact Nat.lt_succ_of_le (offset_le_last hsorted he)

theorem Ordered.record {j : Journal} (h : j.Ordered) (now : Nat) (event : SessionEvent) :
    (j.record now event).Ordered := by
  refine ⟨List.pairwise_append.mpr ⟨h.sorted, List.pairwise_singleton .., fun e he e' he' => ?_⟩,
    ?_⟩
  · rw [List.mem_singleton.mp he']
    exact h.lt_nextOffset he
  · simp [fromEntries, Journal.record]

theorem Ordered.act {j : Journal} (h : j.Ordered) (op : JournalOp) : (j.act op).Ordered := by
  cases op with
  | record now event => exact h.record now event
  | snip offset =>
    rw [Journal.act, snipBeforeOffset]
    split
    · exact h
    · exact ordered_fromEntries (h.sorted.filter _)
  | restore => exact ordered_fromEntries h.sorted

theorem Ordered.after {j : Journal} (h : j.Ordered) (ops : List JournalOp) :
    (j.after ops).Ordered := by
  induction ops generalizing j with
  | nil => exact h
  | cons op rest ih => exact ih (h.act op)

/-- A cut that leaves some entry leaves the last one. -/
theorem Ordered.nextOffset_snip {j : Journal} (h : j.Ordered) {offset : Nat}
    (hleft : j.emptiedBy (.snip offset) = false) :
    (j.act (.snip offset)).nextOffset = j.nextOffset := by
  rw [Journal.act, snipBeforeOffset]
  rcases List.eq_nil_or_concat' j.entries with hnil | ⟨front, last, hentries⟩
  · rw [if_pos (by rw [hnil]; rfl)]
  · have hlast : offset ≤ last.offset := by
      by_contra hcut
      have hall : (front ++ [last]).all (fun e => decide (e.offset < offset)) = true := by
        refine List.all_eq_true.mpr fun e he => decide_eq_true ?_
        exact Nat.lt_of_le_of_lt (offset_le_last (hentries ▸ h.sorted) he) (Nat.not_le.mp hcut)
      rw [emptiedBy, hentries, hall] at hleft
      simp at hleft
    have hnext : j.nextOffset = last.offset + 1 := by
      rw [← h.restored, hentries, nextOffset_fromEntries_concat]
    rw [if_neg (by rw [hentries]; simp), hnext, hentries, List.filter_append,
      List.filter_cons_of_pos (by simpa using hlast), List.filter_nil,
      nextOffset_fromEntries_concat]

/-- A journal that was emptied starts over. -/
theorem act_of_emptied {j : Journal} {op : JournalOp} (h : j.emptiedBy op = true) :
    j.act op = new ∧ ∃ e, e ∈ j.entries := by
  cases op with
  | snip offset =>
    simp only [emptiedBy, Bool.and_eq_true, Bool.not_eq_true', List.all_eq_true,
      decide_eq_true_eq] at h
    obtain ⟨hsome, hall⟩ := h
    have hne : j.entries ≠ [] := by simpa using hsome
    have hkept : j.entries.filter (fun e => decide (offset ≤ e.offset)) = [] :=
      List.filter_eq_nil_iff.mpr fun e he => by simpa using hall e he
    refine ⟨?_, List.exists_mem_of_ne_nil _ hne⟩
    rw [act, snipBeforeOffset, if_neg (by simpa using hne), hkept]
    rfl
  | record => cases h
  | restore => cases h

/-! ### Histories -/

theorem after_append (j : Journal) (ops ops' : List JournalOp) :
    j.after (ops ++ ops') = (j.after ops).after ops' := List.foldl_append

theorem offsets_append (j : Journal) (ops ops' : List JournalOp) :
    j.offsets (ops ++ ops') = j.offsets ops ++ (j.after ops).offsets ops' := by
  induction ops generalizing j with
  | nil => rfl
  | cons op rest ih =>
    cases op with
    | record now event => exact congrArg (j.nextOffset :: ·) (ih (j.record now event))
    | snip offset => exact ih (j.act (.snip offset))
    | restore => exact ih (j.act .restore)

theorem recordsAfterEmptying_append (j : Journal) (ops ops' : List JournalOp)
    (h : j.recordsAfterEmptying (ops ++ ops') = false) :
    (j.after ops).recordsAfterEmptying ops' = false := by
  induction ops generalizing j with
  | nil => exact h
  | cons op rest ih => exact ih _ (Bool.or_eq_false_iff.mp h).2

theorem offsets_of_no_record (j : Journal) {ops : List JournalOp}
    (h : ops.any JournalOp.isRecord = false) : j.offsets ops = [] := by
  induction ops generalizing j with
  | nil => rfl
  | cons op rest ih =>
    rw [List.any_cons, Bool.or_eq_false_iff] at h
    cases op with
    | record => cases h.1
    | snip offset => exact ih (j.act (.snip offset)) h.2
    | restore => exact ih (j.act .restore) h.2

/-- A journal that starts over hands out the first offset again. -/
theorem zero_mem_offsets_new {ops : List JournalOp} (h : ops.any JournalOp.isRecord = true) :
    0 ∈ new.offsets ops := by
  induction ops with
  | nil => cases h
  | cons op rest ih =>
    cases op with
    | record => exact List.mem_cons_self
    | snip offset => exact ih h
    | restore => exact ih h

/-- What a journal holds was in it before or has been recorded. -/
theorem mem_after {j : Journal} {ops : List JournalOp} {e : LogEntry}
    (he : e ∈ (j.after ops).entries) : e ∈ j.entries ∨ e.offset ∈ j.offsets ops := by
  induction ops generalizing j with
  | nil => exact .inl he
  | cons op rest ih =>
    cases op with
    | record now event =>
      rcases ih he with he | he
      · rcases List.mem_append.mp he with he | he
        · exact .inl he
        · exact .inr (List.mem_singleton.mp he ▸ List.mem_cons_self)
      · exact .inr (List.mem_cons_of_mem _ he)
    | snip offset =>
      refine (ih he).imp_left fun he => ?_
      rw [act, snipBeforeOffset] at he
      split at he
      · exact he
      · exact List.mem_of_mem_filter he
    | restore => exact ih he

/-- As long as nothing is recorded after the journal was emptied, the offsets are counted up. -/
theorem Ordered.offsets_eq {j : Journal} (h : j.Ordered) {ops : List JournalOp}
    (hops : j.recordsAfterEmptying ops = false) :
    j.offsets ops = List.range' j.nextOffset (ops.countP JournalOp.isRecord) := by
  induction ops generalizing j with
  | nil => rfl
  | cons op rest ih =>
    obtain ⟨hop, hrest⟩ := Bool.or_eq_false_iff.mp hops
    have hih := ih (h.act op) hrest
    cases op with
    | record now event =>
      rw [List.countP_cons_of_pos rfl, List.range'_succ]
      exact congrArg (j.nextOffset :: ·) hih
    | snip offset =>
      rw [List.countP_cons_of_neg (by simp [JournalOp.isRecord])]
      cases hemptied : j.emptiedBy (.snip offset) with
      | true =>
        have hno : rest.any JournalOp.isRecord = false := by simpa [hemptied] using hop
        have hcount : rest.countP JournalOp.isRecord = 0 :=
          List.countP_eq_zero.mpr fun op hop => by simpa using List.any_eq_false.mp hno op hop
        rw [hcount]
        exact offsets_of_no_record _ hno
      | false =>
        rw [← h.nextOffset_snip hemptied]
        exact hih
    | restore =>
      rw [List.countP_cons_of_neg (by simp [JournalOp.isRecord])]
      exact congrArg nextOffset h.restored ▸ hih

/-- The cut that empties the journal, with what comes before and after it. -/
theorem exists_emptying {j : Journal} {ops : List JournalOp}
    (h : j.recordsAfterEmptying ops = true) :
    ∃ earlier op later, ops = earlier ++ op :: later ∧ (j.after earlier).emptiedBy op = true ∧
      later.any JournalOp.isRecord = true := by
  induction ops generalizing j with
  | nil => cases h
  | cons op rest ih =>
    rcases Bool.or_eq_true_iff.mp h with hop | hrest
    · obtain ⟨hemptied, hrecord⟩ := Bool.and_eq_true_iff.mp hop
      exact ⟨[], op, rest, rfl, hemptied, hrecord⟩
    · obtain ⟨earlier, op', later, rfl, hemptied, hrecord⟩ := ih hrest
      exact ⟨op :: earlier, op', later, rfl, hemptied, hrecord⟩

/-- A recording after the journal was emptied repeats an offset. -/
theorem not_growing {ops : List JournalOp} (h : new.recordsAfterEmptying ops = true) :
    ¬ (new.offsets ops).Pairwise (· < ·) := by
  obtain ⟨earlier, op, later, rfl, hemptied, hrecord⟩ := exists_emptying h
  obtain ⟨hact, e, he⟩ := act_of_emptied hemptied
  have hearlier : e.offset ∈ new.offsets earlier := (mem_after he).resolve_left nofun
  have hlater : 0 ∈ (new.after earlier).offsets (op :: later) := by
    rw [← List.singleton_append, offsets_append]
    refine List.mem_append_right _ ?_
    rw [show (new.after earlier).after [op] = new from hact]
    exact zero_mem_offsets_new hrecord
  intro hgrow
  rw [offsets_append] at hgrow
  exact Nat.not_lt_zero _ ((List.pairwise_append.mp hgrow).2.2 _ hearlier 0 hlater)

/-- Offsets are never reused exactly when nothing is recorded after a cut that removes all. -/
theorem neverReused_iff (ops : List JournalOp) :
    NeverReused ops ↔ new.recordsAfterEmptying ops = false := by
  refine ⟨fun h => ?_, fun h => ⟨?_, ?_⟩⟩
  · by_contra hops
    exact not_growing (by simpa using hops) h.1
  · rw [ordered_new.offsets_eq h]
    exact List.pairwise_lt_range'
  · rintro earlier later rfl o ho
    rw [(ordered_new.after earlier).offsets_eq (recordsAfterEmptying_append _ _ _ h)] at ho
    exact (List.mem_range'_1.mp ho).1

/-- The first offset is handed out again after the only entry was cut off. -/
theorem cut_reused :
    ¬ NeverReused
      [.record 0 (.inputReceived "hello"), .snip 1, .record 1 (.inputReceived "again")] :=
  fun h => absurd h.1 (by decide)

end Journal

end Behest
