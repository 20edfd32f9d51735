import Behest.Compaction.Partition
import Behest.Compaction.Service
import Behest.Context.Filter
import Behest.Runtime.Calls

/-!
# Selector and filter agree on the boundary

The selector records only the identifier of the first record of its tail; the compaction
filter finds the tail again from that identifier in the history with the new pair appended.
The two together conserve the conversation in two cases: the oldest preserved turn is kept
whole, or the walk ends at the second of exactly two preserved turns, the younger of which
is a single record, without having taken an ordinary record of the older one.
-/

namespace Behest.Compaction

/-! ### Stored histories -/

/-- A history as the runtime writes it: identifiers are distinct and not nil, summaries are
assistant records, and the first record is neither a marker nor a summary. -/
structure Stored (messages : List MessageRecord) : Prop where
  ids : (messages.map MessageRecord.id).Nodup
  generated : ∀ r ∈ messages, r.id ≠ Uuid.nil
  summaries : ∀ r ∈ messages, r.isSummary = true → r.role = .assistant
  opening : ∀ r, messages.head? = some r → r.isOrdinary = true

/-- A record with a new identifier keeps a history well stored, if it is ordinary or the
history is not empty. -/
theorem Stored.append {messages : List MessageRecord} {r : MessageRecord} (h : Stored messages)
    (hid : r.id ∉ messages.map MessageRecord.id) (hnil : r.id ≠ Uuid.nil)
    (hrole : r.isSummary = true → r.role = .assistant)
    (hopen : r.isOrdinary = true ∨ messages ≠ []) : Stored (messages ++ [r]) where
  ids := by
    rw [List.map_append, List.nodup_append]
    refine ⟨h.ids, by simp, ?_⟩
    rintro a ha b hb rfl
    exact hid (by simpa [List.mem_singleton.mp hb] using ha)
  generated := by
    intro a ha
    rcases List.mem_append.mp ha with ha | ha
    · exact h.generated a ha
    · rw [List.mem_singleton.mp ha]
      exact hnil
  summaries := by
    intro a ha
    rcases List.mem_append.mp ha with ha | ha
    · exact h.summaries a ha
    · rw [List.mem_singleton.mp ha]
      exact hrole
  opening := by
    intro a ha
    cases messages with
    | nil =>
      obtain rfl : r = a := by simpa using ha
      exact hopen.resolve_right (by simp)
    | cons first rest => exact h.opening a (by simpa using ha)

/-- The histories the runtime writes: messages one by one, and pairs of a marker and a
summary after some message. -/
inductive Written : List MessageRecord → Prop where
  | start : Written []
  | message {messages : List MessageRecord} (h : Written messages) {id : Uuid}
      (hid : id ∉ messages.map MessageRecord.id) (hnil : id ≠ Uuid.nil) (createdAt : Nat)
      (sessionId : Uuid) (message : Message) :
      Written (messages ++ [messageToRecord id createdAt sessionId message])
  | pair {messages : List MessageRecord} (h : Written messages) (hne : messages ≠ [])
      {markerId summaryId : Uuid} (hmarker : markerId ∉ messages.map MessageRecord.id)
      (hsummary : summaryId ∉ messages.map MessageRecord.id) (hdistinct : summaryId ≠ markerId)
      (hmarkerNil : markerId ≠ Uuid.nil) (hsummaryNil : summaryId ≠ Uuid.nil)
      (markerTime summaryTime : Nat) (sessionId tailStartId : Uuid) (text : String) :
      Written (messages ++ [compactionMarker markerId markerTime sessionId tailStartId,
        compactionSummary summaryId summaryTime sessionId tailStartId text])

/-- Every history the runtime writes is well stored. -/
theorem Written.stored {messages : List MessageRecord} (h : Written messages) :
    Stored messages := by
  induction h with
  | start => exact ⟨List.nodup_nil, by simp, by simp, by simp⟩
  | @message messages _ id hid hnil createdAt sessionId message ih =>
    have hord := isOrdinary_messageToRecord id createdAt sessionId message
    apply ih.append _ _ _ (.inl hord)
    · cases message <;> exact hid
    · cases message <;> exact hnil
    · intro hsum
      simp [MessageRecord.isOrdinary, hsum] at hord
  | @pair messages _ hne markerId summaryId hmarker hsummary hdistinct hmarkerNil hsummaryNil
      markerTime summaryTime sessionId tailStartId text ih =>
    have hfirst := ih.append (r := compactionMarker markerId markerTime sessionId tailStartId)
      hmarker hmarkerNil (fun hsum => by cases hsum) (.inr hne)
    have hboth := hfirst.append
      (r := compactionSummary summaryId summaryTime sessionId tailStartId text)
      (by simpa [compactionMarker, compactionSummary, MessageRecord.new, hdistinct] using hsummary)
      hsummaryNil (fun _ => rfl) (.inr (by simp))
    simpa using hboth

section Indices

variable {messages : List MessageRecord}

theorem mem_recordsAt (h : (messages.map MessageRecord.id).Nodup) {i : Nat} {r : MessageRecord}
    (hi : messages[i]? = some r) (is : List Nat) : r ∈ recordsAt messages is ↔ i ∈ is := by
  simp only [recordsAt, List.mem_filterMap]
  constructor
  · rintro ⟨j, hj, hr⟩
    rwa [index_unique h hi hr rfl]
  · exact fun hmem => ⟨i, hmem, hi⟩

theorem mem_drop_iff_le (h : (messages.map MessageRecord.id).Nodup) {i : Nat} {r : MessageRecord}
    (hi : messages[i]? = some r) (k : Nat) : r ∈ messages.drop k ↔ k ≤ i := by
  rw [List.mem_iff_getElem?]
  constructor
  · rintro ⟨j, hj⟩
    rw [List.getElem?_drop] at hj
    have := index_unique h hi hj rfl
    omega
  · intro hle
    refine ⟨i - k, ?_⟩
    rw [List.getElem?_drop, Nat.add_sub_cancel' hle]
    exact hi

/-- The index of a record is found by its identifier. -/
theorem findIdx?_id (h : (messages.map MessageRecord.id).Nodup) {i : Nat} {r : MessageRecord}
    (hi : messages[i]? = some r) : messages.findIdx? (fun a => a.id == r.id) = some i := by
  rw [List.findIdx?_eq_some_iff_getElem]
  obtain ⟨hlt, hget⟩ := List.getElem?_eq_some_iff.mp hi
  refine ⟨hlt, by simp [hget], ?_⟩
  intro j hj heq
  have hjlt : j < messages.length := by omega
  have := index_unique h (List.getElem?_eq_getElem hjlt) hi (by simpa using heq)
  omega

/-- The first record of a turn of a stored history is ordinary. -/
theorem Stored.ordinary_of_head (h : Stored messages) {turn : List Nat}
    (hturn : turn ∈ turns messages) {i : Nat} (hi : turn.head? = some i) :
    ∃ r, messages[i]? = some r ∧ r.isOrdinary = true := by
  cases hturns : turns messages with
  | nil => rw [hturns] at hturn; cases hturn
  | cons first rest =>
    rw [hturns] at hturn
    rcases List.mem_cons.mp hturn with rfl | hrest
    · -- the first turn opens at index zero
      have hflat := turns_flatten messages
      rw [hturns, List.flatten_cons] at hflat
      have hmem : turn ∈ turns messages := by rw [hturns]; simp
      obtain ⟨j, more, rfl⟩ := List.exists_cons_of_ne_nil (ne_nil_of_mem_turns hmem)
      cases messages with
      | nil => simp [turns, turnsFrom] at hturns
      | cons r tl =>
        rw [List.length_cons, List.range_succ_eq_map, List.cons_append] at hflat
        injection hflat with hzero
        simp only [List.head?_cons, Option.some.injEq] at hi
        exact ⟨r, by rw [← hi, hzero]; rfl, h.opening r rfl⟩
    · obtain ⟨r, hr, hstarts⟩ := opensAt_of_mem_tail_turns (by rw [hturns]; exact hrest) i hi
      refine ⟨r, hr, ?_⟩
      simp only [startsTurn, Bool.and_eq_true, Bool.not_eq_true', decide_eq_true_eq] at hstarts
      have hsum : r.isSummary = false := by
        by_contra hne
        have hrole := h.summaries r (List.mem_of_getElem? hr) (by simpa using hne)
        rw [hstarts.2] at hrole
        cases hrole
      simp [MessageRecord.isOrdinary, hstarts.1, hsum]

end Indices

/-! ### How far the walk gets -/

section Walk

variable (tokens : Nat → Nat) (keep : Nat)

/-- The walk over the older preserved turns, given youngest first, reaches the oldest one
and keeps it whole. -/
def OldestKept : List (List Nat) → Nat → Prop
  | [], _ => True
  | turn :: rest, accumulated =>
      let kept := keptOf tokens keep accumulated turn
      (rest = [] → kept = turn) ∧ accumulated + weight tokens kept ≤ keep ∧
        OldestKept rest (accumulated + weight tokens kept)

variable {tokens keep}

theorem mem_sortIndices {i : Nat} {is : List Nat} : i ∈ sortIndices is ↔ i ∈ is :=
  List.mem_insertionSort _

/-- The tail of a walk comes from the turns walked over. -/
theorem walkTurns_tail_subset {earlier : List (List Nat)} (accumulated : Nat) (tail : List Nat)
    (hnd : ∀ turn ∈ earlier, turn.Nodup) (htail : tail ≠ []) :
    ∀ i ∈ (walkTurns tokens keep earlier accumulated tail).tailIndices,
      i ∈ tail ∨ i ∈ earlier.flatten := by
  induction earlier generalizing accumulated tail with
  | nil =>
    intro i hi
    exact .inl (mem_sortIndices.mp hi)
  | cons turn rest ih =>
    intro i hi
    rw [walkTurns_older tokens keep (hnd turn (by simp)) htail] at hi
    simp only at hi
    split at hi
    · exact .inl (List.mem_reverse.mp hi)
    · rcases ih _ (keptOf tokens keep accumulated turn ++ tail)
        (fun u hu => hnd u (by simp [hu])) (by simp [htail]) i hi with hi | hi
      · rcases List.mem_append.mp hi with hi | hi
        · exact .inr (by simp [(List.rtakeWhile_suffix _ turn).mem hi])
        · exact .inl hi
      · exact .inr (by simp [List.mem_flatten.mp hi])

/-- A walk that keeps the oldest turn ends with it in the tail. -/
theorem walkTurns_of_oldestKept {earlier : List (List Nat)} {accumulated : Nat} (tail : List Nat)
    (hnd : ∀ turn ∈ earlier, turn.Nodup) (htail : tail ≠ [])
    (h : OldestKept tokens keep earlier accumulated) :
    ∃ t, walkTurns tokens keep earlier accumulated tail = .fitted (sortIndices t) ∧
      (∀ i ∈ tail, i ∈ t) ∧ ∀ oldest, earlier.getLast? = some oldest → ∀ i ∈ oldest, i ∈ t := by
  induction earlier generalizing accumulated tail with
  | nil => exact ⟨tail, rfl, fun i hi => hi, by simp⟩
  | cons turn rest ih =>
    obtain ⟨hwhole, hfit, hrest⟩ := h
    obtain ⟨t, ht, htl, hold⟩ := ih (keptOf tokens keep accumulated turn ++ tail)
      (fun u hu => hnd u (by simp [hu])) (by simp [htail]) hrest
    refine ⟨t, ?_, fun i hi => htl i (by simp [hi]), ?_⟩
    · rw [walkTurns_older tokens keep (hnd turn (by simp)) htail]
      simp only
      rw [if_neg (by omega), ht]
    · intro oldest hlast i hi
      cases rest with
      | nil =>
        obtain rfl : turn = oldest := by simpa using hlast
        rw [hwhole rfl] at htl
        exact htl i (by simp [hi])
      | cons u us => exact hold oldest (by simpa using hlast) i hi

/-- The first index of a turn that is not kept whole is not kept. -/
private theorem head_not_mem_keptOf {accumulated : Nat} {turn : List Nat} (hnd : turn.Nodup)
    {i : Nat} (hi : turn.head? = some i) (h : keptOf tokens keep accumulated turn ≠ turn) :
    i ∉ keptOf tokens keep accumulated turn := by
  intro hmem
  have hsplit := cutOf_append_keptOf tokens keep accumulated turn
  generalize keptOf tokens keep accumulated turn = kept at *
  cases hcut : cutOf tokens keep accumulated turn with
  | nil =>
    rw [hcut, List.nil_append] at hsplit
    exact h hsplit
  | cons j more =>
    rw [hcut] at hsplit
    subst hsplit
    obtain rfl : j = i := by simpa using hi
    have := List.nodup_cons.mp hnd
    exact this.1 (by simp [hmem])

/-- A walk that fits without keeping the oldest turn whole leaves its first index out. -/
theorem walkTurns_drops_oldest {earlier : List (List Nat)} {accumulated : Nat} (tail : List Nat)
    (hnd : ∀ turn ∈ earlier, turn.Nodup) (htail : tail ≠ []) {t : List Nat}
    (hwalk : walkTurns tokens keep earlier accumulated tail = .fitted t)
    (h : ¬ OldestKept tokens keep earlier accumulated) {front : List (List Nat)}
    {oldest : List Nat} (hlast : earlier = front ++ [oldest]) {i : Nat}
    (hi : oldest.head? = some i) (htl : i ∉ tail) (hfront : i ∉ front.flatten) : i ∉ t := by
  induction earlier generalizing accumulated tail front with
  | nil => exact absurd trivial h
  | cons turn rest ih =>
    have hturn := hnd turn (by simp)
    rw [walkTurns_older tokens keep hturn htail] at hwalk
    simp only at hwalk
    split at hwalk
    · cases hwalk
    · next hover =>
      cases front with
      | nil =>
        rw [List.nil_append] at hlast
        injection hlast with hturn' hrest
        subst hturn' hrest
        have hne : keptOf tokens keep accumulated turn ≠ turn := by
          intro hwhole
          exact h ⟨fun _ => hwhole, by omega, trivial⟩
        have hnot := head_not_mem_keptOf hturn hi hne
        simp only [walkTurns, Walk.fitted.injEq] at hwalk
        rw [← hwalk, mem_sortIndices]
        simp [hnot, htl]
      | cons u us =>
        rw [List.cons_append] at hlast
        injection hlast with hturn' hrest
        subst hturn'
        rw [List.flatten_cons, List.mem_append, not_or] at hfront
        have hkept : i ∉ keptOf tokens keep accumulated turn := fun hmem =>
          hfront.1 ((List.rtakeWhile_suffix _ turn).mem hmem)
        apply ih (keptOf tokens keep accumulated turn ++ tail) (fun v hv => hnd v (by simp [hv]))
          (by simp [htail]) hwalk _ hrest (by simp [hkept, htl]) hfront.2
        intro hold
        exact h ⟨fun hnil => by simp [hnil] at hrest, by omega, hold⟩

/-- Where an overflowing walk ends: at one of the older turns, with everything before it
dropped and the tail reversed. -/
theorem walkTurns_overflow {earlier : List (List Nat)} {accumulated : Nat} (tail : List Nat)
    (hnd : ∀ turn ∈ earlier, turn.Nodup) (htail : tail ≠ []) {overflow reversed : List Nat}
    (hwalk : walkTurns tokens keep earlier accumulated tail = .overflowed overflow reversed) :
    ∃ front turn back more accumulated', earlier = front ++ turn :: back ∧
      overflow = cutOf tokens keep accumulated' turn ∧ reversed = (more ++ tail).reverse ∧
      keep < accumulated' + weight tokens (keptOf tokens keep accumulated' turn) ∧
      (front = [] → accumulated' = accumulated) := by
  induction earlier generalizing accumulated tail with
  | nil => simp [walkTurns] at hwalk
  | cons turn rest ih =>
    rw [walkTurns_older tokens keep (hnd turn (by simp)) htail] at hwalk
    simp only at hwalk
    split at hwalk
    · next hover =>
      injection hwalk with hcut hrev
      exact ⟨[], turn, rest, [], accumulated, rfl, hcut.symm, by simp [← hrev], hover,
        fun _ => rfl⟩
    · obtain ⟨front, u, back, more, accumulated', hsplit, hcut, hrev, hover, -⟩ :=
        ih (keptOf tokens keep accumulated turn ++ tail) (fun v hv => hnd v (by simp [hv]))
          (by simp [htail]) hwalk
      refine ⟨turn :: front, u, back, more ++ keptOf tokens keep accumulated turn, accumulated',
        by simp [hsplit], hcut, by simp [hrev], hover, by simp⟩

end Walk

end Behest.Compaction
