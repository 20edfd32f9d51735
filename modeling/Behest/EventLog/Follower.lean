import Mathlib.Data.List.Sort
import Behest.Channel.Broadcast
import Behest.EventLog.Paging

/-!
# Following a log by its pages and a lossy feed

A follower of an ordered log. It reads pages, each from the last position seen, until a page is
empty, and from then on what a feed of the entries brings: an entry that it has not seen is
taken, one that it has seen is ignored, and a gap sends it back to the pages. The feed may miss
entries of the log and may start anywhere. The follower sees each entry once and in order, and
every entry of the feed.
-/

namespace Paging

open Channel

variable {α : Type} (seq : α → Nat)

/-- Where the follower starts, whether it reads the feed, and what it has seen. -/
structure Follower (α : Type) where
  after : Option Nat
  following : Bool
  seen : List α

namespace Follower

def start (after : Option Nat) : Follower α := ⟨after, false, []⟩

/-- The last position seen. -/
def cursor (f : Follower α) : Option Nat := lastSeen seq f.after f.seen

/-- A page has been read; when it is empty, the follower turns to the feed. -/
def turnPage (entries : List α) (f : Follower α) : Option (Follower α) :=
  if f.following then none
  else if entries.isEmpty then some { f with following := true }
  else some { f with seen := f.seen ++ entries }

/-- A reading of the feed: a gap sends the follower back to the pages. -/
def take (reading : Reading α) (f : Follower α) : Option (Follower α) :=
  if f.following then
    match reading with
    | .value a => some (if isAfter seq (f.cursor seq) a then { f with seen := f.seen ++ [a] } else f)
    | .lagged _ => some { f with following := false }
  else none

/-- What the follower has seen are entries of the log in order; an entry of the feed that it has
not seen is still ahead of it; and while it follows, it has seen all that the feed has passed. -/
structure Tracks (log fed : List α) (reached : Nat) (f : Follower α) : Prop where
  ordered : Ordered seq f.seen
  logged : ∀ a ∈ f.seen, a ∈ log ∧ isAfter seq f.after a = true
  ahead : ∀ a ∈ fed, isAfter seq f.after a = true → a ∉ f.seen →
    isAfter seq (f.cursor seq) a = true
  passed : f.following = true → ∀ a ∈ fed.take reached, isAfter seq f.after a = true → a ∈ f.seen

end Follower

variable {seq} {log fed : List α} {reached : Nat} {after : Option Nat}

/-- Ordered entries of an ordered log are a part of it. -/
theorem Ordered.sublist_of_mem {l : List α} (hl : Ordered seq l) (hlog : Ordered seq log)
    (h : ∀ a ∈ l, a ∈ log) : l.Sublist log := by
  have : Std.Antisymm fun a b : α => seq a < seq b :=
    ⟨fun a b hab hba => absurd (Nat.lt_trans hab hba) (Nat.lt_irrefl _)⟩
  have : Std.Irrefl fun a b : α => seq a < seq b := ⟨fun a => Nat.lt_irrefl _⟩
  exact List.sublist_of_subperm_of_pairwise (List.subperm_of_subset hl.nodup h) hl hlog

/-- Two ordered logs with the same entries are the same. -/
theorem Ordered.ext {l : List α} (hl : Ordered seq l) (hlog : Ordered seq log)
    (h : ∀ a, a ∈ l ↔ a ∈ log) : l = log := by
  have : Std.Antisymm fun a b : α => seq a < seq b :=
    ⟨fun a b hab hba => absurd (Nat.lt_trans hab hba) (Nat.lt_irrefl _)⟩
  have : Std.Irrefl fun a b : α => seq a < seq b := ⟨fun a => Nat.lt_irrefl _⟩
  exact List.Subset.antisymm_of_pairwise hl hlog (fun a ha => (h a).mp ha)
    fun a ha => (h a).mpr ha

/-- Two entries of an ordered log at the same position are the same. -/
theorem Ordered.eq_of_seq_eq (h : Ordered seq log) {a b : α} (ha : a ∈ log) (hb : b ∈ log)
    (hseq : seq a = seq b) : a = b := by
  obtain ⟨before, rest, rfl⟩ := List.append_of_mem ha
  obtain ⟨-, hrest, hbefore⟩ := List.pairwise_append.mp h
  rcases List.mem_append.mp hb with hb | hb
  · have hlt := hbefore b hb a List.mem_cons_self
    omega
  · rcases List.mem_cons.mp hb with rfl | hb
    · rfl
    · have hlt := List.rel_of_pairwise_cons hrest hb
      omega

/-- What lies before an entry are the entries with a lower position. -/
theorem Ordered.mem_take_of_lt (h : Ordered seq log) {i : Nat} (hi : i < log.length) {b : α}
    (hb : b ∈ log) (hseq : seq b < seq log[i]) : b ∈ log.take i := by
  rw [← List.take_append_drop i log, List.drop_eq_getElem_cons hi] at hb
  have hsplit : Ordered seq (log.take i ++ log[i] :: log.drop (i + 1)) := by
    rwa [← List.drop_eq_getElem_cons hi, List.take_append_drop]
  rcases List.mem_append.mp hb with hb | hb
  · exact hb
  · rcases List.mem_cons.mp hb with rfl | hb
    · omega
    · have hlater := List.rel_of_pairwise_cons (List.pairwise_append.mp hsplit).2.1 hb
      omega

/-- What has been seen is not ahead. -/
theorem Ordered.not_isAfter_lastSeen (h : Ordered seq log) (after : Option Nat) {a : α}
    (ha : a ∈ log) :
    ¬ isAfter seq (lastSeen seq after log) a = true := by
  have hne : log ≠ [] := List.ne_nil_of_mem ha
  obtain ⟨done, last, rfl⟩ := List.eq_nil_or_concat log |>.resolve_left hne
  rw [lastSeen, List.concat_eq_append, List.getLast?_concat, Option.map_some, Option.some_or]
  simp only [isAfter, decide_eq_true_eq, Nat.not_lt]
  rw [List.concat_eq_append] at ha h
  rcases List.mem_append.mp ha with ha | ha
  · exact Nat.le_of_lt ((List.pairwise_append.mp h).2.2 a ha last (List.mem_singleton_self last))
  · rw [List.mem_singleton.mp ha]

/-- An entry ahead of the last position seen can be added. -/
theorem Ordered.append (h : Ordered seq log) (after : Option Nat) {more : List α}
    (hmore : Ordered seq more)
    (hafter : ∀ a ∈ more, isAfter seq (lastSeen seq after log) a = true) :
    Ordered seq (log ++ more) := by
  refine List.pairwise_append.mpr ⟨h, hmore, ?_⟩
  intro a ha b hb
  have hnot := h.not_isAfter_lastSeen after ha
  have hb' := hafter b hb
  cases hlast : lastSeen seq after log with
  | none =>
    rw [hlast] at hnot
    exact absurd rfl hnot
  | some n =>
    rw [hlast] at hnot hb'
    simp only [isAfter, decide_eq_true_eq] at hnot hb'
    omega

namespace Follower

variable {f f' : Follower α} {a : α}

theorem tracks_start (log fed : List α) (reached : Nat) (after : Option Nat) :
    (start after).Tracks seq log fed reached := by
  constructor
  · exact .nil
  · rintro a ⟨⟩
  · exact fun a _ ha _ => ha
  · rintro ⟨⟩

/-- What is ahead of the follower comes after where it started. -/
theorem Tracks.isAfter_of_ahead (h : f.Tracks seq log fed reached)
    (ha : isAfter seq (f.cursor seq) a = true) : isAfter seq f.after a = true := by
  unfold cursor lastSeen at ha
  cases hlast : f.seen.getLast? with
  | none => rwa [hlast, Option.map_none, Option.none_or] at ha
  | some last =>
    rw [hlast, Option.map_some, Option.some_or] at ha
    exact isAfter_trans (h.logged last (List.mem_of_getLast? hlast)).2 ha

/-- A new entry at the end of the log is ahead of the follower, whether it is fed or not. -/
theorem Tracks.grow (h : f.Tracks seq log fed reached) (hnew : ∀ b ∈ log, seq b < seq a)
    (hreached : reached ≤ fed.length) {more : List α} (hmore : ∀ b ∈ more, b = a) :
    f.Tracks seq (log ++ [a]) (fed ++ more) reached := by
  refine ⟨h.ordered, fun b hb => ?_, fun b hb hafter hunseen => ?_, fun hfollowing b hb => ?_⟩
  · exact ⟨List.mem_append_left _ (h.logged b hb).1, (h.logged b hb).2⟩
  · rcases List.mem_append.mp hb with hb | hb
    · exact h.ahead b hb hafter hunseen
    · rw [hmore b hb] at hafter ⊢
      unfold cursor lastSeen
      cases hlast : f.seen.getLast? with
      | none => rwa [Option.map_none, Option.none_or]
      | some last =>
        rw [Option.map_some, Option.some_or]
        exact decide_eq_true (hnew last (h.logged last (List.mem_of_getLast? hlast)).1)
  · rw [List.take_append_of_le_length hreached] at hb
    exact h.passed hfollowing b hb

/-- A page of the log: what is left of the log comes after its last entry. -/
theorem Tracks.turnPage (h : f.Tracks seq log fed reached) (hlog : Ordered seq log)
    (hfed : fed.Sublist log) {limit : Nat} (hlimit : limit ≠ 0)
    (hstep : f.turnPage (page seq log (f.cursor seq) limit) = some f') :
    f'.Tracks seq log fed reached := by
  unfold Follower.turnPage at hstep
  split at hstep
  · cases hstep
  · next hfollowing =>
    split at hstep
    · next hempty =>
      cases hstep
      refine ⟨h.ordered, h.logged, h.ahead, fun _ a ha hafter => ?_⟩
      have hnone : log.filter (isAfter seq (f.cursor seq)) = [] :=
        (List.take_eq_nil_iff.mp (List.isEmpty_iff.mp hempty)).resolve_left hlimit
      have hmem := List.mem_of_mem_take ha
      by_contra hunseen
      have hahead := h.ahead a hmem hafter hunseen
      exact List.filter_eq_nil_iff.mp hnone a (hfed.subset hmem) hahead
    · next hentries =>
      cases hstep
      have hpage : ∀ a ∈ page seq log (f.cursor seq) limit,
          a ∈ log ∧ isAfter seq (f.cursor seq) a = true := fun a ha =>
        List.mem_filter.mp (List.mem_of_mem_take ha)
      have hordered : Ordered seq (page seq log (f.cursor seq) limit) :=
        List.Pairwise.sublist (List.take_sublist _ _) (hlog.filter _)
      obtain ⟨last, hlast⟩ : ∃ last, (page seq log (f.cursor seq) limit).getLast? = some last :=
        Option.ne_none_iff_exists'.mp fun hnone =>
          hentries (List.isEmpty_iff.mpr (List.getLast?_eq_none_iff.mp hnone))
      refine ⟨h.ordered.append f.after hordered fun a ha => (hpage a ha).2, fun a ha => ?_,
        fun a ha hafter hunseen => ?_, fun hyes => absurd hyes hfollowing⟩
      · rcases List.mem_append.mp ha with ha | ha
        · exact h.logged a ha
        · exact ⟨(hpage a ha).1, h.isAfter_of_ahead (hpage a ha).2⟩
      · rw [List.mem_append, not_or] at hunseen
        have hahead := h.ahead a ha hafter hunseen.1
        have hrest : a ∈ (log.filter (isAfter seq (f.cursor seq))).drop limit := by
          have hmem := List.mem_filter.mpr ⟨hfed.subset ha, hahead⟩
          rw [← List.take_append_drop limit (log.filter _)] at hmem
          exact (List.mem_append.mp hmem).resolve_left hunseen.2
        rw [← filter_isAfter_last hlog hlast] at hrest
        have hcursor : lastSeen seq f.after (f.seen ++ page seq log (f.cursor seq) limit) =
            some (seq last) := by
          rw [lastSeen, List.getLast?_append, hlast, Option.some_or, Option.map_some,
            Option.some_or]
        rw [cursor, hcursor]
        exact (List.mem_filter.mp hrest).2

/-- An entry of the feed: what the feed has passed is seen, what is unseen lies behind it. -/
theorem Tracks.take (h : f.Tracks seq log fed reached) (hlog : Ordered seq log)
    (hfed : fed.Sublist log) {reading : Reading α} {reached' : Nat}
    (hread : Covers fed reached [reading] reached') (hstep : f.take seq reading = some f') :
    f'.Tracks seq log fed reached' := by
  unfold Follower.take at hstep
  split at hstep
  · next hfollowing =>
    cases hread with
    | lagged _ _ =>
      cases hstep
      exact ⟨h.ordered, h.logged, h.ahead, fun hno => absurd hno Bool.false_ne_true⟩
    | @value _ _ a _ hget hnil =>
      cases hnil
      obtain ⟨hlt, rfl⟩ := List.getElem?_eq_some_iff.mp hget
      have hmem : fed[reached] ∈ fed := List.getElem_mem hlt
      have htake : fed.take (reached + 1) = fed.take reached ++ [fed[reached]] :=
        List.take_succ_eq_append_getElem hlt
      dsimp only at hstep
      split at hstep
      · next hnew =>
        cases hstep
        have hordered : Ordered seq fed := List.Pairwise.sublist hfed hlog
        refine ⟨h.ordered.append f.after (List.pairwise_singleton _ _) ?_, fun b hb => ?_,
          fun b hb hafter hunseen => ?_, fun _ b hb hafter => ?_⟩
        · intro b hb
          rwa [List.mem_singleton.mp hb]
        · rcases List.mem_append.mp hb with hb | hb
          · exact h.logged b hb
          · rw [List.mem_singleton.mp hb]
            exact ⟨hfed.subset hmem, h.isAfter_of_ahead hnew⟩
        · rw [List.mem_append, not_or, List.mem_singleton] at hunseen
          rw [cursor, lastSeen, List.getLast?_concat, Option.map_some, Option.some_or]
          apply decide_eq_true
          by_contra hle
          by_cases hseq : seq b = seq fed[reached]
          · exact hunseen.2 (hlog.eq_of_seq_eq (hfed.subset hb) (hfed.subset hmem) hseq)
          · exact hunseen.1 (h.passed hfollowing b (hordered.mem_take_of_lt hlt hb (by omega)) hafter)
        · rw [htake] at hb
          rcases List.mem_append.mp hb with hb | hb
          · exact List.mem_append_left _ (h.passed hfollowing b hb hafter)
          · exact List.mem_append_right _ hb
      · next hold =>
        cases hstep
        refine ⟨h.ordered, h.logged, h.ahead, fun _ b hb hafter => ?_⟩
        rw [htake] at hb
        rcases List.mem_append.mp hb with hb | hb
        · exact h.passed hfollowing b hb hafter
        · rw [List.mem_singleton.mp hb] at hafter ⊢
          by_contra hunseen
          exact hold (h.ahead _ hmem hafter hunseen)
  · cases hstep

/-- What has been seen is a part of the log after the start, in order. -/
theorem Tracks.sublist (h : f.Tracks seq log fed reached) (hlog : Ordered seq log) :
    f.seen.Sublist (log.filter (isAfter seq f.after)) :=
  h.ordered.sublist_of_mem (hlog.filter _) fun a ha => List.mem_filter.mpr (h.logged a ha)

/-- When the feed misses nothing, what has been seen and what is ahead make up the log after the
start. -/
theorem Tracks.seen_append_ahead (h : f.Tracks seq log log reached) (hlog : Ordered seq log) :
    f.seen ++ log.filter (isAfter seq (f.cursor seq)) = log.filter (isAfter seq f.after) := by
  have hahead : ∀ a ∈ log.filter (isAfter seq (f.cursor seq)),
      isAfter seq (lastSeen seq f.after f.seen) a = true := fun a ha => (List.mem_filter.mp ha).2
  refine (h.ordered.append f.after (hlog.filter _) hahead).ext (hlog.filter _) fun a => ?_
  rw [List.mem_append, List.mem_filter, List.mem_filter]
  constructor
  · rintro (ha | ⟨hmem, ha⟩)
    · exact h.logged a ha
    · exact ⟨hmem, h.isAfter_of_ahead ha⟩
  · rintro ⟨hmem, hafter⟩
    by_cases hseen : a ∈ f.seen
    · exact .inl hseen
    · exact .inr ⟨hmem, h.ahead a hmem hafter hseen⟩

end Follower

end Paging
