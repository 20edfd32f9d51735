import Mathlib.Data.Nat.Basic
import Behest.Journal.Offsets
import Behest.Search.Binary

/-!
# Incremental persistence

A host saves a journal by exporting, from time to time, the entries since its last export
(`behest-core/src/journal.rs`). The exports in a row are the journal.
-/

namespace Behest

namespace Journal

/-- Source: `behest-core/src/journal.rs:229–233`. -/
def entriesSince (j : Journal) (offset : Nat) : List LogEntry :=
  j.entries.drop (Search.position (Search.binarySearchByKey LogEntry.offset offset j.entries))

/-- In a journal whose offsets grow, the search finds the entries at or behind an offset. -/
theorem Ordered.entriesSince_eq {j : Journal} (h : j.Ordered) (offset : Nat) :
    j.entriesSince offset = j.entries.filter fun e => decide (offset ≤ e.offset) :=
  Search.drop_position h.sorted

end Journal

open Journal

/-- What happens to a journal that is saved incrementally. -/
inductive SaveStep where
  | record (now : Nat) (event : SessionEvent)
  | persist

/-- A journal, the next offset at its last persistence point, and its exports so far. -/
structure Saving where
  journal : Journal
  point : Nat
  exports : List (List LogEntry)

namespace Saving

def start : Saving := ⟨.new, 0, []⟩

def step (s : Saving) : SaveStep → Saving
  | .record now event => { s with journal := s.journal.record now event }
  | .persist => ⟨s.journal, s.journal.nextOffset, s.exports ++ [s.journal.entriesSince s.point]⟩

def run (s : Saving) (steps : List SaveStep) : Saving := steps.foldl step s

/-- What was exported lies below the last persistence point. -/
structure Saved (s : Saving) : Prop where
  ordered : s.journal.Ordered
  point : s.point ≤ s.journal.nextOffset
  exports : s.exports.flatten = s.journal.entries.filter fun e => decide (e.offset < s.point)

theorem saved_start : start.Saved := ⟨ordered_new, Nat.le_refl _, rfl⟩

/-- At a persistence point everything is exported. -/
theorem Saved.flatten_persist {s : Saving} (h : s.Saved) :
    (s.step .persist).exports.flatten = s.journal.entries := by
  rw [step, List.flatten_append, List.flatten_singleton, h.exports, h.ordered.entriesSince_eq]
  exact Search.filter_append_filter h.ordered.sorted s.point

theorem Saved.step {s : Saving} (h : s.Saved) (t : SaveStep) : (s.step t).Saved := by
  cases t with
  | record now event =>
    refine ⟨h.ordered.record now event, Nat.le_succ_of_le h.point, ?_⟩
    change s.exports.flatten =
      (s.journal.entries ++ [(⟨s.journal.nextOffset, now, event⟩ : LogEntry)]).filter
      fun e => decide (e.offset < s.point)
    rw [List.filter_append, List.filter_cons_of_neg (by simpa using h.point), List.filter_nil,
      List.append_nil, h.exports]
  | persist =>
    refine ⟨h.ordered, Nat.le_refl _, ?_⟩
    rw [h.flatten_persist]
    exact (List.filter_eq_self.mpr fun e he => decide_eq_true (h.ordered.lt_nextOffset he)).symm

theorem saved_run (steps : List SaveStep) : (start.run steps).Saved :=
  List.foldlRecOn steps Saving.step saved_start fun _ h t _ => h.step t

/-- At every persistence point the exports make up the journal, and restore it. -/
theorem restored_run (steps : List SaveStep) :
    let s := start.run (steps ++ [.persist])
    s.exports.flatten = s.journal.entries ∧
      (fromEntries s.exports.flatten).entries = s.journal.entries ∧
      (fromEntries s.exports.flatten).nextOffset = s.journal.nextOffset ∧
      ∀ checkpoints, (fromEntries s.exports.flatten).buildPrompt checkpoints =
        s.journal.buildPrompt checkpoints := by
  intro s
  have hs : s = (start.run steps).step .persist := List.foldl_concat ..
  have hflatten : s.exports.flatten = s.journal.entries := by
    rw [hs]
    exact (saved_run steps).flatten_persist
  have hordered : s.journal.Ordered := by
    rw [hs]
    exact (saved_run steps).ordered
  rw [hflatten, hordered.restored]
  exact ⟨rfl, rfl, rfl, fun _ => rfl⟩

end Saving

end Behest
