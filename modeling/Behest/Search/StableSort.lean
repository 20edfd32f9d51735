import Mathlib.Data.List.Sort

/-!
# Sorting by a key

Lists sorted by a key, and insertion into them. Elements with the same key keep their order, which
together with the order of the keys leaves one list only.
-/

namespace Behest

variable {α κ : Type} [LinearOrder κ] {key : α → κ}

/-- Distinct keys leave only one order. -/
theorem eq_of_perm_of_sorted {l₁ l₂ : List α} (h : l₁.Perm l₂) (hkeys : (l₂.map key).Nodup)
    (h₁ : l₁.Pairwise fun a b => key a ≤ key b) (h₂ : l₂.Pairwise fun a b => key a ≤ key b) :
    l₁ = l₂ := by
  refine h.eq_of_pairwise (fun a b ha hb hab hba => ?_) h₁ h₂
  exact List.inj_on_of_nodup_map hkeys (h.mem_iff.mp ha) hb (le_antisymm hab hba)

/-- The elements of each key, in their order, make up a sorted list. -/
theorem eq_of_sorted_of_ties {l₁ l₂ : List α} (h₁ : l₁.Pairwise fun a b => key a ≤ key b)
    (h₂ : l₂.Pairwise fun a b => key a ≤ key b)
    (h : ∀ k, (l₁.filter fun a => key a = k) = l₂.filter fun a => key a = k) : l₁ = l₂ := by
  have hmem : ∀ a, a ∈ l₁ ↔ a ∈ l₂ := by
    intro a
    have ha := congrArg (a ∈ ·) (h (key a))
    simpa using ha
  induction l₁ generalizing l₂ with
  | nil => exact (List.eq_nil_iff_forall_not_mem.mpr fun a ha => nomatch (hmem a).mpr ha).symm
  | cons a rest ih =>
    cases l₂ with
    | nil => cases (hmem a).mp (.head _)
    | cons b others =>
      rw [List.pairwise_cons] at h₁ h₂
      have hkey : key a = key b := by
        refine le_antisymm ?_ ?_
        · rcases List.mem_cons.mp ((hmem b).mpr (.head _)) with rfl | hb
          · exact le_rfl
          · exact h₁.1 b hb
        · rcases List.mem_cons.mp ((hmem a).mp (.head _)) with rfl | ha
          · exact le_rfl
          · exact h₂.1 a ha
      have hhead := h (key a)
      rw [List.filter_cons_of_pos (by simp), List.filter_cons_of_pos (by simp [hkey])] at hhead
      obtain ⟨rfl, -⟩ := List.cons.inj hhead
      have hrest : ∀ k, (rest.filter fun b => key b = k) = others.filter fun b => key b = k := by
        intro k
        have hk := h k
        by_cases hak : key a = k
        · simpa [hak] using hk
        · simpa [hak] using hk
      rw [ih h₁.2 h₂.2 hrest fun c => ?_]
      have hc := congrArg (c ∈ ·) (hrest (key c))
      simpa using hc

section InsertionSort

variable [DecidableRel fun a b : α => key a ≤ key b]

theorem pairwise_insertionSort_key (l : List α) :
    (l.insertionSort fun a b => key a ≤ key b).Pairwise fun a b => key a ≤ key b := by
  have htotal : Std.Total fun a b : α => key a ≤ key b := ⟨fun a b => le_total (key a) (key b)⟩
  have htrans : IsTrans α fun a b => key a ≤ key b := ⟨fun _ _ _ => le_trans⟩
  exact List.pairwise_insertionSort _ l

theorem filter_orderedInsert (a : α) (l : List α) (k : κ) :
    ((l.orderedInsert (fun a b => key a ≤ key b) a).filter fun b => key b = k) =
      (a :: l).filter fun b => key b = k := by
  induction l with
  | nil => rfl
  | cons b rest ih =>
    rw [List.orderedInsert]
    split
    · rfl
    · next hab =>
      by_cases hb : key b = k
      · have ha : key a ≠ k := fun ha => hab (by rw [ha, hb])
        simp [ih, ha, hb]
      · simp [ih, hb, List.filter_cons]

/-- Elements with the same key keep their order. -/
theorem filter_insertionSort (l : List α) (k : κ) :
    ((l.insertionSort fun a b => key a ≤ key b).filter fun a => key a = k) =
      l.filter fun a => key a = k := by
  induction l with
  | nil => rfl
  | cons a rest ih =>
    rw [List.insertionSort_cons, filter_orderedInsert, List.filter_cons, List.filter_cons, ih]

end InsertionSort

end Behest
