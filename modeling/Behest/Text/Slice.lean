import Mathlib.Data.List.Infix
import Mathlib.Data.String.Basic

/-!
# Slices at byte offsets

Texts are cut at offsets into their UTF-8 encoding, and only between two characters. The text in
front of an offset, and the last offset before a given one at which a text may be cut.
-/

namespace Text

open String (utf8Len)

/-- Whether the offset lies between two characters. -/
def isCharBoundary : List Char → Nat → Bool
  | _, 0 => true
  | [], _ + 1 => false
  | c :: rest, n + 1 => decide (c.utf8Size ≤ n + 1) && isCharBoundary rest (n + 1 - c.utf8Size)

/-- The last boundary at or before the offset. -/
def floorCharBoundary (text : List Char) : Nat → Nat
  | 0 => 0
  | n + 1 => if isCharBoundary text (n + 1) then n + 1 else floorCharBoundary text n

/-- The characters that end at or before the offset. -/
def sliceTo : List Char → Nat → List Char
  | [], _ => []
  | c :: rest, n => if c.utf8Size ≤ n then c :: sliceTo rest (n - c.utf8Size) else []

variable {text front : List Char} {n : Nat}

theorem utf8Len_replicate (count : Nat) (c : Char) :
    utf8Len (List.replicate count c) = count * c.utf8Size := by
  induction count with
  | zero => simp
  | succ count ih => rw [List.replicate_succ, String.utf8Len_cons, ih, Nat.succ_mul]

/-- What is no longer than a front of the text is a front of that. -/
theorem prefix_of_utf8Len_le {rest : List Char} (h : front <+: text ++ rest)
    (hle : utf8Len front ≤ utf8Len text) : front <+: text := by
  rcases List.prefix_or_prefix_of_prefix h (List.prefix_append text rest) with hfront | ⟨more, rfl⟩
  · exact hfront
  · rw [String.utf8Len_append] at hle
    have hnil : more = [] := String.utf8Len_eq_zero.mp (by omega)
    rw [hnil, List.append_nil]

theorem isCharBoundary_iff :
    isCharBoundary text n = true ↔ ∃ front, front <+: text ∧ utf8Len front = n := by
  constructor
  · intro h
    induction text, n using isCharBoundary.induct with
    | case1 text => exact ⟨[], List.nil_prefix, rfl⟩
    | case2 n => simp [isCharBoundary] at h
    | case3 c rest n ih =>
      simp only [isCharBoundary, Bool.and_eq_true, decide_eq_true_eq] at h
      obtain ⟨front, hinitial, hlength⟩ := ih h.2
      refine ⟨c :: front, List.cons_prefix_cons.mpr ⟨rfl, hinitial⟩, ?_⟩
      rw [String.utf8Len_cons, hlength]
      exact Nat.sub_add_cancel h.1
  · rintro ⟨front, hinitial, rfl⟩
    induction front generalizing text with
    | nil => simp [isCharBoundary]
    | cons c front ih =>
      obtain ⟨rest, rfl, hrest⟩ := List.cons_prefix_iff.mp hinitial
      have hpos := c.utf8Size_pos
      obtain ⟨k, hk⟩ : ∃ k, utf8Len (c :: front) = k + 1 :=
        ⟨utf8Len (c :: front) - 1, by rw [String.utf8Len_cons]; omega⟩
      have hrest' : k + 1 - c.utf8Size = utf8Len front := by
        rw [← hk, String.utf8Len_cons, Nat.add_sub_cancel]
      rw [hk, isCharBoundary, hrest', ih hrest, Bool.and_true, decide_eq_true_eq, ← hk]
      exact Nat.le_add_left ..

theorem floorCharBoundary_le : floorCharBoundary text n ≤ n := by
  induction n with
  | zero => exact Nat.le_refl 0
  | succ n ih =>
    rw [floorCharBoundary]
    split
    · exact Nat.le_refl _
    · exact Nat.le_succ_of_le ih

theorem le_floorCharBoundary (hinitial : front <+: text) (hle : utf8Len front ≤ n) :
    utf8Len front ≤ floorCharBoundary text n := by
  induction n with
  | zero => exact hle
  | succ n ih =>
    rw [floorCharBoundary]
    split
    · exact hle
    · next h =>
      have hne : utf8Len front ≠ n + 1 := fun heq =>
        h (isCharBoundary_iff.mpr ⟨front, hinitial, heq⟩)
      exact ih (by omega)

/-- What a slice holds: the fronts of the text that are short enough. -/
theorem prefix_sliceTo_iff : front <+: sliceTo text n ↔ front <+: text ∧ utf8Len front ≤ n := by
  induction text generalizing front n with
  | nil =>
    rw [sliceTo, List.prefix_nil]
    exact ⟨fun h => ⟨h, by simp [h]⟩, fun h => h.1⟩
  | cons c rest ih =>
    cases front with
    | nil => simp
    | cons d front =>
      rw [sliceTo]
      split
      · next hfits =>
        rw [List.cons_prefix_cons, List.cons_prefix_cons, ih, String.utf8Len_cons]
        constructor
        · rintro ⟨rfl, hinitial, hle⟩
          exact ⟨⟨rfl, hinitial⟩, by omega⟩
        · rintro ⟨⟨rfl, hinitial⟩, hle⟩
          exact ⟨rfl, hinitial, by omega⟩
      · next hlong =>
        rw [List.cons_prefix_cons, String.utf8Len_cons]
        constructor
        · intro h
          simpa using h.length_le
        · rintro ⟨⟨rfl, -⟩, hle⟩
          omega

/-- The text in front of the last boundary is all of it that ends before the offset. -/
theorem sliceTo_floorCharBoundary :
    sliceTo text (floorCharBoundary text n) = sliceTo text n := by
  have hfloor : sliceTo text (floorCharBoundary text n) <+: sliceTo text n := by
    obtain ⟨hinitial, hle⟩ :=
      prefix_sliceTo_iff.mp (List.prefix_refl (sliceTo text (floorCharBoundary text n)))
    exact prefix_sliceTo_iff.mpr ⟨hinitial, hle.trans floorCharBoundary_le⟩
  have hall : sliceTo text n <+: sliceTo text (floorCharBoundary text n) := by
    obtain ⟨hinitial, hle⟩ := prefix_sliceTo_iff.mp (List.prefix_refl (sliceTo text n))
    exact prefix_sliceTo_iff.mpr ⟨hinitial, le_floorCharBoundary hinitial hle⟩
  exact hfloor.eq_of_length_le hall.length_le

/-- A text occurs in a slice when it occurs in front of the offset. -/
theorem infix_sliceTo_iff {needle : List Char} : needle <:+: sliceTo text n ↔
    ∃ front, front ++ needle <+: text ∧ utf8Len (front ++ needle) ≤ n := by
  constructor
  · rintro ⟨front, rest, h⟩
    exact ⟨front, prefix_sliceTo_iff.mp ⟨rest, h⟩⟩
  · rintro ⟨front, h⟩
    exact (List.suffix_append front needle).isInfix.trans (prefix_sliceTo_iff.mpr h).isInfix

/-- What is appended does not help a needle that shares no character with it. -/
theorem infix_append_of_disjoint {α : Type*} {needle kept more : List α}
    (h : ∀ c ∈ more, c ∉ needle) (hne : needle ≠ []) :
    needle <:+: kept ++ more ↔ needle <:+: kept := by
  rw [List.infix_append_iff]
  constructor
  · rintro (hkept | hmore | ⟨start, rest, rfl, hstart, hrest⟩)
    · exact hkept
    · obtain ⟨c, hc⟩ := List.exists_mem_of_ne_nil _ hne
      exact absurd hc (h c (hmore.subset hc))
    · cases rest with
      | nil => simpa using hstart.isInfix
      | cons c rest => exact absurd (by simp) (h c (hrest.subset (by simp)))
  · exact Or.inl

end Text
