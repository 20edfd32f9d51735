import Mathlib.Data.List.Infix

/-!
# The first occurrence of a pattern

A text is cut at the first place where a pattern occurs: what stands before it, and what stands
behind it.
-/

namespace Text

/-- The part occurs in the text. -/
def contains (text part : String) : Bool := decide (part.toList <:+: text.toList)

variable {α : Type} [DecidableEq α]

/-- What stands before and behind the first occurrence. -/
def cutAt (pattern : List α) : List α → Option (List α × List α)
  | [] => if pattern.isEmpty then some ([], []) else none
  | a :: rest =>
      if pattern.isPrefixOf (a :: rest) then some ([], (a :: rest).drop pattern.length)
      else (cutAt pattern rest).map fun cut => (a :: cut.1, cut.2)

variable {pattern text before after : List α}

theorem cutAt_isSome_of_append (pattern before after : List α) :
    ∃ cut, cutAt pattern (before ++ pattern ++ after) = some cut ∧
      cut.1.length ≤ before.length := by
  induction before with
  | nil =>
    rw [List.nil_append]
    cases htext : pattern ++ after with
    | nil =>
      rw [(List.append_eq_nil_iff.mp htext).1]
      exact ⟨([], []), rfl, Nat.le_refl _⟩
    | cons a rest =>
      rw [cutAt, if_pos (List.isPrefixOf_iff_prefix.mpr (htext ▸ List.prefix_append ..))]
      exact ⟨_, rfl, Nat.le_refl _⟩
  | cons a before ih =>
    obtain ⟨cut, hcut, hle⟩ := ih
    rw [List.cons_append, List.cons_append, cutAt]
    split
    · exact ⟨_, rfl, Nat.zero_le _⟩
    · rw [hcut]
      exact ⟨_, rfl, Nat.succ_le_succ hle⟩

theorem eq_of_cutAt (h : cutAt pattern text = some (before, after)) :
    text = before ++ pattern ++ after := by
  induction text generalizing before with
  | nil =>
    rw [cutAt] at h
    split at h
    · next hempty =>
      obtain ⟨rfl, rfl⟩ := Prod.mk.inj (Option.some.inj h)
      rw [List.isEmpty_iff.mp hempty]
      rfl
    · cases h
  | cons a rest ih =>
    rw [cutAt] at h
    split at h
    · next hprefix =>
      obtain ⟨rfl, rfl⟩ := Prod.mk.inj (Option.some.inj h)
      obtain ⟨more, hmore⟩ := List.isPrefixOf_iff_prefix.mp hprefix
      rw [← hmore, List.drop_left, List.nil_append]
    · obtain ⟨cut, hcut, heq⟩ := Option.map_eq_some_iff.mp h
      obtain ⟨rfl, rfl⟩ := Prod.mk.inj heq
      rw [ih hcut]
      rfl

/-- The cut is at the first occurrence. -/
theorem length_le_of_cutAt (h : cutAt pattern text = some (before, after))
    {before' after' : List α} (htext : text = before' ++ pattern ++ after') :
    before.length ≤ before'.length := by
  obtain ⟨cut, hcut, hle⟩ := cutAt_isSome_of_append pattern before' after'
  rw [← htext, h] at hcut
  rwa [← Option.some.inj hcut] at hle

/-- A cut is the first one exactly when no occurrence starts before it. -/
theorem cutAt_eq_some_iff :
    cutAt pattern text = some (before, after) ↔ text = before ++ pattern ++ after ∧
      ∀ before' after', text = before' ++ pattern ++ after' → before.length ≤ before'.length := by
  constructor
  · exact fun h => ⟨eq_of_cutAt h, fun _ _ => length_le_of_cutAt h⟩
  · rintro ⟨htext, hfirst⟩
    obtain ⟨⟨before', after'⟩, hcut, hle⟩ :=
      cutAt_isSome_of_append pattern before after
    rw [← htext] at hcut
    have hlength := Nat.le_antisymm hle (hfirst before' after' (eq_of_cutAt hcut))
    have hsame := htext.symm.trans (eq_of_cutAt hcut)
    rw [List.append_assoc, List.append_assoc] at hsame
    obtain ⟨rfl, hrest⟩ := List.append_inj hsame hlength.symm
    rw [hcut, List.append_cancel_left hrest]

/-- A character that is not in the part ends what can start with it. -/
theorem isPrefixOf_append_cons {part line rest : List α} {sep : α} (hsep : sep ∉ part) :
    part.isPrefixOf (line ++ sep :: rest) = part.isPrefixOf line := by
  rw [Bool.eq_iff_iff, List.isPrefixOf_iff_prefix, List.isPrefixOf_iff_prefix]
  refine ⟨fun h => ?_, fun h => h.trans (List.prefix_append _ _)⟩
  rcases List.prefix_or_prefix_of_prefix h (List.prefix_append line (sep :: rest)) with
    hpart | ⟨x, rfl⟩
  · exact hpart
  · cases x with
    | nil => rw [List.append_nil]
    | cons a x =>
      obtain ⟨rfl, -⟩ := List.cons_prefix_cons.mp ((List.prefix_append_right_inj _).mp h)
      exact absurd (List.mem_append_right _ List.mem_cons_self) hsep

/-- A pattern is found behind a text in which its first character does not occur. -/
theorem cutAt_of_not_mem {a : α} (hbefore : a ∉ before) (pattern after : List α) :
    cutAt (a :: pattern) (before ++ a :: (pattern ++ after)) = some (before, after) := by
  induction before with
  | nil =>
    rw [List.nil_append, cutAt, if_pos, List.length_cons, List.drop_succ_cons, List.drop_left]
    rw [List.isPrefixOf_iff_prefix, ← List.cons_append]
    exact List.prefix_append _ _
  | cons b before ih =>
    have hb : a ≠ b := fun h => hbefore (h ▸ List.mem_cons_self)
    rw [List.cons_append, cutAt, if_neg, ih fun h => hbefore (List.mem_cons_of_mem _ h)]
    · rfl
    · rw [List.isPrefixOf_iff_prefix, List.cons_prefix_cons]
      exact fun h => hb h.1

end Text
