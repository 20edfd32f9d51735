import Mathlib.Data.List.DropRight
import Mathlib.Data.List.Infix

/-!
# Trimming

A text without the characters of some kind at its two ends: it is a part of the text, it does not
change when it is trimmed again, and what stands between two characters of another kind stays.
-/

namespace Text

variable {α : Type} (p : α → Bool)

/-- The text without the characters of the kind at its ends. -/
def trimBy (text : List α) : List α := ((text.dropWhile p).reverse.dropWhile p).reverse

variable {p} {text : List α}

@[simp] theorem trimBy_nil : trimBy p ([] : List α) = [] := rfl

theorem trimBy_part (text : List α) : trimBy p text <:+: text := by
  have hinner : trimBy p text <+: text.dropWhile p := by
    rw [← List.reverse_suffix, trimBy, List.reverse_reverse]
    exact List.dropWhile_suffix _
  exact hinner.isInfix.trans (List.dropWhile_suffix _).isInfix

theorem length_trimBy_le (text : List α) : (trimBy p text).length ≤ text.length :=
  (trimBy_part text).length_le

/-- A trimmed text does not start with a character of the kind, nor does it end with one. -/
theorem trimBy_ends (text : List α) :
    (∀ a ∈ (trimBy p text).head?, p a = false) ∧ ∀ a ∈ (trimBy p text).getLast?, p a = false := by
  have hfront : ∀ l : List α, ∀ a ∈ (l.dropWhile p).head?, p a = false := by
    intro l a ha
    have hhead := List.head?_dropWhile_not p l
    rw [ha] at hhead
    simpa using hhead
  refine ⟨fun a ha => ?_, fun a ha => ?_⟩
  · have hprefix : trimBy p text <+: text.dropWhile p := by
      rw [← List.reverse_suffix, trimBy, List.reverse_reverse]
      exact List.dropWhile_suffix _
    obtain ⟨more, hmore⟩ := hprefix
    refine hfront text a ?_
    rw [← hmore, List.head?_append, ha]
    rfl
  · rw [trimBy, List.getLast?_reverse] at ha
    exact hfront _ a ha

/-- What neither starts nor ends with a character of the kind is trimmed. -/
theorem trimBy_eq_self (hhead : ∀ a ∈ text.head?, p a = false)
    (hlast : ∀ a ∈ text.getLast?, p a = false) : trimBy p text = text := by
  have hdrop : ∀ {l : List α}, (∀ a ∈ l.head?, p a = false) → l.dropWhile p = l := by
    intro l hl
    cases l with
    | nil => rfl
    | cons a rest => rw [List.dropWhile_cons, if_neg (by simp [hl a rfl])]
  rw [trimBy, hdrop hhead, hdrop (by rwa [List.head?_reverse]), List.reverse_reverse]

theorem trimBy_eq_self_iff :
    trimBy p text = text ↔ ∀ a, a ∈ text.head? ∨ a ∈ text.getLast? → p a = false := by
  constructor
  · intro h a ha
    obtain ⟨hhead, hlast⟩ := trimBy_ends (p := p) text
    rw [h] at hhead hlast
    exact ha.elim (hhead a) (hlast a)
  · exact fun h => trimBy_eq_self (fun a ha => h a (Or.inl ha)) fun a ha => h a (Or.inr ha)

/-- A text stays under two trimmings when it stays under each. -/
theorem trimBy_comp_eq_self_iff {q : α → Bool} :
    trimBy q (trimBy p text) = text ↔ trimBy p text = text ∧ trimBy q text = text := by
  constructor
  · intro h
    have hinner : trimBy p text = text := by
      refine (trimBy_part text).eq_of_length (Nat.le_antisymm (length_trimBy_le text) ?_)
      calc text.length = (trimBy q (trimBy p text)).length := by rw [h]
        _ ≤ (trimBy p text).length := length_trimBy_le _
    rw [hinner] at h
    exact ⟨hinner, h⟩
  · rintro ⟨hp, hq⟩
    rw [hp, hq]

/-- Characters of the kind in front of a text are trimmed. -/
theorem trimBy_append_left {front : List α} (hfront : ∀ a ∈ front, p a = true) (text : List α) :
    trimBy p (front ++ text) = trimBy p text := by
  rw [trimBy, List.dropWhile_append_of_pos hfront, trimBy]

theorem trimBy_append_right {back : List α} (hback : ∀ a ∈ back, p a = true) (text : List α) :
    trimBy p (text ++ back) = trimBy p text := by
  rw [trimBy, List.dropWhile_append]
  split
  · next hempty =>
    rw [List.dropWhile_eq_nil_iff.mpr hback, trimBy, List.isEmpty_iff.mp hempty]
  · rw [List.reverse_append,
      List.dropWhile_append_of_pos fun a ha => hback a (List.mem_reverse.mp ha), trimBy]

theorem trimBy_dropWhile {q : α → Bool} (hq : ∀ a, q a = true → p a = true) (text : List α) :
    trimBy p (text.dropWhile q) = trimBy p text := by
  conv_rhs => rw [← List.takeWhile_append_dropWhile (p := q) (l := text)]
  exact (trimBy_append_left (fun a ha => hq a (List.mem_takeWhile_imp ha)) _).symm

theorem trimBy_rdropWhile (text : List α) : trimBy p (text.rdropWhile p) = trimBy p text := by
  conv_rhs => rw [← List.rdropWhile_append_rtakeWhile (p := p) (l := text)]
  exact (trimBy_append_right (fun _ => List.mem_rtakeWhile_imp) _).symm

theorem trimBy_eq_nil_iff : trimBy p text = [] ↔ ∀ a ∈ text, p a = true := by
  constructor
  · intro h
    rw [← List.dropWhile_eq_nil_iff, List.eq_nil_iff_forall_not_mem]
    have hall : ∀ a ∈ text.dropWhile p, p a = true := List.rdropWhile_eq_nil_iff.mp h
    have hhead := List.head?_dropWhile_not p text
    cases hdrop : text.dropWhile p with
    | nil => exact fun _ => List.not_mem_nil
    | cons a rest =>
      rw [hdrop] at hall hhead
      simp [hall a List.mem_cons_self] at hhead
  · intro h
    have hall := trimBy_append_left h []
    rwa [List.append_nil, trimBy_nil] at hall

/-- Behind what is trimmed already, a text is trimmed at its end only. -/
theorem trimBy_append_of_trimmed {front : List α} (hne : front ≠ [])
    (hfront : trimBy p front = front) (text : List α) :
    trimBy p (front ++ text) = front ++ text.rdropWhile p := by
  obtain ⟨hhead, hlast⟩ := trimBy_ends (p := p) front
  rw [hfront] at hhead hlast
  have hkept : front.reverse.dropWhile p = front.reverse := by
    cases hreverse : front.reverse with
    | nil => rfl
    | cons b rest =>
      refine List.dropWhile_cons_of_neg ?_
      rw [hlast b (by rw [List.getLast?_eq_head?_reverse, hreverse]; rfl)]
      exact Bool.false_ne_true
  have hdrop : (front ++ text).dropWhile p = front ++ text := by
    cases front with
    | nil => exact absurd rfl hne
    | cons a rest =>
      rw [List.cons_append, List.dropWhile_cons_of_neg]
      rw [hhead a rfl]
      exact Bool.false_ne_true
  rw [trimBy, hdrop, List.reverse_append, List.dropWhile_append, hkept, List.rdropWhile]
  split
  · next hempty => rw [List.isEmpty_iff.mp hempty, List.reverse_reverse, List.reverse_nil,
      List.append_nil]
  · rw [List.reverse_append, List.reverse_reverse]

/-- What stands between two characters of another kind stays. -/
theorem infix_trimBy (before middle after : List α) {a b : α} (ha : p a = false)
    (hb : p b = false) :
    a :: (middle ++ [b]) <:+: trimBy p (before ++ a :: (middle ++ b :: after)) := by
  have hdrop : ∀ (l : List α) {c : α} (rest : List α), p c = false →
      ∃ more, (l ++ c :: rest).dropWhile p = more ++ c :: rest := by
    intro l c rest hc
    induction l with
    | nil => exact ⟨[], by simp [hc]⟩
    | cons d l ih =>
      obtain ⟨more, hmore⟩ := ih
      rw [List.cons_append, List.dropWhile_cons]
      split
      · exact ⟨more, hmore⟩
      · exact ⟨d :: l, rfl⟩
  obtain ⟨front, hfront⟩ := hdrop before (middle ++ b :: after) ha
  have hreverse : (front ++ a :: (middle ++ b :: after)).reverse =
      after.reverse ++ b :: (middle.reverse ++ a :: front.reverse) := by simp
  obtain ⟨back, hback⟩ := hdrop after.reverse (middle.reverse ++ a :: front.reverse) hb
  rw [trimBy, hfront, hreverse, hback]
  exact ⟨front, back.reverse, by simp⟩

end Text
