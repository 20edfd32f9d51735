import Mathlib.Data.List.TakeWhile
import Behest.Text.Find

/-!
# The lines of a text

A text is split at a separator. A mark behind the separator is found where the first of the later
lines starts with it. What stands between two marked lines is fenced by them: the first line has
to be marked, and the first marked line behind it closes the fence.
-/

namespace Text

variable {α : Type} {sep : α}

/-- What stands before the first line stands before the text. -/
theorem intercalate_append_cons (front line : List α) (rest : List (List α)) :
    [sep].intercalate ((front ++ line) :: rest) = front ++ [sep].intercalate (line :: rest) := by
  cases rest with
  | nil => rw [List.intercalate_singleton, List.intercalate_singleton]
  | cons next rest =>
    rw [List.intercalate_cons_cons, List.intercalate_cons_cons, List.append_assoc,
      List.append_assoc, List.append_assoc]

variable [DecidableEq α]

theorem not_mem_of_mem_splitOn {text : List α} : ∀ line ∈ text.splitOn sep, sep ∉ line := by
  induction text with
  | nil => simp
  | cons a rest ih =>
    obtain ⟨first, lines, hlines⟩ := List.exists_cons_of_ne_nil (List.splitOn_ne_nil sep rest)
    rw [List.splitOn_cons_eq_if_modifyHead]
    rw [hlines, List.forall_mem_cons] at ih
    split
    · rw [hlines]
      exact List.forall_mem_cons.mpr ⟨List.not_mem_nil, List.forall_mem_cons.mpr ih⟩
    · next ha =>
      rw [hlines]
      refine List.forall_mem_cons.mpr ⟨fun h => ?_, ih.2⟩
      rcases List.mem_cons.mp h with rfl | h
      · exact ha (beq_self_eq_true _)
      · exact ih.1 h

/-- Lines with a text behind them are those lines, and those of the text. -/
theorem splitOn_intercalate_concat {lines : List (List α)} (hlines : ∀ line ∈ lines, sep ∉ line)
    (text : List α) :
    ([sep].intercalate (lines ++ [text])).splitOn sep = lines ++ text.splitOn sep := by
  induction lines with
  | nil => simp
  | cons line rest ih =>
    rw [List.forall_mem_cons] at hlines
    have hne : rest ++ [text] ≠ [] := List.append_ne_nil_of_right_ne_nil _ (List.cons_ne_nil _ _)
    rw [List.cons_append, List.intercalate_cons_of_ne_nil hne, List.append_assoc,
      List.singleton_append, List.splitOn_append_cons_self_of_not_mem hlines.1, ih hlines.2]
    rfl

/-- A mark starts a text when it starts the first line. -/
theorem isPrefixOf_splitOn {mark text first : List α} {rest : List (List α)} (hmark : sep ∉ mark)
    (htext : text.splitOn sep = first :: rest) : mark.isPrefixOf text = mark.isPrefixOf first := by
  rw [← @List.intercalate_splitOn _ text _ _ sep, htext]
  cases rest with
  | nil => rw [List.intercalate_singleton]
  | cons line rest =>
    rw [List.intercalate_cons_cons, List.append_assoc]
    exact isPrefixOf_append_cons hmark

/-- What is cut from the front of a text is cut from its first line. -/
theorem drop_splitOn {mark text first : List α} {rest : List (List α)}
    (htext : text.splitOn sep = first :: rest) (hfirst : mark <+: first) :
    text.drop mark.length = [sep].intercalate (first.drop mark.length :: rest) := by
  obtain ⟨line, rfl⟩ := hfirst
  rw [← @List.intercalate_splitOn _ text _ _ sep, htext, intercalate_append_cons,
    List.drop_left, List.drop_left]

/-- The first mark behind a separator is at the start of the first later line that starts with
it. -/
theorem cutAt_mark {mark text first : List α} {rest : List (List α)} (hmark : sep ∉ mark)
    (htext : text.splitOn sep = first :: rest) :
    cutAt (sep :: mark) text =
      match rest.dropWhile fun line => !mark.isPrefixOf line with
      | [] => none
      | close :: after =>
          some ([sep].intercalate (first :: rest.takeWhile fun line => !mark.isPrefixOf line),
            [sep].intercalate (close.drop mark.length :: after)) := by
  induction text generalizing first rest with
  | nil =>
    obtain ⟨rfl, rfl⟩ := List.cons.inj htext
    rfl
  | cons a text ih =>
    obtain ⟨line, lines, hlines⟩ := List.exists_cons_of_ne_nil (List.splitOn_ne_nil sep text)
    rw [List.splitOn_cons_eq_if_modifyHead, hlines] at htext
    rw [cutAt]
    by_cases ha : a = sep
    · subst ha
      rw [if_pos (beq_self_eq_true _)] at htext
      obtain ⟨rfl, rfl⟩ := List.cons.inj htext
      have hmarked : (a :: mark).isPrefixOf (a :: text) = mark.isPrefixOf line := by
        rw [List.isPrefixOf_cons_cons_self, isPrefixOf_splitOn hmark hlines]
      rw [hmarked]
      cases hline : mark.isPrefixOf line with
      | true =>
        have hdrop := drop_splitOn hlines (List.isPrefixOf_iff_prefix.mp hline)
        simp [hline, hdrop]
      | false =>
        rw [if_neg Bool.false_ne_true, ih hlines]
        simp only [List.dropWhile_cons, List.takeWhile_cons, hline, Bool.not_false, if_true]
        cases lines.dropWhile fun line => !mark.isPrefixOf line with
        | nil => rfl
        | cons close after => simp
    · rw [if_neg (by simpa using ha)] at htext
      obtain ⟨rfl, rfl⟩ := List.cons.inj htext
      have hmarked : ¬(sep :: mark).isPrefixOf (a :: text) = true := by
        rw [List.isPrefixOf_iff_prefix, List.cons_prefix_cons]
        exact fun h => ha h.1.symm
      rw [if_neg hmarked, ih hlines]
      cases lines.dropWhile fun line => !mark.isPrefixOf line with
      | nil => rfl
      | cons close after => simp

/-! ### Between two marked lines -/

structure Fenced (α : Type) where
  opening : List α
  between : List (List α)
  closing : List α
  after : List (List α)

/-- The lines between the first line and the next one that is marked like it. -/
def fenced (sep : α) (isMark : List α → Bool) (text : List α) : Option (Fenced α) :=
  match text.splitOn sep with
  | [] => none
  | opening :: rest =>
      if isMark opening then
        match rest.dropWhile fun line => !isMark line with
        | [] => none
        | closing :: after =>
            some ⟨opening, rest.takeWhile fun line => !isMark line, closing, after⟩
      else none

variable {isMark : List α → Bool} {text : List α} {f : Fenced α}

theorem fenced_of_lines {first : List α} {rest : List (List α)}
    (htext : text.splitOn sep = first :: rest) :
    fenced sep isMark text =
      if isMark first then
        match rest.dropWhile fun line => !isMark line with
        | [] => none
        | closing :: after =>
            some ⟨first, rest.takeWhile fun line => !isMark line, closing, after⟩
      else none := by
  rw [fenced, htext]

theorem fenced_eq_some_iff :
    fenced sep isMark text = some f ↔
      text.splitOn sep = f.opening :: (f.between ++ f.closing :: f.after) ∧
        isMark f.opening = true ∧ (∀ line ∈ f.between, isMark line = false) ∧
          isMark f.closing = true := by
  obtain ⟨opening, between, closing, after⟩ := f
  obtain ⟨first, rest, hlines⟩ := List.exists_cons_of_ne_nil (List.splitOn_ne_nil sep text)
  rw [fenced_of_lines hlines, hlines]
  constructor
  · intro h
    cases hfirst : isMark first with
    | false => simp [hfirst] at h
    | true =>
      cases hdrop : rest.dropWhile fun line => !isMark line with
      | nil => simp [hdrop] at h
      | cons close later =>
        have hclose : isMark close = true := by
          have hhead := List.head?_dropWhile_not (fun line => !isMark line) rest
          simpa [hdrop] using hhead
        have hrest := List.takeWhile_append_dropWhile (p := fun line => !isMark line) (l := rest)
        simp only [hfirst, hdrop, if_true, Option.some.injEq, Fenced.mk.injEq] at h
        obtain ⟨rfl, rfl, rfl, rfl⟩ := h
        rw [hdrop] at hrest
        refine ⟨by rw [hrest], hfirst, fun line hline => ?_, hclose⟩
        simpa using List.mem_takeWhile_imp hline
  · rintro ⟨hsame, hopening, hbetween, hclosing⟩
    obtain ⟨rfl, rfl⟩ := List.cons.inj hsame
    have hskip : ∀ line ∈ between, (!isMark line) = true := by simpa using hbetween
    simp [hopening, hclosing, List.dropWhile_append_of_pos hskip,
      List.takeWhile_append_of_pos hskip]

/-- Both sides of the closing line are read back as lines, also when the marked lines lose
something at their start. -/
theorem splitOn_fenced (hf : fenced sep isMark text = some f) (n : Nat) :
    ([sep].intercalate (f.opening.drop n :: f.between)).splitOn sep =
        f.opening.drop n :: f.between ∧
      ([sep].intercalate (f.closing.drop n :: f.after)).splitOn sep =
        f.closing.drop n :: f.after := by
  have hall := @not_mem_of_mem_splitOn α sep _ text
  rw [(fenced_eq_some_iff.mp hf).1, List.forall_mem_cons, List.forall_mem_append,
    List.forall_mem_cons] at hall
  obtain ⟨hopening, hbetween, hclosing, hafter⟩ := hall
  constructor
  · refine List.splitOn_intercalate _ (List.forall_mem_cons.mpr ⟨?_, hbetween⟩)
      (List.cons_ne_nil _ _)
    exact fun h => hopening (List.mem_of_mem_drop h)
  · refine List.splitOn_intercalate _ (List.forall_mem_cons.mpr ⟨?_, hafter⟩)
      (List.cons_ne_nil _ _)
    exact fun h => hclosing (List.mem_of_mem_drop h)

/-- Weaker marks are found when stronger ones are. -/
theorem fenced_isSome_of_imp {isMark' : List α → Bool}
    (himp : ∀ line, isMark line = true → isMark' line = true)
    (h : (fenced sep isMark text).isSome) : (fenced sep isMark' text).isSome := by
  obtain ⟨f, hf⟩ := Option.isSome_iff_exists.mp h
  obtain ⟨hlines, hopening, -, hclosing⟩ := fenced_eq_some_iff.mp hf
  rw [fenced_of_lines hlines]
  cases hdrop : (f.between ++ f.closing :: f.after).dropWhile fun line => !isMark' line with
  | nil =>
    have hall := List.dropWhile_eq_nil_iff.mp hdrop f.closing
      (List.mem_append_right _ List.mem_cons_self)
    simp [himp _ hclosing] at hall
  | cons close after => simp [himp _ hopening]

/-- A mark at the start of a text, and the next one behind a separator: they fence the lines
between those that start with the mark. -/
theorem cutAt_fenced {mark : List α} (hmark : sep ∉ mark) (text : List α) :
    (if mark.isPrefixOf text then cutAt (sep :: mark) (text.drop mark.length) else none) =
      (fenced sep mark.isPrefixOf text).map fun f =>
        ([sep].intercalate (f.opening.drop mark.length :: f.between),
          [sep].intercalate (f.closing.drop mark.length :: f.after)) := by
  obtain ⟨first, rest, hlines⟩ := List.exists_cons_of_ne_nil (List.splitOn_ne_nil sep text)
  rw [isPrefixOf_splitOn hmark hlines, fenced_of_lines hlines]
  cases hfirst : mark.isPrefixOf first with
  | false => rfl
  | true =>
    have hmarked := List.isPrefixOf_iff_prefix.mp hfirst
    have hdropped : (text.drop mark.length).splitOn sep = first.drop mark.length :: rest := by
      have hall := @not_mem_of_mem_splitOn α sep _ text
      rw [hlines, List.forall_mem_cons] at hall
      rw [drop_splitOn hlines hmarked, List.splitOn_intercalate _ ?_ (List.cons_ne_nil _ _)]
      exact List.forall_mem_cons.mpr ⟨fun h => hall.1 (List.mem_of_mem_drop h), hall.2⟩
    rw [if_pos rfl, if_pos rfl, cutAt_mark hmark hdropped]
    cases rest.dropWhile fun line => !mark.isPrefixOf line with
    | nil => rfl
    | cons close after => rfl

end Text
