import Mathlib.Algebra.GroupWithZero.Nat
import Mathlib.Algebra.Order.Group.Nat
import Mathlib.Data.List.Basic
import Mathlib.Logic.Function.Basic
import Mathlib.Order.Lattice

/-!
# Files behind names

A directory gives names to files. A file is written, truncated and read through a handle, which
stays with it; a name is opened, renamed and removed. A file that is complete before it gets a
name that others open is never seen half written: who has opened it under that name reads on in
it when the name goes to another file.
-/

namespace Files

/-- The files made so far and their names. No two names share a file. -/
structure Disk (Name Byte : Type) where
  names : Name → Option Nat
  files : List (List Byte)
  bound : ∀ n i, names n = some i → i < files.length
  apart : ∀ n n' i, names n = some i → names n' = some i → n = n'

namespace Disk

variable {Name Byte : Type}

def empty : Disk Name Byte := ⟨fun _ => none, [], by simp, by simp⟩

/-- What a handle reads from the start. -/
def file (d : Disk Name Byte) (i : Nat) : List Byte := d.files.getD i []

/-- What is there under a name. -/
def content (d : Disk Name Byte) (n : Name) : Option (List Byte) := (d.names n).map d.file

/-- The bytes of a file after some were written at an offset; a hole reads as zeros. -/
def splice (zero : Byte) (old : List Byte) (offset : Nat) (part : List Byte) : List Byte :=
  old.take offset ++ List.replicate (offset - old.length) zero ++ part ++
    old.drop (offset + part.length)

/-- Write through a handle. -/
def write (zero : Byte) (d : Disk Name Byte) (i offset : Nat) (part : List Byte) :
    Disk Name Byte where
  names := d.names
  files := d.files.set i (splice zero (d.file i) offset part)
  bound n j h := by simpa using d.bound n j h
  apart := d.apart

variable [DecidableEq Name]

/-- Open a name for writing: its file is truncated, or a new one made. -/
def create (d : Disk Name Byte) (n : Name) : Nat × Disk Name Byte :=
  match d.names n with
  | some i =>
      (i, { names := d.names
            files := d.files.set i []
            bound := fun n j h => by simpa using d.bound n j h
            apart := d.apart })
  | none =>
      (d.files.length,
        { names := Function.update d.names n (some d.files.length)
          files := d.files ++ [[]]
          bound := by
            intro n' j h
            rw [List.length_append, List.length_singleton]
            by_cases hn : n' = n
            · subst hn
              rw [Function.update_self, Option.some.injEq] at h
              omega
            · rw [Function.update_of_ne hn] at h
              exact Nat.lt_succ_of_lt (d.bound n' j h)
          apart := by
            -- the new file is none of those with a name
            have hfresh : ∀ n' j, n' ≠ n → Function.update d.names n (some d.files.length) n' =
                some j → d.names n' = some j ∧ j < d.files.length := by
              intro n' j hn h
              rw [Function.update_of_ne hn] at h
              exact ⟨h, d.bound n' j h⟩
            intro n₁ n₂ j h₁ h₂
            by_cases hn₁ : n₁ = n <;> by_cases hn₂ : n₂ = n
            · rw [hn₁, hn₂]
            · have := hfresh n₂ j hn₂ h₂
              rw [hn₁, Function.update_self, Option.some.injEq] at h₁
              omega
            · have := hfresh n₁ j hn₁ h₁
              rw [hn₂, Function.update_self, Option.some.injEq] at h₂
              omega
            · exact d.apart n₁ n₂ j (hfresh n₁ j hn₁ h₁).1 (hfresh n₂ j hn₂ h₂).1 })

/-- Give the file of a name another name, in the place of what had that name. -/
def rename (d : Disk Name Byte) (source target : Name) : Option (Disk Name Byte) :=
  match h : d.names source with
  | none => none
  | some i =>
      some
        { names := Function.update (Function.update d.names source none) target (some i)
          files := d.files
          bound := by
            intro n j hn
            by_cases htarget : n = target
            · rw [htarget, Function.update_self, Option.some.injEq] at hn
              exact hn ▸ d.bound source i h
            · rw [Function.update_of_ne htarget] at hn
              by_cases hsource : n = source
              · simp [hsource] at hn
              · rw [Function.update_of_ne hsource] at hn
                exact d.bound n j hn
          apart := by
            -- under another name than the target, a file kept its name and is not the renamed one
            have hkept : ∀ n j, n ≠ target →
                Function.update (Function.update d.names source none) target (some i) n = some j →
                d.names n = some j ∧ j ≠ i := by
              intro n j htarget hn
              rw [Function.update_of_ne htarget] at hn
              have hsource : n ≠ source := by
                rintro rfl
                simp at hn
              rw [Function.update_of_ne hsource] at hn
              refine ⟨hn, ?_⟩
              rintro rfl
              exact hsource (d.apart n source j hn h)
            intro n₁ n₂ j h₁ h₂
            by_cases hn₁ : n₁ = target <;> by_cases hn₂ : n₂ = target
            · rw [hn₁, hn₂]
            · rw [hn₁, Function.update_self, Option.some.injEq] at h₁
              exact absurd h₁.symm (hkept n₂ j hn₂ h₂).2
            · rw [hn₂, Function.update_self, Option.some.injEq] at h₂
              exact absurd h₂.symm (hkept n₁ j hn₁ h₁).2
            · exact d.apart n₁ n₂ j (hkept n₁ j hn₁ h₁).1 (hkept n₂ j hn₂ h₂).1 }

/-- Remove a name; who has its file open reads on. -/
def remove (d : Disk Name Byte) (n : Name) : Option (Disk Name Byte) :=
  if (d.names n).isSome then
    some
      { names := Function.update d.names n none
        files := d.files
        bound := by
          intro n' j h
          by_cases hn : n' = n
          · simp [hn] at h
          · rw [Function.update_of_ne hn] at h
            exact d.bound n' j h
        apart := by
          have hkept : ∀ n' j, Function.update d.names n none n' = some j →
              d.names n' = some j := by
            intro n' j h
            by_cases hn : n' = n
            · simp [hn] at h
            · rwa [Function.update_of_ne hn] at h
          intro n₁ n₂ j h₁ h₂
          exact d.apart n₁ n₂ j (hkept n₁ j h₁) (hkept n₂ j h₂) }
  else none

/-! ### What the operations leave -/

variable {d d' : Disk Name Byte} {n n' source target : Name} {i j : Nat}

omit [DecidableEq Name] in
theorem content_of_names (h : d.names n = some i) : d.content n = some (d.file i) := by
  rw [content, h, Option.map_some]

omit [DecidableEq Name] in
theorem content_eq_none : d.content n = none ↔ d.names n = none := by
  rw [content, Option.map_eq_none_iff]

omit [DecidableEq Name] in
theorem file_write_self (zero : Byte) (offset : Nat) (part : List Byte)
    (h : i < d.files.length) :
    (d.write zero i offset part).file i = splice zero (d.file i) offset part := by
  simp [file, write, h]

omit [DecidableEq Name] in
theorem file_write_of_ne (zero : Byte) (offset : Nat) (part : List Byte) (h : j ≠ i) :
    (d.write zero i offset part).file j = d.file j := by
  simp [file, write, List.getD_eq_getElem?_getD, List.getElem?_set_ne (Ne.symm h)]

omit [DecidableEq Name] in
/-- Writing goes on at the end. -/
theorem splice_length (zero : Byte) (old part : List Byte) :
    splice zero old old.length part = old ++ part := by
  simp [splice]

theorem names_create_self : (d.create n).2.names n = some (d.create n).1 := by
  unfold create
  split
  · assumption
  · exact Function.update_self ..

theorem names_create_of_ne (h : n' ≠ n) : (d.create n).2.names n' = d.names n' := by
  unfold create
  split
  · rfl
  · exact Function.update_of_ne h _ _

/-- A file that is opened for writing is new or has the name. -/
theorem names_or_le_create : d.names n = some (d.create n).1 ∨ d.files.length ≤ (d.create n).1 := by
  unfold create
  split
  · left
    assumption
  · exact .inr (Nat.le_refl _)

theorem length_le_create : d.files.length ≤ (d.create n).2.files.length := by
  unfold create
  split <;> simp

theorem file_create_self : (d.create n).2.file (d.create n).1 = [] := by
  unfold create
  split
  · next i h => simp [file, d.bound n i h]
  · simp [file]

/-- Opening a file for writing leaves the others. -/
theorem file_create_of_ne (h : j ≠ (d.create n).1) : (d.create n).2.file j = d.file j := by
  unfold create at h ⊢
  split at h
  · exact congrArg (Option.getD · []) (List.getElem?_set_ne (Ne.symm h))
  · rcases Nat.lt_or_gt_of_ne h with hlt | hgt
    · exact congrArg (Option.getD · []) (List.getElem?_append_left hlt)
    · -- neither the old directory nor the new one has such a file
      have hout : (d.files ++ [[]]).length ≤ j := by
        rw [List.length_append, List.length_singleton]
        exact hgt
      have hout' : d.files.length ≤ j := Nat.le_of_lt hgt
      simp [file, List.getElem?_eq_none hout, hout']

/-- What a renaming does. -/
theorem rename_eq_some (h : d.rename source target = some d') :
    ∃ i, d.names source = some i ∧ d'.names target = some i ∧
      (source ≠ target → d'.names source = none) ∧
      (∀ n, n ≠ source → n ≠ target → d'.names n = d.names n) ∧ d'.files = d.files := by
  unfold rename at h
  split at h
  · cases h
  · next i hi =>
    cases h
    refine ⟨i, hi, Function.update_self .., fun hne => ?_, fun n hs ht => ?_, rfl⟩
    · exact (Function.update_of_ne hne _ _).trans (Function.update_self ..)
    · exact (Function.update_of_ne ht _ _).trans (Function.update_of_ne hs _ _)

/-- What a removal does. -/
theorem remove_eq_some (h : d.remove n = some d') :
    d'.names n = none ∧ (∀ n', n' ≠ n → d'.names n' = d.names n') ∧ d'.files = d.files := by
  unfold remove at h
  split at h
  · cases h
    exact ⟨Function.update_self .., fun n' hn => Function.update_of_ne hn _ _, rfl⟩
  · cases h

theorem content_rename_target (h : d.rename source target = some d')
    (hi : d.names source = some i) : d'.content target = some (d.file i) := by
  obtain ⟨j, hj, htarget, -, -, hfiles⟩ := rename_eq_some h
  obtain rfl : i = j := Option.some.inj (hi.symm.trans hj)
  rw [content_of_names htarget, file, hfiles, file]

theorem content_rename_of_ne (h : d.rename source target = some d') (hsource : n ≠ source)
    (htarget : n ≠ target) : d'.content n = d.content n := by
  obtain ⟨_, -, -, -, hother, hfiles⟩ := rename_eq_some h
  unfold content file
  rw [hother n hsource htarget, hfiles]

theorem content_remove_self (h : d.remove n = some d') : d'.content n = none :=
  content_eq_none.mpr (remove_eq_some h).1

theorem content_remove_of_ne (h : d.remove n = some d') (hn : n' ≠ n) :
    d'.content n' = d.content n' := by
  obtain ⟨-, hother, hfiles⟩ := remove_eq_some h
  unfold content file
  rw [hother n' hn, hfiles]

end Disk

end Files
