import Mathlib.Data.List.PeriodicityLemma
import Mathlib.Data.Set.Function

/-!
# Repetitions at the end of a list

A list may end in copies of one element, or in a stretch that has a period. A stretch of whole
blocks has the length of a block as a period exactly when the later blocks are the first one.
-/

namespace Search

variable {α β : Type}

/-- The list ends in a number of copies of one element. -/
def EndsInCopies (n : Nat) (l : List α) : Prop := ∃ a, List.replicate n a <:+ l

/-- The list ends in a stretch of a length that has a period. -/
def EndsInPeriod (len period : Nat) (l : List α) : Prop :=
  ∃ w, w <:+ l ∧ w.length = len ∧ w.HasPeriod period

variable {l w : List α} {n len period r : Nat}

theorem endsInPeriod_iff : EndsInPeriod len period l ↔
    len ≤ l.length ∧ (l.drop (l.length - len)).HasPeriod period := by
  constructor
  · rintro ⟨w, hsuffix, rfl, hperiod⟩
    refine ⟨hsuffix.length_le, ?_⟩
    rwa [← List.suffix_iff_eq_drop.mp hsuffix]
  · rintro ⟨hlen, hperiod⟩
    refine ⟨_, List.drop_suffix _ _, ?_, hperiod⟩
    rw [List.length_drop]
    omega

/-- Copies of the last element. -/
theorem endsInCopies_iff {a : α} (hn : 1 ≤ n) :
    EndsInCopies n (l ++ [a]) ↔ n ≤ l.length + 1 ∧ ∀ b ∈ (l ++ [a]).reverse.take n, b = a := by
  have hreverse (b : α) : List.replicate n b <:+ l ++ [a] ↔
      List.replicate n b <+: (l ++ [a]).reverse := by
    rw [← List.reverse_prefix, List.reverse_replicate]
  have hlength : (l ++ [a]).reverse.length = l.length + 1 := by simp
  constructor
  · rintro ⟨b, hb⟩
    have htake := List.prefix_iff_eq_take.mp ((hreverse b).mp hb)
    rw [List.length_replicate] at htake
    have hle := hb.length_le
    rw [List.length_replicate, List.length_append, List.length_singleton] at hle
    refine ⟨hle, ?_⟩
    rw [← htake]
    intro c hc
    have hlast : a ∈ List.replicate n b := by
      rw [htake, List.reverse_append, List.reverse_singleton, List.singleton_append]
      obtain ⟨m, rfl⟩ := Nat.exists_eq_succ_of_ne_zero (Nat.ne_of_gt hn)
      exact List.mem_cons_self ..
    rw [List.eq_of_mem_replicate hc, List.eq_of_mem_replicate hlast]
  · rintro ⟨hle, hall⟩
    refine ⟨a, (hreverse a).mpr ?_⟩
    have htake : (l ++ [a]).reverse.take n = List.replicate n a :=
      List.eq_replicate_iff.mpr ⟨by rw [List.length_take, hlength]; omega, hall⟩
    rw [← htake]
    exact List.take_prefix ..

/-- The blocks of a stretch after the first are like the first. -/
theorem hasPeriod_iff_blocks (h : w.length = period * (r + 1)) : w.HasPeriod period ↔
    ∀ rep, 1 ≤ rep → rep ≤ r → (w.drop (rep * period)).take period = w.take period := by
  rw [List.hasPeriod_iff_forall_getElem?_mod]
  constructor
  · intro hmod rep _ hrep
    refine List.ext_getElem? fun i => ?_
    rw [List.getElem?_take, List.getElem?_take]
    split
    · next hi =>
      have hblock : rep * period + period ≤ w.length := by
        rw [h, ← Nat.succ_mul, Nat.mul_comm period]
        exact Nat.mul_le_mul_right _ (by omega)
      rw [List.getElem?_drop, hmod _ (by omega), Nat.mul_add_mod_self_right, Nat.mod_eq_of_lt hi]
    · rfl
  · intro hblocks i hi
    have hpos : 0 < period := by
      rcases Nat.eq_zero_or_pos period with rfl | hpos
      · omega
      · exact hpos
    have hlt : i % period < period := Nat.mod_lt i hpos
    rcases Nat.eq_zero_or_pos (i / period) with hfirst | hlater
    · rw [Nat.mod_eq_of_lt ((Nat.div_eq_zero_iff_lt hpos).mp hfirst)]
    · have hrep : i / period ≤ r := by
        have hdiv : i / period < r + 1 := Nat.div_lt_of_lt_mul (h ▸ hi)
        omega
      have hsame := congrArg (·[i % period]?) (hblocks (i / period) hlater hrep)
      simp only [List.getElem?_take, if_pos hlt, List.getElem?_drop] at hsame
      rwa [Nat.mul_comm (i / period), Nat.div_add_mod] at hsame

section Map

variable {f : α → β} (hf : Set.InjOn f {a | a ∈ l})
include hf

/-- A list repeats itself as its image does, where no two elements have one image. -/
theorem hasPeriod_map_iff : (l.map f).HasPeriod period ↔ l.HasPeriod period := by
  rw [List.hasPeriod_iff_getElem?, List.hasPeriod_iff_getElem?, List.length_map]
  refine forall₂_congr fun i hi => ?_
  have hi' : i < l.length := by omega
  have hp' : i + period < l.length := by omega
  rw [List.getElem?_map, List.getElem?_map, List.getElem?_eq_getElem hi',
    List.getElem?_eq_getElem hp', Option.map_some, Option.map_some, Option.some.injEq,
    Option.some.injEq]
  exact hf.eq_iff (List.getElem_mem hi') (List.getElem_mem hp')

theorem endsInPeriod_map_iff : EndsInPeriod len period (l.map f) ↔ EndsInPeriod len period l := by
  rw [endsInPeriod_iff, endsInPeriod_iff, List.length_map, ← List.map_drop]
  refine and_congr_right fun _ => hasPeriod_map_iff ?_
  exact hf.mono fun a ha => List.mem_of_mem_drop ha

theorem endsInCopies_map_iff (hn : 1 ≤ n) : EndsInCopies n (l.map f) ↔ EndsInCopies n l := by
  constructor
  · rintro ⟨b, hb⟩
    obtain ⟨w, hw, hmap⟩ := List.suffix_map_iff.mp hb
    obtain ⟨hlen, hall⟩ := List.eq_replicate_iff.mp hmap.symm
    rw [List.length_map] at hlen
    have hb' : ∀ a ∈ w, f a = b := fun a ha => hall _ (List.mem_map_of_mem ha)
    cases w with
    | nil => simp at hlen; omega
    | cons a rest =>
      have hsame : a :: rest = List.replicate n a := List.eq_replicate_iff.mpr ⟨hlen, fun c hc =>
        hf (hw.subset hc) (hw.subset (List.mem_cons_self ..))
          ((hb' c hc).trans (hb' a (List.mem_cons_self ..)).symm)⟩
      exact ⟨a, hsame ▸ hw⟩
  · rintro ⟨a, ha⟩
    exact ⟨f a, List.map_replicate ▸ ha.map f⟩

end Map

end Search
