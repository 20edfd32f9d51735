import Mathlib.Data.List.Basic
import Mathlib.Order.Lattice

/-!
# Binary search

The search of a sorted slice without an early exit: the candidate range is halved until one
element is left, and that element decides. In a list whose keys grow, the position found cuts
the list into the elements below the key and the others.
-/

namespace Search

variable {α κ : Type} [LinearOrder κ] (key : α → κ) (a : κ)

/-- How the key of the element at a position compares with the key searched. -/
def probe (xs : List α) (i : Nat) : Ordering :=
  match xs[i]? with
  | some x => compare (key x) a
  | none => .gt

/-- The start of the range when one candidate is left. -/
def narrow (xs : List α) (base size : Nat) : Nat :=
  if 1 < size then
    let mid := base + size / 2
    narrow xs (if probe key a xs mid = .gt then base else mid) (size - size / 2)
  else base
termination_by size

/-- `ok` with the position of an element with the key, else `error` with the position where it
could be inserted. -/
def binarySearchByKey (xs : List α) : Except Nat Nat :=
  match xs with
  | [] => .error 0
  | xs =>
      let base := narrow key a xs 0 xs.length
      match probe key a xs base with
      | .eq => .ok base
      | .lt => .error (base + 1)
      | .gt => .error base

/-- The position, found or not. -/
def position (found : Except Nat Nat) : Nat :=
  match found with
  | .ok i => i
  | .error i => i

variable {key a} {xs : List α}

/-- The keys grow along the list. -/
abbrev Increasing (key : α → κ) (xs : List α) : Prop := xs.Pairwise fun x y => key x < key y

/-- Everything below a position is below the key, everything from another one on is above. -/
structure Between (key : α → κ) (a : κ) (xs : List α) (lo hi : Nat) : Prop where
  below : ∀ i x, i < lo → xs[i]? = some x → key x < a
  above : ∀ i x, hi ≤ i → xs[i]? = some x → a ≤ key x

theorem Increasing.lt (h : Increasing key xs) {i j : Nat} {x y : α} (hij : i < j)
    (hx : xs[i]? = some x) (hy : xs[j]? = some y) : key x < key y := by
  obtain ⟨hi, rfl⟩ := List.getElem?_eq_some_iff.mp hx
  obtain ⟨hj, rfl⟩ := List.getElem?_eq_some_iff.mp hy
  exact List.pairwise_iff_getElem.mp h i j hi hj hij

/-- What the search keeps true of the range: its first element is not above the key unless
the range starts the list, and what lies behind the range is above the key. -/
structure Holds (key : α → κ) (a : κ) (xs : List α) (base size : Nat) : Prop where
  bound : base + size ≤ xs.length
  nonempty : 0 < size
  first : 0 < base → probe key a xs base ≠ .gt
  behind : ∀ i x, base + size ≤ i → xs[i]? = some x → a < key x

theorem probe_eq {i : Nat} {x : α} (h : xs[i]? = some x) :
    probe key a xs i = compare (key x) a := by
  rw [probe, h]

/-- One halving of the range. -/
theorem Holds.halve (hxs : Increasing key xs) {base size : Nat} (h : Holds key a xs base size)
    (hsize : 1 < size) :
    Holds key a xs (if probe key a xs (base + size / 2) = .gt then base else base + size / 2)
      (size - size / 2) := by
  have hbound := h.bound
  have hmid : base + size / 2 < xs.length := by omega
  have hget := List.getElem?_eq_getElem hmid
  split
  · next hgt =>
    rw [probe_eq hget, compare_gt_iff_gt] at hgt
    refine ⟨by omega, by omega, h.first, fun i x hi hx => ?_⟩
    rcases Nat.eq_or_lt_of_le (show base + size / 2 ≤ i by omega) with rfl | hlt
    · rw [hget] at hx
      exact Option.some.inj hx ▸ hgt
    · exact lt_trans hgt (hxs.lt hlt hget hx)
  · next hle =>
    exact ⟨by omega, by omega, fun _ => hle, fun i x hi hx => h.behind i x (by omega) hx⟩

/-- The search ends with one candidate. -/
theorem holds_narrow (hxs : Increasing key xs) {base size : Nat} (h : Holds key a xs base size) :
    Holds key a xs (narrow key a xs base size) 1 := by
  fun_induction narrow key a xs base size with
  | case1 base size hsize mid ih => exact ih (h.halve hxs hsize)
  | case2 base size hsize =>
    obtain rfl : size = 1 := by have := h.nonempty; omega
    exact h

/-- In a list whose keys grow, the position cuts off the elements below the key. -/
theorem between_position (hxs : Increasing key xs) :
    Between key a xs (position (binarySearchByKey key a xs))
      (position (binarySearchByKey key a xs)) := by
  cases xs with
  | nil => exact ⟨nofun, nofun⟩
  | cons y ys =>
    have hstart : Holds key a (y :: ys) 0 (y :: ys).length :=
      ⟨by omega, by simp, nofun, fun i x hi hx => by
        rw [List.getElem?_eq_none (by omega)] at hx
        cases hx⟩
    have h := holds_narrow hxs hstart
    rw [binarySearchByKey.eq_2 _ _ _ (by simp)]
    generalize narrow key a (y :: ys) 0 (y :: ys).length = base at h ⊢
    have hbound := h.bound
    have hget := List.getElem?_eq_getElem (show base < (y :: ys).length by omega)
    have hfirst := h.first
    rw [probe_eq hget] at hfirst ⊢
    cases hprobe : compare (key (y :: ys)[base]) a with
    | eq =>
      refine ⟨fun i x hi hx => ?_, fun i x hi hx => ?_⟩
      · exact (compare_eq_iff_eq.mp hprobe) ▸ hxs.lt hi hx hget
      · rcases Nat.eq_or_lt_of_le hi with rfl | hlt
        · exact Option.some.inj (hget.symm.trans hx) ▸ le_of_eq (compare_eq_iff_eq.mp hprobe).symm
        · exact le_of_lt (h.behind i x (by exact hlt) hx)
    | lt =>
      have hlt := compare_lt_iff_lt.mp hprobe
      refine ⟨fun i x hi hx => ?_, fun i x hi hx => le_of_lt (h.behind i x hi hx)⟩
      rcases Nat.eq_or_lt_of_le (Nat.le_of_lt_succ hi) with rfl | hi
      · exact Option.some.inj (hget.symm.trans hx) ▸ hlt
      · exact lt_trans (hxs.lt hi hx hget) hlt
    | gt =>
      obtain rfl : base = 0 := by
        by_contra hbase
        exact hfirst (by omega) hprobe
      refine ⟨nofun, fun i x hi hx => ?_⟩
      rcases Nat.eq_or_lt_of_le hi with rfl | hlt
      · exact Option.some.inj (hget.symm.trans hx) ▸ le_of_lt (compare_gt_iff_gt.mp hprobe)
      · exact le_of_lt (h.behind i x (by omega) hx)

/-- A position that cuts a list in two cuts it as a filter does. -/
theorem Between.drop_eq_filter {i : Nat} (h : Between key a xs i i) :
    xs.drop i = xs.filter fun x => decide (a ≤ key x) := by
  induction xs generalizing i with
  | nil => simp
  | cons x rest ih =>
    cases i with
    | zero =>
      refine (List.filter_eq_self.mpr fun y hy => ?_).symm
      obtain ⟨j, hj⟩ := List.mem_iff_getElem?.mp hy
      exact decide_eq_true (h.above j y (Nat.zero_le _) hj)
    | succ i =>
      have hx : ¬ a ≤ key x := not_le_of_gt (h.below 0 x (Nat.succ_pos _) rfl)
      rw [List.drop_succ_cons, List.filter_cons_of_neg (by simpa using hx)]
      exact ih ⟨fun j y hj => h.below (j + 1) y (by omega),
        fun j y hj => h.above (j + 1) y (by omega)⟩

/-- From the position on, the elements are those that are not below the key. -/
theorem drop_position (hxs : Increasing key xs) :
    xs.drop (position (binarySearchByKey key a xs)) = xs.filter fun x => decide (a ≤ key x) :=
  (between_position hxs).drop_eq_filter

/-- The elements below a key come first. -/
theorem filter_append_filter (hxs : Increasing key xs) (a : κ) :
    xs.filter (fun x => decide (key x < a)) ++ xs.filter (fun x => decide (a ≤ key x)) = xs := by
  induction xs with
  | nil => rfl
  | cons x rest ih =>
    obtain ⟨hx, hrest⟩ := List.pairwise_cons.mp hxs
    by_cases hlt : key x < a
    · rw [List.filter_cons_of_pos (by simpa using hlt),
        List.filter_cons_of_neg (by simpa using hlt), List.cons_append, ih hrest]
    · have hge : ∀ y ∈ x :: rest, a ≤ key y := by
        intro y hy
        rcases List.mem_cons.mp hy with rfl | hy
        · exact le_of_not_gt hlt
        · exact le_trans (le_of_not_gt hlt) (le_of_lt (hx y hy))
      rw [List.filter_eq_nil_iff.mpr (fun y hy => by simpa using hge y hy),
        List.filter_eq_self.mpr (fun y hy => by simpa using hge y hy), List.nil_append]

end Search
