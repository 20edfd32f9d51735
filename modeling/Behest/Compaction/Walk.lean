import Behest.Compaction.Turns

/-!
# What the backward walk keeps

Over indices alone: from each preserved turn the walk keeps the longest suffix whose
records fit one by one beside what has been accumulated. The walk keeps everything exactly
when the preserved turns fit the budget together; otherwise it drops records, except where
the youngest turn alone is over budget and the walk ends at the second turn.
-/

namespace Behest.Compaction

variable (tokens : Nat → Nat) (keep : Nat)

/-- Total tokens of the given indices. -/
def weight (indices : List Nat) : Nat := (indices.map tokens).sum

@[simp] theorem weight_nil : weight tokens [] = 0 := rfl

@[simp] theorem weight_cons (i : Nat) (is : List Nat) :
    weight tokens (i :: is) = tokens i + weight tokens is := by simp [weight]

@[simp] theorem weight_append (is js : List Nat) :
    weight tokens (is ++ js) = weight tokens is + weight tokens js := by simp [weight]

@[simp] theorem weight_reverse (is : List Nat) : weight tokens is.reverse = weight tokens is := by
  simp [weight, List.sum_reverse]

theorem tokens_le_weight {i : Nat} {is : List Nat} (h : i ∈ is) : tokens i ≤ weight tokens is := by
  induction is with
  | nil => cases h
  | cons j rest ih =>
    rw [weight_cons]
    rcases List.mem_cons.mp h with rfl | hrest
    · omega
    · have := ih hrest
      omega

/-- A record fits beside `accumulated`. -/
def fits (accumulated i : Nat) : Bool :=
  decide (accumulated + tokens i ≤ keep)

/-- The part of an older turn that the walk keeps. -/
def keptOf (accumulated : Nat) (turn : List Nat) : List Nat :=
  turn.rtakeWhile (fits tokens keep accumulated)

/-- The part of an older turn that the walk leaves behind. -/
def cutOf (accumulated : Nat) (turn : List Nat) : List Nat :=
  turn.rdropWhile (fits tokens keep accumulated)

theorem cutOf_append_keptOf (accumulated : Nat) (turn : List Nat) :
    cutOf tokens keep accumulated turn ++ keptOf tokens keep accumulated turn = turn :=
  List.rdropWhile_append_rtakeWhile

/-- A turn that fits whole is kept whole. -/
theorem keptOf_eq_self {accumulated : Nat} {turn : List Nat}
    (h : accumulated + weight tokens turn ≤ keep) :
    keptOf tokens keep accumulated turn = turn := by
  refine List.rtakeWhile_eq_self_iff.mpr fun i hi => ?_
  have := tokens_le_weight tokens hi
  simp only [fits, decide_eq_true_eq]
  omega

/-- Nothing fits once the budget is used up. -/
theorem keptOf_eq_nil {accumulated : Nat} (turn : List Nat) (h : keep < accumulated) :
    keptOf tokens keep accumulated turn = [] := by
  refine List.rtakeWhile_eq_nil_iff.mpr fun _ => ?_
  simp only [fits, decide_eq_true_eq]
  omega

/-- A kept part of full length is the whole turn. -/
theorem length_keptOf_lt {accumulated : Nat} {turn : List Nat}
    (h : keptOf tokens keep accumulated turn ≠ turn) :
    (keptOf tokens keep accumulated turn).length < turn.length := by
  have hsplit := cutOf_append_keptOf tokens keep accumulated turn
  rcases Nat.lt_or_ge (keptOf tokens keep accumulated turn).length turn.length with hlt | hge
  · exact hlt
  · have hcut : cutOf tokens keep accumulated turn = [] := by
      have := congrArg List.length hsplit
      rw [List.length_append] at this
      exact List.length_eq_zero_iff.mp (by omega)
    rw [hcut, List.nil_append] at hsplit
    exact absurd hsplit h

/-! ### One turn of the walk -/

theorem takeTurn_fresh (accumulated : Nat) (xs : List Nat) :
    takeTurn tokens keep accumulated false xs = (weight tokens xs, xs) := by
  induction xs with
  | nil => rfl
  | cons i rest ih => simp [takeTurn, ih]

theorem takeTurn_opened (accumulated : Nat) (xs : List Nat) :
    takeTurn tokens keep accumulated true xs =
      (weight tokens (xs.takeWhile (fits tokens keep accumulated)),
        xs.takeWhile (fits tokens keep accumulated)) := by
  induction xs with
  | nil => rfl
  | cons i rest ih =>
    by_cases h : accumulated + tokens i ≤ keep
    · simp [takeTurn, ih, fits, h, Nat.not_lt.mpr h]
    · simp [takeTurn, fits, h, Nat.not_le.mp h]

/-- The indices of a turn not among those taken are those before the kept part. -/
private theorem filter_not_taken {turn : List Nat} (hnd : turn.Nodup) (accumulated : Nat) :
    (turn.filter fun i =>
      !(turn.reverse.takeWhile (fits tokens keep accumulated)).contains i) =
      cutOf tokens keep accumulated turn := by
  have hkept : turn.reverse.takeWhile (fits tokens keep accumulated) =
      (keptOf tokens keep accumulated turn).reverse := by
    simp [keptOf, List.rtakeWhile]
  have hsplit := cutOf_append_keptOf tokens keep accumulated turn
  rw [hkept]
  generalize hk : keptOf tokens keep accumulated turn = kept at hsplit ⊢
  generalize cutOf tokens keep accumulated turn = cut at hsplit ⊢
  subst hsplit
  have hdisj := (List.nodup_append.mp hnd).2.2
  rw [List.filter_append, List.filter_eq_self.mpr, List.filter_eq_nil_iff.mpr, List.append_nil]
  · simp
  · intro i hi
    have : i ∉ kept := fun hmem => hdisj i hi i hmem rfl
    simpa using this

/-- The youngest preserved turn is kept whole, whatever its size. -/
theorem walkTurns_youngest (turn : List Nat) (earlier : List (List Nat)) :
    walkTurns tokens keep (turn :: earlier) 0 [] =
      walkTurns tokens keep earlier (weight tokens turn) turn := by
  simp [walkTurns, takeTurn_fresh]

/-- An older turn either ends the walk or adds its kept part to the tail. -/
theorem walkTurns_older {turn tail : List Nat} (hnd : turn.Nodup) (htail : tail ≠ [])
    (earlier : List (List Nat)) (accumulated : Nat) :
    walkTurns tokens keep (turn :: earlier) accumulated tail =
      let kept := keptOf tokens keep accumulated turn
      if keep < accumulated + weight tokens kept then
        .overflowed (cutOf tokens keep accumulated turn) tail.reverse
      else
        walkTurns tokens keep earlier (accumulated + weight tokens kept) (kept ++ tail) := by
  have hopen : (!tail.isEmpty) = true := by simp [htail]
  have hkept : turn.reverse.takeWhile (fits tokens keep accumulated) =
      (keptOf tokens keep accumulated turn).reverse := by
    simp [keptOf, List.rtakeWhile]
  have hweight : weight tokens (turn.reverse.takeWhile (fits tokens keep accumulated)) =
      weight tokens (keptOf tokens keep accumulated turn) := by
    rw [hkept, weight_reverse]
  simp only [walkTurns, hopen, takeTurn_opened, filter_not_taken tokens keep hnd, hweight,
    Bool.and_true, gt_iff_lt, decide_eq_true_eq]
  rw [hkept, List.reverse_reverse]

/-! ### The whole walk -/

/-- The indices a walk accounts for: the tail and the cut of the turn it ended at. -/
def Walk.accounted : Walk → List Nat
  | .overflowed overflow tail => overflow ++ tail
  | .fitted tail => tail

/-- Turns that fit together are all kept. -/
theorem walkTurns_of_fits {earlier : List (List Nat)} {tail : List Nat} {accumulated : Nat}
    (hnd : ∀ turn ∈ earlier, turn.Nodup) (htail : tail ≠ [])
    (h : accumulated + weight tokens earlier.flatten ≤ keep) :
    walkTurns tokens keep earlier accumulated tail =
      .fitted (sortIndices (earlier.reverse.flatten ++ tail)) := by
  induction earlier generalizing accumulated tail with
  | nil => simp [walkTurns]
  | cons turn rest ih =>
    rw [List.flatten_cons, weight_append] at h
    have hkept : keptOf tokens keep accumulated turn = turn := keptOf_eq_self tokens keep (by omega)
    rw [walkTurns_older tokens keep (hnd turn (by simp)) htail]
    simp only [hkept]
    rw [if_neg (by omega), ih (fun t ht => hnd t (by simp [ht])) (by simp [htail]) (by omega)]
    simp

/-- The walk accounts for no index twice. -/
theorem length_accounted_le {earlier : List (List Nat)} (accumulated : Nat) (tail : List Nat)
    (hnd : ∀ turn ∈ earlier, turn.Nodup) (htail : tail ≠ []) :
    (walkTurns tokens keep earlier accumulated tail).accounted.length ≤
      earlier.flatten.length + tail.length := by
  induction earlier generalizing accumulated tail with
  | nil => simp [walkTurns, Walk.accounted, sortIndices]
  | cons turn rest ih =>
    rw [walkTurns_older tokens keep (hnd turn (by simp)) htail]
    have hcut := congrArg List.length
      (cutOf_append_keptOf tokens keep accumulated turn)
    rw [List.length_append] at hcut
    dsimp only
    split
    · simp only [Walk.accounted, List.length_append, List.length_reverse, List.flatten_cons]
      omega
    · have hih := ih (accumulated + weight tokens (keptOf tokens keep accumulated turn))
        (keptOf tokens keep accumulated turn ++ tail)
        (fun t ht => hnd t (by simp [ht])) (by simp [htail])
      simp only [List.length_append, List.flatten_cons] at hih ⊢
      omega

/-- Turns that do not fit together, after a youngest turn that fits, lose records. -/
theorem length_accounted_lt {earlier : List (List Nat)} {accumulated : Nat} (tail : List Nat)
    (hnd : ∀ turn ∈ earlier, turn.Nodup) (htail : tail ≠ []) (hacc : accumulated ≤ keep)
    (h : keep < accumulated + weight tokens earlier.flatten) :
    (walkTurns tokens keep earlier accumulated tail).accounted.length <
      earlier.flatten.length + tail.length := by
  induction earlier generalizing accumulated tail with
  | nil =>
    simp only [List.flatten_nil, weight_nil, Nat.add_zero] at h
    omega
  | cons turn rest ih =>
    rw [walkTurns_older tokens keep (hnd turn (by simp)) htail]
    have hrest : ∀ t ∈ rest, t.Nodup := fun t ht => hnd t (by simp [ht])
    have hcut := congrArg List.length
      (cutOf_append_keptOf tokens keep accumulated turn)
    rw [List.length_append] at hcut
    rw [List.flatten_cons, weight_append] at h
    dsimp only
    split
    · next hover =>
      -- the kept part is not empty, and the walk drops it
      have hne : keptOf tokens keep accumulated turn ≠ [] := by
        intro hnil
        rw [hnil, weight_nil] at hover
        omega
      have := List.length_pos_iff.mpr hne
      simp only [Walk.accounted, List.length_append, List.length_reverse, List.flatten_cons]
      omega
    · next hover =>
      by_cases hwhole : keptOf tokens keep accumulated turn = turn
      · rw [hwhole] at hover ⊢
        have := ih (turn ++ tail) hrest (by simp [htail]) (Nat.not_lt.mp hover) (by omega)
        simp only [List.length_append, List.flatten_cons] at this ⊢
        omega
      · -- the cut of this turn is dropped
        have hlt := length_keptOf_lt tokens keep hwhole
        have := length_accounted_le tokens keep
          (accumulated + weight tokens (keptOf tokens keep accumulated turn))
          (keptOf tokens keep accumulated turn ++ tail) hrest (by simp [htail])
        simp only [List.length_append, List.flatten_cons] at this ⊢
        omega

/-- A youngest turn over budget ends the walk at the second turn. -/
theorem walkTurns_over {turn tail : List Nat} (hnd : turn.Nodup) (htail : tail ≠ [])
    (earlier : List (List Nat)) {accumulated : Nat} (h : keep < accumulated) :
    walkTurns tokens keep (turn :: earlier) accumulated tail = .overflowed turn tail.reverse := by
  have hkept := keptOf_eq_nil tokens keep turn h
  have hcut := cutOf_append_keptOf tokens keep accumulated turn
  rw [hkept, List.append_nil] at hcut
  rw [walkTurns_older tokens keep hnd htail]
  simp only [hkept, hcut, weight_nil, Nat.add_zero, if_pos h]

end Behest.Compaction
