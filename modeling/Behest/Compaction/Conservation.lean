import Behest.Compaction.Boundary
import Behest.Compaction.Spec

/-!
# When a compaction conserves the conversation

Every ordinary record is either summarised or still visible exactly when the preserved
turns of the history meet `Conserving`; and no record is ever both.
-/

namespace Behest.Compaction

open Effect

variable {messages : List MessageRecord} {tailTurns keepTokens : Nat}

/-! ### The layout of head and preserved turns -/

theorem mem_before_iff (i : Nat) :
    i ∈ (headTurns messages tailTurns).flatten ↔
      i < (headTurns messages tailTurns).flatten.length := by
  have hflat := headTurns_append_tailTurnsSlice messages tailTurns
  generalize (headTurns messages tailTurns).flatten = before at *
  have hrange : before = List.range before.length := by
    have htake := congrArg (List.take before.length) hflat
    have hle := congrArg List.length hflat
    rw [List.length_append, List.length_range] at hle
    rw [List.take_left, List.take_range, Nat.min_eq_left (by omega)] at htake
    exact htake
  rw [hrange, List.mem_range, List.length_range]

theorem mem_slice_iff (i : Nat) :
    i ∈ (tailTurnsSlice messages tailTurns).flatten ↔
      (headTurns messages tailTurns).flatten.length ≤ i ∧ i < messages.length := by
  have hflat := headTurns_append_tailTurnsSlice messages tailTurns
  have hnd : ((headTurns messages tailTurns).flatten ++
      (tailTurnsSlice messages tailTurns).flatten).Nodup := by
    rw [hflat]
    exact List.nodup_range
  have hmem := List.mem_range (m := i) (n := messages.length)
  rw [← hflat, List.mem_append] at hmem
  have hbefore : i ∈ (headTurns messages tailTurns).flatten ↔ _ := mem_before_iff i
  have hdisj : i ∈ (headTurns messages tailTurns).flatten →
      i ∉ (tailTurnsSlice messages tailTurns).flatten := fun ha hb =>
    (List.nodup_append.mp hnd).2.2 i ha i hb rfl
  constructor
  · intro hi
    refine ⟨?_, hmem.mp (.inr hi)⟩
    by_contra hlt
    exact hdisj (hbefore.mpr (by omega)) hi
  · rintro ⟨hle, hlt⟩
    rcases hmem.mpr hlt with hb | hs
    · have := hbefore.mp hb
      omega
    · exact hs

/-- Sorted indices open with the least. -/
private theorem head?_sortIndices_le {i : Nat} {is : List Nat} (hi : i ∈ is) :
    ∃ k, (sortIndices is).head? = some k ∧ k ≤ i := by
  have hsorted : (sortIndices is).Pairwise (· ≤ ·) := List.pairwise_insertionSort _ is
  have hmem : i ∈ sortIndices is := mem_sortIndices.mpr hi
  cases hsort : sortIndices is with
  | nil =>
    rw [hsort] at hmem
    cases hmem
  | cons k rest =>
    rw [hsort] at hmem hsorted
    rcases List.mem_cons.mp hmem with rfl | hmem
    · exact ⟨i, rfl, Nat.le_refl i⟩
    · exact ⟨k, rfl, (List.pairwise_cons.mp hsorted).1 i hmem⟩

/-- Every ordinary record lies in the head or from the boundary on. -/
def Covered (messages : List MessageRecord) (before : List Nat) (walk : Walk) : Prop :=
  ∀ i r, messages[i]? = some r → r.isOrdinary = true →
    i ∈ walk.headIndices before ∨ ∃ k, walk.tailIndices.head? = some k ∧ k ≤ i

section Layout

variable {youngest : List Nat} {earlier : List (List Nat)}
  (hslice : (tailTurnsSlice messages tailTurns).reverse = youngest :: earlier)
include hslice

private theorem slice_eq : tailTurnsSlice messages tailTurns = earlier.reverse ++ [youngest] := by
  rw [← List.reverse_reverse (tailTurnsSlice messages tailTurns), hslice, List.reverse_cons]

private theorem mem_slice_of_mem {turn : List Nat} (h : turn ∈ youngest :: earlier) :
    turn ∈ tailTurnsSlice messages tailTurns := by
  rw [← List.mem_reverse, hslice]
  exact h

private theorem nodup_of_mem {turn : List Nat} (h : turn ∈ youngest :: earlier) : turn.Nodup :=
  nodup_of_mem_tailTurnsSlice (mem_slice_of_mem hslice h)

private theorem ne_nil_of_mem {turn : List Nat} (h : turn ∈ youngest :: earlier) : turn ≠ [] :=
  ne_nil_of_mem_tailTurnsSlice (mem_slice_of_mem hslice h)

private theorem bounds_of_mem {turn : List Nat} (h : turn ∈ youngest :: earlier) {i : Nat}
    (hi : i ∈ turn) :
    (headTurns messages tailTurns).flatten.length ≤ i ∧ i < messages.length :=
  (mem_slice_iff i).mp (List.mem_flatten.mpr ⟨turn, mem_slice_of_mem hslice h, hi⟩)

private theorem not_mem_before {turn : List Nat} (h : turn ∈ youngest :: earlier) {i : Nat}
    (hi : i ∈ turn) : i ∉ (headTurns messages tailTurns).flatten := by
  rw [mem_before_iff]
  have := (bounds_of_mem hslice h hi).1
  omega

/-- The preserved turns share no index. -/
private theorem pairwise_disjoint : (youngest :: earlier).Pairwise List.Disjoint := by
  have hnd : (tailTurnsSlice messages tailTurns).flatten.Nodup :=
    (tailTurnsSlice_flatten_sublist messages tailTurns).nodup List.nodup_range
  rw [← hslice, List.pairwise_reverse]
  apply List.Pairwise.imp (fun h => List.disjoint_symm h) (List.nodup_flatten.mp hnd).2

/-- The youngest turn ends with the last record. -/
private theorem getLast?_youngest : youngest.getLast? = some (messages.length - 1) := by
  have hne : youngest ≠ [] := ne_nil_of_mem hslice (by simp)
  have hflat := headTurns_append_tailTurnsSlice messages tailTurns
  rw [slice_eq hslice, List.flatten_append, List.flatten_singleton, ← List.append_assoc] at hflat
  have hlast := congrArg List.getLast? hflat
  rw [List.getLast?_append_of_ne_nil _ hne, List.getLast?_range] at hlast
  rw [hlast, if_neg]
  intro hzero
  obtain ⟨i, hi⟩ := List.exists_mem_of_ne_nil _ hne
  have := (bounds_of_mem hslice (by simp) hi).2
  omega

/-- The first record of a preserved turn is ordinary. -/
private theorem ordinary_of_head (hs : Stored messages) {turn : List Nat}
    (h : turn ∈ youngest :: earlier) : ∃ i r, turn.head? = some i ∧ i ∈ turn ∧
      messages[i]? = some r ∧ r.isOrdinary = true := by
  obtain ⟨i, more, rfl⟩ := List.exists_cons_of_ne_nil (ne_nil_of_mem hslice h)
  obtain ⟨r, hr, hord⟩ := hs.ordinary_of_head
    (List.mem_of_mem_drop (mem_slice_of_mem hslice h)) (i := i) rfl
  exact ⟨i, r, rfl, by simp, hr, hord⟩

/-- The oldest preserved turn opens right after the head. -/
private theorem head?_oldest {front : List (List Nat)} {oldest : List Nat}
    (hlast : earlier = front ++ [oldest]) :
    oldest.head? = some (headTurns messages tailTurns).flatten.length := by
  have hmem : oldest ∈ youngest :: earlier := by simp [hlast]
  obtain ⟨i, more, rfl⟩ := List.exists_cons_of_ne_nil (ne_nil_of_mem hslice hmem)
  have hflat := headTurns_append_tailTurnsSlice messages tailTurns
  rw [slice_eq hslice, hlast] at hflat
  have hget := congrArg (fun l => l[(headTurns messages tailTurns).flatten.length]?) hflat
  have hlt := (bounds_of_mem hslice hmem (i := i) (by simp))
  simp only [List.reverse_append, List.reverse_singleton, List.cons_append, List.nil_append,
    List.flatten_cons, List.getElem?_append_right (Nat.le_refl _), Nat.sub_self,
    List.getElem?_cons_zero] at hget
  rw [List.getElem?_range (by omega)] at hget
  rw [List.head?_cons, hget]

private theorem outcome_eq :
    outcome messages tailTurns keepTokens =
      walkTurns (tokensAt messages) keepTokens earlier
        (weight (tokensAt messages) youngest) youngest := by
  unfold outcome
  rw [hslice]
  exact walkTurns_youngest _ _ _ _

/-! ### The three ways a walk can end -/

private theorem covered_of_oldestKept (hne : earlier ≠ [])
    (h : OldestKept (tokensAt messages) keepTokens earlier (weight (tokensAt messages) youngest)) :
    Covered messages (headTurns messages tailTurns).flatten
      (outcome messages tailTurns keepTokens) := by
  obtain ⟨t, ht, -, hold⟩ := walkTurns_of_oldestKept youngest
    (fun u hu => nodup_of_mem hslice (by simp [hu])) (ne_nil_of_mem hslice (by simp)) h
  obtain ⟨front, oldest, hlast⟩ := List.eq_nil_or_concat' earlier |>.resolve_left hne
  have hhead := head?_oldest hslice hlast
  have hmem : (headTurns messages tailTurns).flatten.length ∈ t :=
    hold oldest (by simp [hlast]) _ (List.mem_of_mem_head? hhead)
  rw [outcome_eq hslice, ht]
  intro i r _ _
  simp only [Walk.headIndices, Walk.tailIndices, mem_before_iff]
  rcases Nat.lt_or_ge i (headTurns messages tailTurns).flatten.length with hlt | hge
  · exact .inl hlt
  · -- the sorted tail opens no later than the oldest turn does
    obtain ⟨k, hk, hle⟩ := head?_sortIndices_le hmem
    exact .inr ⟨k, hk, by omega⟩

private theorem not_covered_of_fitted (hs : Stored messages) (hne : earlier ≠ [])
    (h : ¬ OldestKept (tokensAt messages) keepTokens earlier (weight (tokensAt messages) youngest))
    {t : List Nat} (ht : outcome messages tailTurns keepTokens = .fitted t) :
    ¬ Covered messages (headTurns messages tailTurns).flatten
      (outcome messages tailTurns keepTokens) := by
  intro hcov
  obtain ⟨front, oldest, hlast⟩ := List.eq_nil_or_concat' earlier |>.resolve_left hne
  have hmem : oldest ∈ youngest :: earlier := by simp [hlast]
  obtain ⟨i, r, hi, hin, hr, hord⟩ := ordinary_of_head hslice hs hmem
  have hib := (head?_oldest hslice hlast).symm.trans hi
  have hdisj := pairwise_disjoint hslice
  have hnd : ∀ u ∈ earlier, u.Nodup := fun u hu => nodup_of_mem hslice (by simp [hu])
  have hyne : youngest ≠ [] := ne_nil_of_mem hslice (by simp)
  have hdrop : i ∉ t := by
    apply walkTurns_drops_oldest youngest hnd hyne ((outcome_eq hslice).symm.trans ht) h hlast hi
    · intro hy
      exact (List.pairwise_cons.mp hdisj).1 oldest (by simp [hlast]) hy hin
    · intro hf
      obtain ⟨u, hu, hiu⟩ := List.mem_flatten.mp hf
      rw [hlast] at hdisj
      exact (List.pairwise_append.mp (List.pairwise_cons.mp hdisj).2).2.2 u hu oldest (by simp)
        hiu hin
  rcases hcov i r hr hord with hb | ⟨k, hk, hle⟩
  · rw [ht] at hb
    exact not_mem_before hslice hmem hin hb
  · have hkt : k ∈ t := by
      rw [ht] at hk
      exact List.mem_of_mem_head? hk
    have hsub := walkTurns_tail_subset (weight (tokensAt messages) youngest) youngest hnd hyne k
      (by rw [← outcome_eq hslice, ht]; exact hkt)
    have hbk : (headTurns messages tailTurns).flatten.length ≤ k := by
      rcases hsub with hk | hk
      · exact (bounds_of_mem hslice (by simp) hk).1
      · obtain ⟨u, hu, hku⟩ := List.mem_flatten.mp hk
        exact (bounds_of_mem hslice (by simp [hu]) hku).1
    have hki : k = i := by
      simp only [Option.some.injEq] at hib
      omega
    exact hdrop (hki ▸ hkt)

/-- Where an overflowing walk leaves head and boundary: the cut of one older turn joins the
head, and the boundary is the last record. -/
private theorem overflow_eq {overflow reversed : List Nat}
    (ht : outcome messages tailTurns keepTokens = .overflowed overflow reversed) :
    reversed.head? = some (messages.length - 1) ∧
      ∃ front turn back accumulated, earlier = front ++ turn :: back ∧
        overflow = cutOf (tokensAt messages) keepTokens accumulated turn ∧
        (front = [] → accumulated = weight (tokensAt messages) youngest) := by
  have hnd : ∀ u ∈ earlier, u.Nodup := fun u hu => nodup_of_mem hslice (by simp [hu])
  have hyne : youngest ≠ [] := ne_nil_of_mem hslice (by simp)
  obtain ⟨front, turn, back, more, accumulated, hsplit, hcut, hrev, -, hacc⟩ :=
    walkTurns_overflow youngest hnd hyne ((outcome_eq hslice).symm.trans ht)
  refine ⟨?_, front, turn, back, accumulated, hsplit, hcut, hacc⟩
  rw [hrev, List.head?_reverse, List.getLast?_append_of_ne_nil _ hyne, getLast?_youngest hslice]

/-- When an overflowing walk loses nothing, the ordinary records of the preserved turns are
in the cut or are the last record. -/
private theorem mem_overflow_or_last {overflow reversed : List Nat}
    (ht : outcome messages tailTurns keepTokens = .overflowed overflow reversed)
    (hcov : Covered messages (headTurns messages tailTurns).flatten
      (outcome messages tailTurns keepTokens))
    {turn : List Nat} (hturn : turn ∈ youngest :: earlier) {i : Nat} (hi : i ∈ turn)
    {r : MessageRecord} (hr : messages[i]? = some r) (hord : r.isOrdinary = true) :
    i ∈ overflow ∨ i = messages.length - 1 := by
  have hhead := (overflow_eq hslice ht).1
  have hb := bounds_of_mem hslice hturn hi
  rw [ht] at hcov
  rcases hcov i r hr hord with hin | ⟨k, hk, hle⟩
  · rcases List.mem_append.mp (mem_sortIndices.mp hin) with hbefore | hov
    · exact absurd hbefore (not_mem_before hslice hturn hi)
    · exact .inl hov
  · simp only [Walk.tailIndices, hhead, Option.some.injEq] at hk
    omega

private theorem shape_of_covered (hs : Stored messages) {overflow reversed : List Nat}
    (ht : outcome messages tailTurns keepTokens = .overflowed overflow reversed)
    (hcov : Covered messages (headTurns messages tailTurns).flatten
      (outcome messages tailTurns keepTokens)) :
    ∃ older i, earlier = [older] ∧ youngest = [i] ∧
      ∀ j ∈ keptOf (tokensAt messages) keepTokens (tokensAt messages i) older,
        ∀ r, messages[j]? = some r → r.isOrdinary = false := by
  obtain ⟨hhead, front, turn, back, accumulated, hsplit, hcut, hacc⟩ := overflow_eq hslice ht
  have hdisj := List.pairwise_cons.mp (pairwise_disjoint hslice)
  have hlast := getLast?_youngest hslice
  have hlastmem := List.mem_of_getLast? hlast
  have hcutsub : ∀ i ∈ overflow, i ∈ turn := by
    intro i hi
    rw [hcut] at hi
    exact (List.rdropWhile_prefix _ turn).mem hi
  have hturn : turn ∈ earlier := by simp [hsplit]
  -- every other older turn would lose the record that opens it
  have hother : ∀ u ∈ front ++ back, False := by
    intro u hu
    have humem : u ∈ earlier := by
      rw [hsplit]
      rcases List.mem_append.mp hu with hu | hu <;> simp [hu]
    obtain ⟨i, r, -, hi, hr, hord⟩ := ordinary_of_head hslice hs (List.mem_cons_of_mem _ humem)
    have hpair := hdisj.2
    rw [hsplit, List.pairwise_middle (fun h => List.disjoint_symm h)] at hpair
    rcases mem_overflow_or_last hslice ht hcov (by simp [humem]) hi hr hord with hov | heq
    · exact (List.pairwise_cons.mp hpair).1 u hu (hcutsub i hov) hi
    · exact hdisj.1 u humem (heq ▸ hlastmem) hi
  have hfront : front = [] := List.eq_nil_iff_forall_not_mem.mpr fun u hu =>
    hother u (by simp [hu])
  have hback : back = [] := List.eq_nil_iff_forall_not_mem.mpr fun u hu =>
    hother u (by simp [hu])
  subst hfront hback
  -- the record that opens the youngest turn is the last one
  obtain ⟨i, r, hi, hin, hr, hord⟩ := ordinary_of_head hslice hs List.mem_cons_self
  have hi' : i = messages.length - 1 :=
    (mem_overflow_or_last hslice ht hcov (by simp) hin hr hord).resolve_left
      fun hov => hdisj.1 turn hturn hin (hcutsub i hov)
  obtain ⟨j, rest, rfl⟩ := List.exists_cons_of_ne_nil (ne_nil_of_mem hslice List.mem_cons_self)
  obtain rfl : j = i := by simpa using hi
  have hrest : rest = [] := by
    by_contra hne
    rw [List.getLast?_cons_of_ne_nil hne] at hlast
    exact (List.nodup_cons.mp (nodup_of_mem hslice List.mem_cons_self)).1
      (hi' ▸ List.mem_of_getLast? hlast)
  subst hrest
  refine ⟨turn, j, hsplit, rfl, ?_⟩
  intro k hk s hsk
  have hacc' : accumulated = tokensAt messages j := by
    rw [hacc rfl, weight_cons, weight_nil, Nat.add_zero]
  rw [← hacc'] at hk
  by_contra hord'
  have hkturn : k ∈ turn := (List.rtakeWhile_suffix _ turn).mem hk
  rcases mem_overflow_or_last hslice ht hcov (List.mem_cons_of_mem _ hturn) hkturn hsk
    (by simpa using hord') with hkc | hklast
  · rw [hcut] at hkc
    have hnd := nodup_of_mem hslice (List.mem_cons_of_mem _ hturn)
    rw [← cutOf_append_keptOf (tokensAt messages) keepTokens accumulated turn] at hnd
    exact (List.nodup_append.mp hnd).2.2 k hkc k hk rfl
  · exact hdisj.1 turn hturn (hklast ▸ hlastmem) hkturn

private theorem covered_of_shape {overflow reversed : List Nat}
    (ht : outcome messages tailTurns keepTokens = .overflowed overflow reversed)
    {older : List Nat} {i : Nat} (hearlier : earlier = [older]) (hyoung : youngest = [i])
    (hkept : ∀ j ∈ keptOf (tokensAt messages) keepTokens (tokensAt messages i) older,
      ∀ r, messages[j]? = some r → r.isOrdinary = false) :
    Covered messages (headTurns messages tailTurns).flatten
      (outcome messages tailTurns keepTokens) := by
  obtain ⟨hhead, front, turn, back, accumulated, hsplit, hcut, hacc⟩ := overflow_eq hslice ht
  have hlast := getLast?_youngest hslice
  obtain ⟨rfl, rfl, rfl⟩ : front = [] ∧ turn = older ∧ back = [] := by
    rw [hearlier] at hsplit
    cases front with
    | nil =>
      rw [List.nil_append] at hsplit
      injection hsplit with h₁ h₂
      exact ⟨rfl, h₁.symm, h₂.symm⟩
    | cons u us => simp at hsplit
  have hacc' : accumulated = tokensAt messages i := by
    rw [hacc rfl, hyoung, weight_cons, weight_nil, Nat.add_zero]
  intro j r hr hord
  rw [ht]
  simp only [Walk.headIndices, Walk.tailIndices, hhead, mem_sortIndices, List.mem_append]
  rcases Nat.lt_or_ge j (headTurns messages tailTurns).flatten.length with hlt | hge
  · exact .inl (.inl ((mem_before_iff j).mpr hlt))
  · have hjn : j < messages.length := (List.getElem?_eq_some_iff.mp hr).1
    have hmem := (mem_slice_iff j).mpr ⟨hge, hjn⟩
    rw [slice_eq hslice, hearlier] at hmem
    simp only [List.reverse_singleton, List.cons_append, List.nil_append, List.flatten_cons,
      List.flatten_nil, List.append_nil, List.mem_append] at hmem
    rcases hmem with hmem | hmem
    · rw [← cutOf_append_keptOf (tokensAt messages) keepTokens accumulated turn,
        List.mem_append, ← hcut] at hmem
      rcases hmem with hc | hk
      · exact .inl (.inr hc)
      · rw [hacc'] at hk
        rw [hkept j hk r hr] at hord
        cases hord
    · rw [hyoung, List.mem_singleton] at hmem
      rw [hyoung, List.getLast?_singleton, Option.some.injEq] at hlast
      exact .inr ⟨_, rfl, by omega⟩

/-- The shape of an overflowing walk that loses no ordinary record. -/
private theorem covered_iff_of_overflow (hs : Stored messages) {overflow reversed : List Nat}
    (ht : outcome messages tailTurns keepTokens = .overflowed overflow reversed) :
    Covered messages (headTurns messages tailTurns).flatten
        (outcome messages tailTurns keepTokens) ↔
      ∃ older i, earlier = [older] ∧ youngest = [i] ∧
        ∀ j ∈ keptOf (tokensAt messages) keepTokens (tokensAt messages i) older,
          ∀ r, messages[j]? = some r → r.isOrdinary = false := by
  constructor
  · exact shape_of_covered hslice hs ht
  · rintro ⟨older, i, hearlier, hyoung, hkept⟩
    exact covered_of_shape hslice ht hearlier hyoung hkept

/-- No index of the head lies from the boundary on. -/
private theorem head_lt_boundary {i k : Nat}
    (hi : i ∈ (outcome messages tailTurns keepTokens).headIndices
      (headTurns messages tailTurns).flatten)
    (hk : (outcome messages tailTurns keepTokens).tailIndices.head? = some k) : i < k := by
  have hnd : ∀ u ∈ earlier, u.Nodup := fun u hu => nodup_of_mem hslice (by simp [hu])
  have hyne : youngest ≠ [] := ne_nil_of_mem hslice (by simp)
  have hsub := walkTurns_tail_subset (weight (tokensAt messages) youngest) youngest hnd hyne k
    (by rw [← outcome_eq hslice]; exact List.mem_of_mem_head? hk)
  have hbk : (headTurns messages tailTurns).flatten.length ≤ k := by
    rcases hsub with hk | hk
    · exact (bounds_of_mem hslice (by simp) hk).1
    · obtain ⟨u, hu, hku⟩ := List.mem_flatten.mp hk
      exact (bounds_of_mem hslice (by simp [hu]) hku).1
  cases ht : outcome messages tailTurns keepTokens with
  | fitted t =>
    rw [ht] at hi
    have := (mem_before_iff i).mp hi
    omega
  | overflowed overflow reversed =>
    rw [ht] at hi hk
    obtain ⟨front, turn, back, more, accumulated, hsplit, hcut, hrev, -, -⟩ :=
      walkTurns_overflow youngest hnd hyne ((outcome_eq hslice).symm.trans ht)
    have hlast := getLast?_youngest hslice
    have hkn : k = messages.length - 1 := by
      simp only [Walk.tailIndices, hrev, List.head?_reverse,
        List.getLast?_append_of_ne_nil _ hyne, hlast, Option.some.injEq] at hk
      exact hk.symm
    rcases List.mem_append.mp (mem_sortIndices.mp hi) with hb | hc
    · have := (mem_before_iff i).mp hb
      omega
    · have hturn : turn ∈ earlier := by simp [hsplit]
      have hin : i ∈ turn := by
        rw [hcut] at hc
        exact (List.rdropWhile_prefix _ turn).mem hc
      have hlt := (bounds_of_mem hslice (by simp [hturn]) hin).2
      have hne : i ≠ messages.length - 1 := by
        rintro rfl
        exact (List.pairwise_cons.mp (pairwise_disjoint hslice)).1 turn hturn
          (List.mem_of_getLast? hlast) hin
      omega

end Layout

/-- The walk over exactly two preserved turns, the younger a single record. -/
private theorem outcome_pair {older : List Nat} {i : Nat}
    (hslice : (tailTurnsSlice messages tailTurns).reverse = [[i], older]) :
    outcome messages tailTurns keepTokens =
      let kept := keptOf (tokensAt messages) keepTokens (tokensAt messages i) older
      if keepTokens < tokensAt messages i + weight (tokensAt messages) kept then
        .overflowed (cutOf (tokensAt messages) keepTokens (tokensAt messages i) older) [i]
      else .fitted (sortIndices (kept ++ [i])) := by
  have hnd : older.Nodup := nodup_of_mem hslice (by simp)
  rw [outcome_eq hslice, weight_cons, weight_nil, Nat.add_zero, walkTurns_older _ _ hnd (by simp)]
  rfl

/-! ### Conservation -/

/-- The shapes of preserved turns for which selector and filter agree. -/
def Conserving (messages : List MessageRecord) (tailTurns keepTokens : Nat) : Prop :=
  match (tailTurnsSlice messages tailTurns).reverse with
  | [] | [_] => True
  | youngest :: earlier =>
      OldestKept (tokensAt messages) keepTokens earlier (weight (tokensAt messages) youngest) ∨
      ∃ older i, earlier = [older] ∧ youngest = [i] ∧
        let kept := keptOf (tokensAt messages) keepTokens (tokensAt messages i) older
        keepTokens < tokensAt messages i + weight (tokensAt messages) kept ∧
          ∀ j ∈ kept, ∀ r, messages[j]? = some r → r.isOrdinary = false

/-- Nothing is out of reach exactly for the conserving shapes. -/
theorem covered_iff (hs : Stored messages) :
    Covered messages (headTurns messages tailTurns).flatten
        (outcome messages tailTurns keepTokens) ↔
      Conserving messages tailTurns keepTokens := by
  unfold Conserving
  split
  · next hnil =>
    -- no preserved turn: everything is in the head
    have hslice : tailTurnsSlice messages tailTurns = [] := List.reverse_eq_nil_iff.mp hnil
    apply iff_of_true _ trivial
    intro i r hr _
    have hlt := (List.getElem?_eq_some_iff.mp hr).1
    have hflat := headTurns_append_tailTurnsSlice messages tailTurns
    rw [hslice, List.flatten_nil, List.append_nil] at hflat
    apply Or.inl
    simp only [outcome, hslice, List.reverse_nil, walkTurns, Walk.headIndices, hflat]
    exact List.mem_range.mpr hlt
  · next turn hone =>
    -- the only preserved turn is kept whole
    apply iff_of_true _ trivial
    intro i r hr _
    have hlt := (List.getElem?_eq_some_iff.mp hr).1
    rw [outcome_eq hone, walkTurns]
    simp only [Walk.headIndices, Walk.tailIndices, mem_before_iff]
    rcases Nat.lt_or_ge i (headTurns messages tailTurns).flatten.length with hbefore | hge
    · exact .inl hbefore
    · have hmem := (mem_slice_iff i).mpr ⟨hge, hlt⟩
      rw [slice_eq hone] at hmem
      exact .inr (head?_sortIndices_le (by simpa using hmem))
  · next youngest earlier hnot hslice =>
    have hne : earlier ≠ [] := fun hnil => hnot hnil
    by_cases hkept : OldestKept (tokensAt messages) keepTokens earlier
        (weight (tokensAt messages) youngest)
    · exact iff_of_true (covered_of_oldestKept hslice hne hkept) (.inl hkept)
    · rw [or_iff_right hkept]
      cases ht : outcome messages tailTurns keepTokens with
      | fitted t =>
        rw [← ht]
        apply iff_of_false (not_covered_of_fitted hslice hs hne hkept ht)
        rintro ⟨older, i, rfl, rfl, hover, -⟩
        rw [outcome_pair hslice, if_pos hover] at ht
        cases ht
      | overflowed overflow reversed =>
        rw [← ht, covered_iff_of_overflow hslice hs ht]
        constructor
        · rintro ⟨older, i, rfl, rfl, hflagged⟩
          refine ⟨older, i, rfl, rfl, ?_, hflagged⟩
          by_contra hover
          rw [outcome_pair hslice, if_neg hover] at ht
          cases ht
        · rintro ⟨older, i, hearlier, hyoung, -, hflagged⟩
          exact ⟨older, i, hearlier, hyoung, hflagged⟩

/-! ### Selector and filter together -/

/-- Every ordinary record is summarised or still visible, and no record is both. -/
structure Conserves (messages head visible : List MessageRecord) : Prop where
  kept : ∀ r ∈ messages, r.isOrdinary = true → r ∈ head ∨ r ∈ visible
  once : ∀ r, ¬ (r ∈ head ∧ r ∈ visible)

/-- The tail of a selection lies in the history, from its boundary on past the head. -/
private theorem tail_layout {k : Nat}
    (hk : (outcome messages tailTurns keepTokens).tailIndices.head? = some k) :
    k < messages.length ∧ ∀ i ∈ (outcome messages tailTurns keepTokens).headIndices
      (headTurns messages tailTurns).flatten, i < k := by
  cases hslice : (tailTurnsSlice messages tailTurns).reverse with
  | nil => simp [outcome, hslice, walkTurns, Walk.tailIndices, sortIndices] at hk
  | cons youngest earlier =>
    refine ⟨?_, fun i hi => head_lt_boundary hslice hi hk⟩
    have hmem := List.mem_of_mem_head? hk
    rw [outcome_eq hslice] at hmem
    rcases walkTurns_tail_subset _ youngest (fun u hu => nodup_of_mem hslice (by simp [hu]))
      (ne_nil_of_mem hslice (by simp)) k hmem with hk | hk
    · exact (bounds_of_mem hslice (by simp) hk).2
    · obtain ⟨u, hu, hku⟩ := List.mem_flatten.mp hk
      exact (bounds_of_mem hslice (by simp [hu]) hku).2

private theorem tailStartId_eq :
    (select messages tailTurns keepTokens).tailStartId =
      (outcome messages tailTurns keepTokens).tailIndices.head?.bind
        fun k => messages[k]?.map MessageRecord.id := by
  have hlayout : ∀ k, (outcome messages tailTurns keepTokens).tailIndices.head? = some k →
      k < messages.length ∧ ∀ i ∈ (outcome messages tailTurns keepTokens).headIndices
        (headTurns messages tailTurns).flatten, i < k := fun _ => tail_layout
  rw [select_eq]
  dsimp only
  generalize (outcome messages tailTurns keepTokens).tailIndices = tail at *
  cases tail with
  | nil => rfl
  | cons k rest =>
    have hlt := (hlayout k rfl).1
    rw [recordsAt_cons (List.getElem?_eq_getElem hlt)]
    simp [List.getElem?_eq_getElem hlt]

/-- What the filter shows of a history after the pair of its selection: the ordinary records
from the boundary on. -/
private theorem mem_visible_iff (hs : Stored messages) {checkpointId : Uuid}
    (hfresh : checkpointId ∉ messages.map MessageRecord.id) (markerId markerTime summaryId
      summaryTime : Nat) (sessionId : Uuid) (text : String) {i : Nat} {r : MessageRecord}
    (hr : messages[i]? = some r) :
    let boundary := (select messages tailTurns keepTokens).boundary
    r ∈ Context.applyCompactionFilter checkpointId (messages ++
        [compactionMarker markerId markerTime sessionId boundary,
          compactionSummary summaryId summaryTime sessionId boundary text]) ↔
      r.isOrdinary = true ∧
        ∃ k, (outcome messages tailTurns keepTokens).tailIndices.head? = some k ∧ k ≤ i := by
  intro boundary
  have hmem : r ∈ messages := List.mem_of_getElem? hr
  have hcheck : r ∉ Context.checkpointOf checkpointId
      (compactionMarker markerId markerTime sessionId boundary)
      (compactionSummary summaryId summaryTime sessionId boundary text) := by
    intro hin
    obtain rfl := List.mem_singleton.mp hin
    exact hfresh (List.mem_map_of_mem hmem)
  rw [Context.applyCompactionFilter_append_pair checkpointId messages rfl rfl
    (show _ = some boundary from rfl), List.mem_append, or_iff_right hcheck]
  have hboundary : boundary = (select messages tailTurns keepTokens).tailStartId.getD Uuid.nil :=
    rfl
  rw [tailStartId_eq] at hboundary
  cases hk : (outcome messages tailTurns keepTokens).tailIndices.head? with
  | none =>
    rw [hk] at hboundary
    have hnone : messages.findIdx? (fun a => a.id == boundary) = none := by
      rw [List.findIdx?_eq_none_iff]
      intro a ha
      simpa [hboundary] using hs.generated a ha
    simp [hnone]
  | some k =>
    obtain ⟨first, hfirst⟩ : ∃ first, messages[k]? = some first :=
      ⟨_, List.getElem?_eq_getElem (tail_layout hk).1⟩
    rw [hk, Option.bind_some, hfirst, Option.map_some, Option.getD_some] at hboundary
    rw [hboundary, findIdx?_id hs.ids hfirst]
    simp [mem_drop_iff_le hs.ids hr, and_comm]

/-- Selector and filter conserve the conversation when nothing is out of reach. -/
theorem conserves_iff_covered (hs : Stored messages) {checkpointId : Uuid}
    (hfresh : checkpointId ∉ messages.map MessageRecord.id) (markerId markerTime summaryId
      summaryTime : Nat) (sessionId : Uuid) (text : String) :
    let selection := select messages tailTurns keepTokens
    Conserves messages selection.head (Context.applyCompactionFilter checkpointId (messages ++
        [compactionMarker markerId markerTime sessionId selection.boundary,
          compactionSummary summaryId summaryTime sessionId selection.boundary text])) ↔
      Covered messages (headTurns messages tailTurns).flatten
        (outcome messages tailTurns keepTokens) := by
  intro selection
  have hhead : selection.head = recordsAt messages ((outcome messages tailTurns
      keepTokens).headIndices (headTurns messages tailTurns).flatten) := by
    rw [show selection = select messages tailTurns keepTokens from rfl, select_eq]
  have hvisible := fun {i r} (hr : messages[i]? = some r) =>
    @mem_visible_iff messages tailTurns keepTokens hs checkpointId hfresh markerId markerTime
      summaryId summaryTime sessionId text i r hr
  constructor
  · intro h i r hr hord
    have hkept := h.kept r (List.mem_of_getElem? hr) hord
    rw [hhead, mem_recordsAt hs.ids hr] at hkept
    apply hkept.imp_right
    intro hin
    exact ((hvisible hr).mp hin).2
  · intro hcov
    constructor
    · intro r hmem hord
      obtain ⟨i, hr⟩ := List.mem_iff_getElem?.mp hmem
      rw [hhead, mem_recordsAt hs.ids hr]
      apply (hcov i r hr hord).imp_right
      intro hk
      exact (hvisible hr).mpr ⟨hord, hk⟩
    · rintro r ⟨hin, hvis⟩
      rw [hhead] at hin
      obtain ⟨i, hi, hr⟩ := List.mem_filterMap.mp hin
      obtain ⟨-, k, hk, hle⟩ := (hvisible hr).mp hvis
      have := (tail_layout hk).2 i hi
      omega

/-- **A compaction conserves the conversation exactly when its preserved turns are of a
conserving shape**; the head is the one its request summarises. -/
theorem compactImpl_conserves_iff (host : Host) (service : CompactionService)
    (provider : ChatProvider) (model : String) (sessionId : Uuid) (keep : Option Nat)
    (w w' : World) (result : CompactionResult) (checkpointId : Uuid)
    (hs : Stored (w.messages sessionId))
    (hrun : service.compactImpl host (w.messages sessionId) provider model sessionId keep w =
      .ok result w')
    (happended : w'.messages sessionId ≠ w.messages sessionId)
    (hfresh : checkpointId ∉ (w.messages sessionId).map MessageRecord.id) :
    let keepTokens := keep.getD service.config.keepTokens
    let selection := select (w.messages sessionId) service.config.tailTurns keepTokens
    PairAppended provider model sessionId selection w w' ∧
      (Conserves (w.messages sessionId) selection.head
          (Context.applyCompactionFilter checkpointId (w'.messages sessionId)) ↔
        Conserving (w.messages sessionId) service.config.tailTurns keepTokens) := by
  intro keepTokens selection
  rcases wp_ok (wp_compactImpl host service _ provider model sessionId keep w) hrun with
    rfl | hpair
  · exact absurd rfl happended
  · refine ⟨hpair, ?_⟩
    obtain ⟨⟨markerId, markerTime, summaryId, summaryTime, text, hmessages⟩, -⟩ := hpair
    rw [hmessages]
    apply Iff.trans _ (covered_iff hs)
    exact conserves_iff_covered hs hfresh markerId markerTime summaryId summaryTime sessionId text

/-- Three short exchanges of a user and an assistant; every record is estimated at 9 tokens. -/
def threeExchanges : List MessageRecord :=
  twoExchanges ++ [.new 5 4 7 .user [.ofText "ping"], .new 6 5 7 .assistant [.ofText "pong"]]

/-- A provider that summarises everything as "done". -/
def tersely : ChatProvider where
  id := "p"
  capabilities := ⟨false, none, none⟩
  complete _ _ := .ok ⟨.assistant [.ofText "done"] [], .stop, none⟩
  stream _ _ := .ok []

theorem stored_threeExchanges : Stored threeExchanges where
  ids := by decide
  generated := by decide
  summaries := by decide
  opening := by
    rintro r ⟨⟩
    rfl

/-- With a budget for one exchange and a half, the second exchange is neither summarised nor
visible. -/
theorem compactImpl_loses_exchange :
    let w := World.ofSession 7 threeExchanges
    let service : CompactionService := ⟨⟨[tersely]⟩, { keepTokens := 20 }⟩
    ∃ result w', service.compactImpl .benign threeExchanges tersely "m" 7 none w = .ok result w' ∧
      w.messages 7 = threeExchanges ∧ Stored threeExchanges ∧ w'.messages 7 ≠ threeExchanges ∧
      ¬ Conserves threeExchanges (select threeExchanges 2 20).head
        (Context.applyCompactionFilter 9 (w'.messages 7)) := by
  intro w service
  refine ⟨_, _, rfl, rfl, stored_threeExchanges, ?_, ?_⟩
  · intro h
    exact absurd (congrArg List.length h) (by decide)
  · intro h
    have hmem : MessageRecord.new 3 2 7 .user [.ofText "ping"] ∈ threeExchanges := by
      simp [threeExchanges, twoExchanges]
    rcases h.kept _ hmem rfl with hin | hin
    · exact absurd (List.mem_map_of_mem (f := MessageRecord.id) hin) (by decide)
    · exact absurd (List.mem_map_of_mem (f := MessageRecord.id) hin) (by decide)

/-- With a budget for two exchanges, everything is summarised or visible. -/
theorem compactImpl_keeps_exchanges :
    ∃ result w', CompactionService.compactImpl .benign ⟨⟨[tersely]⟩, { keepTokens := 36 }⟩
        threeExchanges tersely "m" 7 none (World.ofSession 7 threeExchanges) = .ok result w' ∧
      Conserves threeExchanges (select threeExchanges 2 36).head
        (Context.applyCompactionFilter 9 (w'.messages 7)) := by
  refine ⟨_, _, rfl, ?_⟩
  apply (compactImpl_conserves_iff .benign ⟨⟨[tersely]⟩, { keepTokens := 36 }⟩ tersely "m" 7 none
    (World.ofSession 7 threeExchanges) _ _ 9 stored_threeExchanges rfl ?_ ?_).2.mpr
  · exact .inl ⟨fun _ => by decide, by decide, trivial⟩
  · intro h
    exact absurd (congrArg List.length h) (by decide)
  · decide

end Behest.Compaction
