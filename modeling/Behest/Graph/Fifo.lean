import Mathlib.Data.List.Infix
import Mathlib.Data.List.Perm.Basic
import Behest.Graph.Kahn

/-!
# The order in which nodes become ready

Kahn's loop takes the nodes first in, first out. A node whose needs are met earlier comes
earlier; nodes that become ready in the same round come as they are listed. An order in which no
two nodes become ready in the same round is the only one that the loop can find, however the
nodes are listed.
-/

namespace Graph

variable {α : Type}

/-- All needs of a node are met. -/
def Met (deps : α → List α) (order : List α) (n : α) : Prop := ∀ d ∈ deps n, d ∈ order

/-- At some point of the order the needs of a node are met, and those of another are not. -/
def ReadyFirst (deps : α → List α) (order : List α) (a b : α) : Prop :=
  ∃ front, front <+: order ∧ Met deps front a ∧ ¬ Met deps front b

variable {deps : α → List α} {order more : List α} {a b : α}

theorem Met.mono (h : Met deps order a) (hsub : order ⊆ more) : Met deps more a :=
  fun d hd => hsub (h d hd)

theorem ReadyFirst.mono (h : ReadyFirst deps order a b) (hinitial : order <+: more) :
    ReadyFirst deps more a b := by
  obtain ⟨front, hfront, ha, hb⟩ := h
  exact ⟨front, hfront.trans hinitial, ha, hb⟩

/-- Once the needs of both nodes are met, what follows does not matter. -/
theorem ReadyFirst.of_extended (h : ReadyFirst deps more a b) (hinitial : order <+: more)
    (hb : Met deps order b) : ReadyFirst deps order a b := by
  obtain ⟨front, hfront, hmet, hnot⟩ := h
  rcases List.prefix_or_prefix_of_prefix hfront hinitial with hshort | hlong
  · exact ⟨front, hshort, hmet, hnot⟩
  · exact absurd (hb.mono hlong.subset) hnot

theorem ReadyFirst.asymm (h : ReadyFirst deps order a b) : ¬ ReadyFirst deps order b a := by
  obtain ⟨front, hfront, ha, hb⟩ := h
  rintro ⟨front', hfront', hb', ha'⟩
  rcases List.prefix_or_prefix_of_prefix hfront hfront' with hshort | hlong
  · exact ha' (ha.mono hshort.subset)
  · exact hb (hb'.mono hlong.subset)

/-- Two listings agree on the nodes that come after a common front if in the first no two become
ready at once, and in the second none comes after one that becomes ready later. -/
theorem eq_of_readyFirst {front later later' : List α}
    (h : Respects deps (front ++ later)) (h' : Respects deps (front ++ later'))
    (hperm : later'.Perm later) (hnodup : later.Nodup)
    (hstrict : later.Pairwise (ReadyFirst deps (front ++ later)))
    (hfifo : later'.Pairwise fun a b => ¬ ReadyFirst deps (front ++ later') b a) :
    later' = later := by
  induction later generalizing front later' with
  | nil => exact hperm.eq_nil
  | cons b rest ih =>
    cases later' with
    | nil => exact hperm.symm.eq_nil.symm
    | cons a rest' =>
      have hab : a = b := by
        by_contra hne
        have ha : a ∈ rest :=
          (List.mem_cons.mp (hperm.subset List.mem_cons_self)).resolve_left hne
        have hb : b ∈ rest' :=
          (List.mem_cons.mp (hperm.symm.subset List.mem_cons_self)).resolve_left (Ne.symm hne)
        have hmet : Met deps front a := h' front a rest' rfl
        -- the first listing has the other node ready before this one, already in the front
        have hready : ReadyFirst deps front b a :=
          (List.rel_of_pairwise_cons hstrict ha).of_extended (List.prefix_append ..) hmet
        exact List.rel_of_pairwise_cons hfifo hb (hready.mono (List.prefix_append ..))
      subst hab
      rw [List.append_cons] at h h' hstrict hfifo
      exact congrArg (a :: ·) (ih h h' ((List.perm_cons a).mp hperm)
        (List.nodup_cons.mp hnodup).2 (List.pairwise_cons.mp hstrict).2
        (List.pairwise_cons.mp hfifo).2)

variable [DecidableEq α]

namespace Frontier

/-- A node that names the same need several times is relaxed as often. -/
theorem relaxAll_replicate {s : Frontier α} {m : α} {k : Nat} (hle : k ≤ s.degree m) :
    s.relaxAll (List.replicate k m) =
      ⟨Function.update s.degree m (s.degree m - k),
        if 0 < k ∧ s.degree m = k then s.queue ++ [m] else s.queue⟩ := by
  induction k generalizing s with
  | zero => simp
  | succ k ih =>
    have hdegree : (s.relax m).degree m = s.degree m - 1 := by rw [degree_relax, if_pos rfl]
    rw [List.replicate_succ, relaxAll_cons, ih (by rw [hdegree]; omega), hdegree]
    refine congr (congrArg Frontier.mk ?_) ?_
    · rw [relax, Function.update_idem, Nat.sub_sub, Nat.add_comm 1]
    · unfold relax
      by_cases hlast : s.degree m = k + 1
      · by_cases hk : k = 0
        · simp [hlast, hk]
        · simp [hlast, hk, Nat.pos_of_ne_zero hk]
      · have hne : ¬ s.degree m - 1 = k := by omega
        have hne' : ¬ s.degree m - 1 = 0 := by omega
        simp [hlast, hne, hne']

/-- The nodes that become ready in a round start to wait as they are listed. -/
theorem queue_relaxAll {s : Frontier α} {names : List α} {k : α → Nat} (hnames : names.Nodup)
    (hle : ∀ m ∈ names, k m ≤ s.degree m) :
    (s.relaxAll (names.flatMap fun m => List.replicate (k m) m)).queue =
      s.queue ++ names.filter fun m => decide (0 < k m ∧ s.degree m = k m) := by
  induction names generalizing s with
  | nil => simp
  | cons m rest ih =>
    obtain ⟨hm, hrest⟩ := List.nodup_cons.mp hnames
    have hsame : ∀ n ∈ rest, Function.update s.degree m (s.degree m - k m) n = s.degree n :=
      fun n hn => Function.update_of_ne (by rintro rfl; exact hm hn) ..
    have happend : s.relaxAll ((m :: rest).flatMap fun m => List.replicate (k m) m) =
        (s.relaxAll (List.replicate (k m) m)).relaxAll
          (rest.flatMap fun m => List.replicate (k m) m) := by
      rw [List.flatMap_cons, relaxAll, List.foldl_append]
      rfl
    rw [happend, relaxAll_replicate (hle m List.mem_cons_self), ih hrest fun n hn =>
      (hle n (List.mem_cons_of_mem _ hn)).trans (Nat.le_of_eq (hsame n hn).symm)]
    have hfilter : (rest.filter fun n =>
        decide (0 < k n ∧ Function.update s.degree m (s.degree m - k m) n = k n)) =
          rest.filter fun n => decide (0 < k n ∧ s.degree n = k n) :=
      List.filter_congr fun n hn => by rw [hsame n hn]
    rw [hfilter, List.filter_cons]
    split
    · next h => simp [h]
    · next h => simp [h]

end Frontier

/-- Nodes come as they become ready: earlier ones first, those of one round as they are listed. -/
def InTurn (names : List α) (deps : α → List α) (order : List α) (a b : α) : Prop :=
  ReadyFirst deps order a b ∨ ¬ ReadyFirst deps order b a ∧ [a, b].Sublist names

/-- After the first nodes, all others are in turn. -/
def Fifo (names : List α) (deps : α → List α) (first order queue : List α) : Prop :=
  ∃ later, order ++ queue = first ++ later ∧
    later.Pairwise (InTurn names deps order)

namespace Sorted

variable {names first queue : List α} {degree : α → Nat} {n : α} {s : Frontier α}

/-- The nodes that become ready in a round. -/
theorem queue_step (hnames : names.Nodup) (h : Sorted names deps order ⟨degree, n :: queue⟩) :
    (Frontier.relaxAll ⟨degree, queue⟩ (dependents names deps n)).queue =
      queue ++ names.filter fun m =>
        decide (0 < (deps m).count n ∧ degree m = (deps m).count n) := by
  refine Frontier.queue_relaxAll hnames fun m hm => ?_
  exact Nat.le_trans (Nat.le_add_left ..) (Nat.le_of_eq (h.degree_eq hm).symm)

/-- A waiting node has its needs met. -/
theorem met (h : Sorted names deps order s) (hn : n ∈ order ++ s.queue) : Met deps order n := by
  obtain ⟨hmem, hzero⟩ := (h.mem n).mp hn
  rw [h.degree n hmem, List.countP_eq_zero] at hzero
  simpa [Met] using hzero

/-- Which nodes become ready in a round: the last of their needs is met in it. -/
theorem ready_iff (h : Sorted names deps order ⟨degree, n :: queue⟩) {m : α} (hm : m ∈ names) :
    (0 < (deps m).count n ∧ degree m = (deps m).count n) ↔
      Met deps (order ++ [n]) m ∧ ¬ Met deps order m := by
  have hmet : Met deps (order ++ [n]) m ↔ (deps m).countP (· ∉ order ++ [n]) = 0 := by
    rw [List.countP_eq_zero]
    simp only [Met, decide_not, Bool.not_eq_true', decide_eq_false_iff_not, not_not]
  have hmet' : Met deps order m ↔ (deps m).countP (· ∉ order) = 0 := by
    rw [List.countP_eq_zero]
    simp [Met]
  rw [hmet, hmet', countP_snoc h.not_mem_order, h.degree_eq hm]
  omega

/-- A round keeps the nodes in turn. -/
theorem fifo_step (hnames : names.Nodup) (h : Sorted names deps order ⟨degree, n :: queue⟩)
    (hfifo : Fifo names deps first order (n :: queue)) :
    Fifo names deps first (order ++ [n])
      (Frontier.relaxAll ⟨degree, queue⟩ (dependents names deps n)).queue := by
  obtain ⟨later, hlater, hturn⟩ := hfifo
  have hmet : ∀ m ∈ later, Met deps order m := fun m hm =>
    h.met (hlater ▸ List.mem_append_right _ hm)
  have hinitial : order <+: order ++ [n] := List.prefix_append ..
  rw [h.queue_step hnames]
  refine ⟨later ++ names.filter fun m =>
    decide (0 < (deps m).count n ∧ degree m = (deps m).count n), ?_, ?_⟩
  · rw [← List.append_assoc first, ← hlater]
    simp
  · refine List.pairwise_append.mpr ⟨?_, ?_, fun a ha b hb => ?_⟩
    · refine hturn.imp_of_mem fun {a b} ha hb hab => ?_
      rcases hab with hready | ⟨hnot, hlisted⟩
      · exact .inl (hready.mono hinitial)
      · exact .inr ⟨fun hready => hnot (hready.of_extended hinitial (hmet a ha)), hlisted⟩
    · refine List.pairwise_of_forall_sublist fun {a b} hab =>
        .inr ⟨?_, hab.trans List.filter_sublist⟩
      have hready {m : α} (hm : m ∈ [a, b]) :=
        (h.ready_iff (List.mem_filter.mp (hab.subset hm)).1).mp
          (of_decide_eq_true (List.mem_filter.mp (hab.subset hm)).2)
      rintro ⟨front, hfront, hb, ha⟩
      -- a front in which needs of this round are met is the whole order so far
      rcases List.prefix_concat_iff.mp hfront with rfl | hshort
      · exact ha (hready (by simp)).1
      · exact (hready (by simp)).2 (hb.mono hshort.subset)
    · -- the nodes of this round become ready after all that wait already
      obtain ⟨hb, hready⟩ := List.mem_filter.mp hb
      exact .inl ⟨order, hinitial, hmet a ha,
        ((h.ready_iff hb).mp (of_decide_eq_true hready)).2⟩

omit [DecidableEq α] in
theorem fifo_start : Fifo names deps first [] (frontier deps first).queue :=
  ⟨[], by simp [frontier], .nil⟩

/-- The loop keeps the nodes in turn. -/
theorem fifo_kahn (hnames : names.Nodup) {fuel : Nat} (h : Sorted names deps order s)
    (hfuel : names.length ≤ order.length + fuel) (hfifo : Fifo names deps first order s.queue) :
    Fifo names deps first (Graph.kahn names deps fuel s order).1 [] := by
  induction fuel generalizing order s with
  | zero => exact (h.kahn hnames hfuel).2 ▸ hfifo
  | succ fuel ih =>
    obtain ⟨degree, queue⟩ := s
    cases queue with
    | nil => exact hfifo
    | cons n queue =>
      refine ih (h.step hnames) ?_ (h.fifo_step hnames hfifo)
      rw [List.length_append, List.length_singleton]
      omega

end Sorted

/-- An order in which no two nodes become ready at once, after the first ones. -/
structure Strict (deps : α → List α) (first order : List α) : Prop where
  nodup : order.Nodup
  respects : Respects deps order
  ready : ∃ later, order = first ++ later ∧ later.Pairwise (ReadyFirst deps order)

omit [DecidableEq α] in
/-- An order in which all are in turn is the strict one, when there is one. -/
theorem Strict.eq {names first plan order : List α} (h : Strict deps first plan)
    (hrespects : Respects deps order) (hperm : order.Perm plan)
    (hfifo : Fifo names deps first order []) : order = plan := by
  obtain ⟨hnodup, hplan, later, rfl, hstrict⟩ := h
  obtain ⟨later', horder, hturn⟩ := hfifo
  rw [List.append_nil] at horder
  subst horder
  refine congrArg (first ++ ·) (eq_of_readyFirst hplan hrespects
    ((List.perm_append_left_iff first).mp hperm) (List.nodup_append.mp hnodup).2.1 hstrict ?_)
  exact hturn.imp fun hab => hab.elim ReadyFirst.asymm And.left

omit [DecidableEq α] in
/-- Without repetitions, two entries are listed in one order only. -/
theorem not_sublist_swap {names : List α} (hnames : names.Nodup) {a b : α}
    (h : [a, b].Sublist names) : ¬ [b, a].Sublist names := by
  induction names with
  | nil => simp at h
  | cons n rest ih =>
    obtain ⟨hn, hrest⟩ := List.nodup_cons.mp hnames
    intro h'
    rcases List.sublist_cons_iff.mp h with hleft | ⟨tail, heq, htail⟩
    · rcases List.sublist_cons_iff.mp h' with hleft' | ⟨tail', heq', htail'⟩
      · exact ih hrest hleft hleft'
      · cases heq'
        exact hn (hleft.subset (by simp))
    · cases heq
      have hb : b ∈ rest := htail.subset (by simp)
      rcases List.sublist_cons_iff.mp h' with hleft' | ⟨tail', heq', htail'⟩
      · exact hn (hleft'.subset (by simp))
      · cases heq'
        exact hn hb

omit [DecidableEq α] in
/-- An order in which all are in turn, however the nodes are listed, is strict. -/
theorem strict_of_reverse {names first order : List α} (hnodup : order.Nodup)
    (hrespects : Respects deps order) (hnames : names.Nodup)
    (h : Fifo names deps first order []) (h' : Fifo names.reverse deps first order []) :
    Strict deps first order := by
  obtain ⟨later, horder, hturn⟩ := h
  obtain ⟨later', horder', hturn'⟩ := h'
  rw [List.append_nil] at horder horder'
  obtain rfl : later = later' := List.append_cancel_left (horder.symm.trans horder')
  refine ⟨hnodup, hrespects, later, horder, (hturn.and hturn').imp fun {a b} hab => ?_⟩
  obtain ⟨hready | ⟨-, hlisted⟩, hready' | ⟨-, hlisted'⟩⟩ := hab
  · exact hready
  · exact hready
  · exact hready'
  · exact absurd (List.reverse_sublist.mp (by simpa using hlisted'))
      (not_sublist_swap hnames hlisted)

end Graph
