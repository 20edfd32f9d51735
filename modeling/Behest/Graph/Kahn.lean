import Mathlib.Data.Fintype.EquivFin
import Mathlib.Data.Fintype.Sets
import Mathlib.Data.List.Nodup
import Mathlib.Logic.Relation

/-!
# Kahn's algorithm

Nodes that need other nodes, and the order that is found by taking, again and again, a node
whose needs are all met. The order never puts a node before one it needs, and holds every node
exactly when no node needs itself through others.
-/

namespace Graph

variable {α : Type}

/-- No node comes before one it needs. -/
def Respects (deps : α → List α) (order : List α) : Prop :=
  ∀ before n after, order = before ++ n :: after → ∀ d ∈ deps n, d ∈ before

/-- A node needs another one, by itself or through others. -/
def Needs (deps : α → List α) : α → α → Prop :=
  Relation.TransGen fun n d => d ∈ deps n

/-- No node needs itself. -/
def Acyclic (deps : α → List α) : Prop := ∀ n, ¬ Needs deps n n

/-- A node needs itself, or another node that does. -/
def Stuck (deps : α → List α) (n : α) : Prop := ∃ c, Needs deps c c ∧ (n = c ∨ Needs deps n c)

theorem Stuck.of_needs {deps : α → List α} {n d : α} (h : Stuck deps d) (hneeds : Needs deps n d) :
    Stuck deps n := by
  obtain ⟨c, hc, rfl | hd⟩ := h
  · exact ⟨d, hc, .inr hneeds⟩
  · exact ⟨c, hc, .inr (hneeds.trans hd)⟩

theorem Stuck.exists_mem {deps : α → List α} {n : α} (h : Stuck deps n) : ∃ d, d ∈ deps n := by
  obtain ⟨c, hc, hneeds⟩ := h
  have hneeds' : Needs deps n c := hneeds.elim (fun heq => heq ▸ hc) id
  obtain ⟨d, hd, -⟩ := Relation.TransGen.head'_iff.mp hneeds'
  exact ⟨d, hd⟩

theorem acyclic_iff_not_stuck {deps : α → List α} : Acyclic deps ↔ ∀ n, ¬ Stuck deps n := by
  constructor
  · rintro h n ⟨c, hc, -⟩
    exact h c hc
  · exact fun h n hn => h n ⟨n, hn, .inl rfl⟩

theorem Respects.nil {deps : α → List α} : Respects deps [] := by
  intro before n after h
  simp at h

theorem Respects.snoc {deps : α → List α} {order : List α} (h : Respects deps order) {n : α}
    (hn : ∀ d ∈ deps n, d ∈ order) : Respects deps (order ++ [n]) := by
  intro before m after heq
  rcases List.eq_nil_or_concat after with rfl | ⟨init, last, rfl⟩
  · obtain ⟨rfl, hm⟩ := List.append_inj' heq rfl
    cases hm
    exact hn
  · rw [List.concat_eq_append, ← List.cons_append, ← List.append_assoc] at heq
    exact h before m init (List.append_inj' heq rfl).1

/-- What a node needs comes before it, however many nodes lie between. -/
theorem Respects.needs {deps : α → List α} {order : List α} (h : Respects deps order) {n d : α}
    (hneeds : Needs deps n d) {before after : List α} (heq : order = before ++ n :: after) :
    d ∈ before := by
  induction hneeds with
  | single hd => exact h _ _ _ heq _ hd
  | tail _ hd ih =>
    obtain ⟨front, back, rfl⟩ := List.append_of_mem ih
    rw [List.append_assoc, List.cons_append] at heq
    exact List.mem_append_left _ (h _ _ _ heq _ hd)

/-- In an order without repetitions, nothing needs what comes after it. -/
theorem Respects.pairwise {deps : α → List α} {order : List α} (h : Respects deps order)
    (hnodup : order.Nodup) : order.Pairwise fun n m => ¬ Needs deps n m := by
  induction order using List.reverseRecOn with
  | nil => exact .nil
  | append_singleton init last ih =>
    obtain ⟨hinit, -, hlast⟩ := List.nodup_append.mp hnodup
    have hrespects : Respects deps init := fun before n after heq =>
      h before n (after ++ [last]) (by rw [heq, List.append_assoc, List.cons_append])
    refine List.pairwise_append.mpr ⟨ih hrespects hinit, List.pairwise_singleton _ _, ?_⟩
    intro n hn m hm hneeds
    obtain ⟨before, after, rfl⟩ := List.append_of_mem hn
    have hsplit : before ++ n :: after ++ [last] = before ++ n :: (after ++ [last]) := by
      rw [List.append_assoc, List.cons_append]
    have hbefore : m ∈ before := h.needs hneeds hsplit
    exact hlast m (List.mem_append_left _ hbefore) m hm rfl

variable [DecidableEq α]

/-- How many needs of each node are open, and the nodes without open needs that wait. -/
structure Frontier (α : Type) where
  degree : α → Nat
  queue : List α

namespace Frontier

/-- One need of a node is met. -/
def relax (s : Frontier α) (m : α) : Frontier α where
  degree := Function.update s.degree m (s.degree m - 1)
  queue := if s.degree m - 1 = 0 then s.queue ++ [m] else s.queue

def relaxAll (s : Frontier α) (ms : List α) : Frontier α := ms.foldl relax s

@[simp] theorem relaxAll_nil (s : Frontier α) : s.relaxAll [] = s := rfl

@[simp] theorem relaxAll_cons (s : Frontier α) (m : α) (rest : List α) :
    s.relaxAll (m :: rest) = (s.relax m).relaxAll rest := rfl

theorem degree_relax (s : Frontier α) (m n : α) :
    (s.relax m).degree n = s.degree n - if m = n then 1 else 0 := by
  by_cases h : m = n
  · subst h
    simp [relax]
  · simp [relax, h, Ne.symm h]

theorem mem_queue_relax {s : Frontier α} {m n : α} :
    n ∈ (s.relax m).queue ↔ n ∈ s.queue ∨ n = m ∧ s.degree m ≤ 1 := by
  by_cases h : s.degree m - 1 = 0
  · simp [relax, h, show s.degree m ≤ 1 by omega]
  · simp [relax, h, show ¬ s.degree m ≤ 1 by omega]

theorem degree_relaxAll (s : Frontier α) (ms : List α) (n : α) :
    (s.relaxAll ms).degree n = s.degree n - ms.count n := by
  induction ms generalizing s with
  | nil => simp
  | cons m rest ih =>
    rw [relaxAll_cons, ih, degree_relax, List.count_cons, Nat.sub_sub, Nat.add_comm]
    simp

/-- The needs that are met were open. -/
def Owes (s : Frontier α) (ms : List α) : Prop := ∀ n, ms.count n ≤ s.degree n

theorem Owes.relax {s : Frontier α} {m : α} {rest : List α} (h : s.Owes (m :: rest)) :
    (s.relax m).Owes rest := by
  intro n
  have hn := h n
  rw [List.count_cons] at hn
  rw [degree_relax]
  simp only [beq_iff_eq] at hn
  omega

/-- A node starts to wait when the last of its needs is met. -/
theorem mem_queue_relaxAll {s : Frontier α} {ms : List α} (h : s.Owes ms) {n : α} :
    n ∈ (s.relaxAll ms).queue ↔ n ∈ s.queue ∨ n ∈ ms ∧ s.degree n = ms.count n := by
  induction ms generalizing s with
  | nil => simp
  | cons m rest ih =>
    rw [relaxAll_cons, ih h.relax, mem_queue_relax, degree_relax, or_assoc]
    have hn := h n
    by_cases heq : m = n
    · subst heq
      rw [List.count_cons_self] at hn ⊢
      simp only [if_true, List.mem_cons, true_or, true_and, ← List.count_pos_iff (l := rest)]
      have hlast : s.degree m ≤ 1 ∨ 0 < rest.count m ∧ s.degree m - 1 = rest.count m ↔
          s.degree m = rest.count m + 1 := by omega
      rw [hlast]
    · simp [heq, Ne.symm heq, List.count_cons_of_ne]

/-- Waiting nodes have no open needs, so no node waits twice. -/
theorem nodup_relaxAll {s : Frontier α} {ms done : List α} (h : s.Owes ms)
    (hzero : ∀ n ∈ done ++ s.queue, s.degree n = 0) (hnodup : (done ++ s.queue).Nodup) :
    (done ++ (s.relaxAll ms).queue).Nodup := by
  induction ms generalizing s with
  | nil => exact hnodup
  | cons m rest ih =>
    have hm : 0 < s.degree m := by
      have := h m
      rw [List.count_cons_self] at this
      omega
    have hnot : m ∉ done ++ s.queue := fun hmem => by
      rw [hzero m hmem] at hm
      exact Nat.lt_irrefl _ hm
    refine ih h.relax (fun n hn => ?_) ?_
    · rw [degree_relax]
      rcases List.mem_append.mp hn with hn | hn
      · rw [hzero n (List.mem_append_left _ hn), Nat.zero_sub]
      · rcases mem_queue_relax.mp hn with hn | ⟨rfl, hle⟩
        · rw [hzero n (List.mem_append_right _ hn), Nat.zero_sub]
        · rw [if_pos rfl]
          omega
    · unfold relax
      split
      · rw [← List.append_assoc, List.nodup_append]
        exact ⟨hnodup, List.nodup_singleton _, fun n hn k hk =>
          by rw [List.mem_singleton.mp hk]; rintro rfl; exact hnot hn⟩
      · exact hnodup

end Frontier

section Kahn

variable (names : List α) (deps : α → List α)

/-- The nodes that need a node, once for every time they name it. -/
def dependents (n : α) : List α := names.flatMap fun m => List.replicate ((deps m).count n) m

/-- The loop: a waiting node is put into the order and meets a need of its dependents. -/
def kahn : Nat → Frontier α → List α → List α × Frontier α
  | fuel + 1, ⟨degree, n :: queue⟩, order =>
      kahn fuel (Frontier.relaxAll ⟨degree, queue⟩ (dependents names deps n)) (order ++ [n])
  | _, s, order => (order, s)

/-- At first every need is open. -/
def frontier (queue : List α) : Frontier α := ⟨fun n => (deps n).length, queue⟩

/-- How the order and the frontier belong together. -/
structure Sorted (order : List α) (s : Frontier α) : Prop where
  respects : Respects deps order
  nodup : (order ++ s.queue).Nodup
  degree : ∀ n ∈ names, s.degree n = (deps n).countP (· ∉ order)
  mem : ∀ n, n ∈ order ++ s.queue ↔ n ∈ names ∧ s.degree n = 0

variable {names deps}

theorem count_dependents (hnames : names.Nodup) (n m : α) :
    (dependents names deps n).count m = if m ∈ names then (deps m).count n else 0 := by
  unfold dependents
  induction names with
  | nil => simp
  | cons k rest ih =>
    obtain ⟨hk, hrest⟩ := List.nodup_cons.mp hnames
    rw [List.flatMap_cons, List.count_append, ih hrest, List.count_replicate]
    by_cases h : k = m
    · subst h
      simp [hk]
    · simp [h, Ne.symm h]

theorem countP_snoc {order : List α} {n : α} (hn : n ∉ order) (l : List α) :
    l.countP (· ∉ order) = l.countP (· ∉ order ++ [n]) + l.count n := by
  induction l with
  | nil => simp
  | cons d rest ih =>
    rw [List.countP_cons, List.countP_cons, List.count_cons, ih]
    by_cases hd : d = n
    · subst hd
      simp [hn]
      omega
    · by_cases hmem : d ∈ order <;> simp [hmem, hd]
      omega

namespace Sorted

theorem start {queue : List α} (hqueue : queue.Nodup)
    (hmem : ∀ n, n ∈ queue ↔ n ∈ names ∧ deps n = []) :
    Sorted names deps [] (frontier deps queue) where
  respects := .nil
  nodup := hqueue
  degree n _ := by simp [frontier]
  mem n := by simp [frontier, hmem]

variable {order queue : List α} {degree : α → Nat} {n : α} {s : Frontier α}

/-- The node that leaves the queue is not listed yet. -/
theorem not_mem_order (h : Sorted names deps order ⟨degree, n :: queue⟩) : n ∉ order := fun hn =>
  (List.nodup_append.mp h.nodup).2.2 n hn n List.mem_cons_self rfl

/-- What a node needs: the one that leaves the queue, and those that are still to come. -/
theorem degree_eq (h : Sorted names deps order ⟨degree, n :: queue⟩) {m : α} (hm : m ∈ names) :
    degree m = (deps m).countP (· ∉ order ++ [n]) + (deps m).count n := by
  rw [← countP_snoc h.not_mem_order]
  exact h.degree m hm

/-- A round of the loop. -/
theorem step (hnames : names.Nodup) (h : Sorted names deps order ⟨degree, n :: queue⟩) :
    Sorted names deps (order ++ [n])
      (Frontier.relaxAll ⟨degree, queue⟩ (dependents names deps n)) := by
  have hnodup : (order ++ n :: queue).Nodup := h.nodup
  have hmem : ∀ m, m ∈ (order ++ [n]) ++ queue ↔ m ∈ names ∧ degree m = 0 := by
    intro m
    rw [List.append_assoc, List.singleton_append]
    exact h.mem m
  have howes : Frontier.Owes ⟨degree, queue⟩ (dependents names deps n) := by
    intro m
    rw [count_dependents hnames]
    split
    · next hm => exact Nat.le_trans (Nat.le_add_left ..) (Nat.le_of_eq (h.degree_eq hm).symm)
    · exact Nat.zero_le _
  refine ⟨h.respects.snoc fun d hd => ?_, ?_, fun m hm => ?_, fun m => ?_⟩
  · -- a waiting node has no open needs
    obtain ⟨hn, hzero⟩ := (h.mem n).mp (by simp)
    rw [h.degree n hn, List.countP_eq_zero] at hzero
    simpa using hzero d hd
  · refine Frontier.nodup_relaxAll howes (fun m hm => ((hmem m).mp hm).2) ?_
    rwa [List.append_assoc, List.singleton_append]
  · have hdegree := h.degree_eq hm
    rw [Frontier.degree_relaxAll, count_dependents hnames, if_pos hm]
    change degree m - _ = _
    omega
  · have hm := hmem m
    have hle : _ ≤ degree m := howes m
    rw [List.mem_append] at hm ⊢
    rw [Frontier.mem_queue_relaxAll howes, ← or_assoc, hm, Frontier.degree_relaxAll,
      ← List.count_pos_iff (l := dependents names deps n)]
    rw [count_dependents hnames] at hle ⊢
    by_cases hmem : m ∈ names
    · simp only [hmem, if_true, true_and] at hle ⊢
      omega
    · simp [hmem]

/-- The loop keeps the invariant, and ends when no node waits. -/
theorem kahn (hnames : names.Nodup) {fuel : Nat} (h : Sorted names deps order s)
    (hfuel : names.length ≤ order.length + fuel) :
    Sorted names deps (kahn names deps fuel s order).1 (kahn names deps fuel s order).2 ∧
      (kahn names deps fuel s order).2.queue = [] := by
  induction fuel generalizing order s with
  | zero =>
    refine ⟨h, ?_⟩
    have hle : (order ++ s.queue).length ≤ names.length :=
      (h.nodup.subperm fun n hn => ((h.mem n).mp hn).1).length_le
    rw [List.length_append] at hle
    exact List.eq_nil_of_length_eq_zero (by change s.queue.length = 0; omega)
  | succ fuel ih =>
    obtain ⟨degree, queue⟩ := s
    cases queue with
    | nil => exact ⟨h, rfl⟩
    | cons n queue =>
      exact ih (h.step hnames) (by rw [List.length_append, List.length_singleton]; omega)

/-- When no node waits, a node is left out only if one it needs is left out. -/
theorem mem_order (h : Sorted names deps order s) (hempty : s.queue = []) (hn : n ∈ names)
    (hdeps : ∀ d ∈ deps n, d ∈ order) : n ∈ order := by
  have hmem := h.mem n
  rw [hempty, List.append_nil] at hmem
  refine hmem.mpr ⟨hn, ?_⟩
  rw [h.degree n hn, List.countP_eq_zero]
  simpa using hdeps

theorem subset (h : Sorted names deps order s) : order ⊆ names :=
  fun n hn => ((h.mem n).mp (List.mem_append_left _ hn)).1

/-- What is left out when no node waits: the nodes that can never have their needs met. -/
theorem mem_order_iff (hclosed : ∀ n, ∀ d ∈ deps n, n ∈ names ∧ d ∈ names)
    (h : Sorted names deps order s) (hempty : s.queue = []) (hn : n ∈ names) :
    n ∈ order ↔ ¬ Stuck deps n := by
  have hnodup : order.Nodup := (List.nodup_append.mp h.nodup).1
  constructor
  · rintro hmem ⟨c, hc, hcycle⟩
    have hc' : c ∈ order := by
      rcases hcycle with rfl | hneeds
      · exact hmem
      · obtain ⟨before, after, rfl⟩ := List.append_of_mem hmem
        exact List.mem_append_left _ (h.respects.needs hneeds rfl)
    obtain ⟨before, after, rfl⟩ := List.append_of_mem hc'
    have hbefore := h.respects.needs hc rfl
    exact (List.nodup_append.mp hnodup).2.2 c hbefore c (List.mem_cons_self ..) rfl
  · intro hfree
    let Free := { n // n ∈ names ∧ ¬ Stuck deps n }
    let below (d n : Free) : Prop := Needs deps n.1 d.1
    have : IsTrans _ below := ⟨fun _ _ _ h₁ h₂ => h₂.trans h₁⟩
    have : Std.Irrefl below := ⟨fun n hneeds => n.2.2 ⟨n.1, hneeds, .inl rfl⟩⟩
    have : Finite { n // n ∈ names } := .of_fintype _
    have : Finite Free :=
      Finite.of_injective (fun n : Free => (⟨n.1, n.2.1⟩ : { n // n ∈ names })) fun n m heq => by
        simp only [Subtype.mk.injEq] at heq
        exact Subtype.ext heq
    suffices hall : ∀ n : Free, n.1 ∈ order from hall ⟨n, hn, hfree⟩
    intro n
    induction n using (Finite.wellFounded_of_trans_of_irrefl below).induction with
    | _ n ih =>
    -- what a node needs has found its place, by the induction, and so the node has
    obtain ⟨n, hn, hfree⟩ := n
    exact h.mem_order hempty hn fun d hd =>
      ih ⟨d, (hclosed n d hd).2, fun hstuck => hfree (hstuck.of_needs (.single hd))⟩ (.single hd)

/-- Every node finds its place exactly when no node needs itself. -/
theorem length_eq_iff (hnames : names.Nodup) (hclosed : ∀ n, ∀ d ∈ deps n, n ∈ names ∧ d ∈ names)
    (h : Sorted names deps order s) (hempty : s.queue = []) :
    order.length = names.length ↔ Acyclic deps := by
  have hsubperm : order.Subperm names := (List.nodup_append.mp h.nodup).1.subperm h.subset
  rw [acyclic_iff_not_stuck]
  constructor
  · intro hlength n hstuck
    obtain ⟨d, hd⟩ := hstuck.exists_mem
    have hn : n ∈ names := (hclosed n d hd).1
    have hperm := hsubperm.perm_of_length_le (Nat.le_of_eq hlength.symm)
    exact (h.mem_order_iff hclosed hempty hn).mp (hperm.mem_iff.mpr hn) hstuck
  · intro hfree
    exact (hsubperm.antisymm (hnames.subperm fun n hn =>
      (h.mem_order_iff hclosed hempty hn).mpr (hfree n))).length_eq

end Sorted

end Kahn

end Graph
