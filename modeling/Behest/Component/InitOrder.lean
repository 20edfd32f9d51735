import Behest.Component.History
import Behest.Graph.Fifo

/-!
# When the init order is determined

What `recompute_topo` promises of its result (`behest-runtime/src/registry.rs`), and which
components it orders in the same way in every process: its two hash maps, the descriptors and the
counts of open dependencies, may be read in any order.
-/

namespace Behest

/-! ### The cached order -/

/-- The operation may change which components are registered. -/
def RegistryOp.isRegistration : RegistryOp → Bool
  | registerFactory .. | unregister _ => true
  | _ => false

namespace ComponentRegistry

variable {σ : HashOrder} (r : ComponentRegistry σ)

def after (ops : List RegistryOp) : ComponentRegistry σ := ops.foldl (fun r op => (r.apply op).1) r

theorem descriptors_apply {op : RegistryOp} (h : op.isRegistration = false) :
    (r.apply op).1.descriptors = r.descriptors := by
  cases op with
  | registerFactory descriptor factory => cases h
  | unregister name => cases h
  | initAll => exact descriptors_drive local_initOne r id
  | startAll => exact descriptors_drive local_startOne r id
  | stopAll => exact descriptors_drive local_stopOne r List.reverse
  | replaceInstance name hooks =>
    rcases r.replaceInstance_cases name hooks with ⟨e, calls, h, -⟩ | ⟨old, -, -, h⟩
    · rw [apply, h]
    · rw [apply, h]
      rfl

theorem descriptors_after {ops : List RegistryOp} (h : ∀ op ∈ ops, op.isRegistration = false) :
    (r.after ops).descriptors = r.descriptors := by
  induction ops generalizing r with
  | nil => rfl
  | cons op rest ih =>
    rw [after, List.foldl_cons]
    exact (ih _ fun op hop => h op (List.mem_cons_of_mem _ hop)).trans
      (r.descriptors_apply (h op List.mem_cons_self))

theorem topo_ordered {order : List String} (h : r.recomputeTopo.1 = .ok order) :
    r.recomputeTopo.2.topo = some order := by
  unfold recomputeTopo at h ⊢
  split
  · next found hcached =>
    rw [hcached] at h
    cases h
    exact hcached
  · next hnone =>
    rw [hnone] at h
    dsimp only at h
    split
    · next e herror =>
      split at h
      · cases h
      · next order' hok => cases herror.symm.trans hok
    · next order' hok =>
      split at h
      · cases h
      · next order'' hok' =>
        cases h
        cases hok.symm.trans hok'
        rfl

/-- **A topological order**: when all dependencies are registered, an order is found exactly when
none is circular. It holds every component once, after all that it depends on, and it is found
again, from the cache, until a component is registered or unregistered. -/
theorem recomputeTopo_topological (hclosed : r.descriptors.Closed) :
    ((∃ order, r.recomputeTopo.1 = .ok order) ↔
      Graph.Acyclic (Descriptors.dependsOn r.descriptors)) ∧
    ∀ order, r.recomputeTopo.1 = .ok order →
      order.Perm (r.descriptors.records.map (·.name)) ∧
      Graph.Respects (Descriptors.dependsOn r.descriptors) order ∧
      r.recomputeTopo.2.topo = some order ∧
      ∀ ops, (∀ op ∈ ops, op.isRegistration = false) →
        (r.recomputeTopo.2.after ops).recomputeTopo.1 = .ok order := by
  constructor
  · rw [recomputeTopo_fst, Descriptors.exists_order_iff, Descriptors.Orderly]
    exact and_iff_right hclosed
  · intro order horder
    have hfound : r.descriptors.order σ = .ok order := r.recomputeTopo_fst ▸ horder
    obtain ⟨hnodup, hmem, hrespects⟩ := Descriptors.order_ok hfound
    refine ⟨?_, hrespects, r.topo_ordered horder, fun ops hops => ?_⟩
    · refine (List.perm_ext_iff_of_nodup hnodup r.descriptors.nodup).mpr fun n => ?_
      rw [hmem n, ← Descriptors.mem_names (σ := .inserted)]
      rfl
    · rw [recomputeTopo_fst, descriptors_after _ hops]
      exact r.descriptors_ordered ▸ hfound

/-- A cache that names its store twice. -/
def storeTwice : ComponentRegistry .inserted :=
  ((new.registerFactory ⟨"cache", ["store", "store"], .null⟩
    (building none)).registry.registerFactory
    ⟨"store", [], .null⟩ (building none)).registry

theorem storeTwice_topological :
    storeTwice.recomputeTopo.1 = .ok ["store", "cache"] ∧
      (storeTwice.recomputeTopo.2.after [.initAll, .startAll]).recomputeTopo.1 =
        .ok ["store", "cache"] := by
  have hclosed : storeTwice.descriptors.Closed := by
    unfold Descriptors.Closed
    decide +kernel
  have horder : storeTwice.recomputeTopo.1 = .ok ["store", "cache"] := by
    rw [recomputeTopo_fst]
    rfl
  exact ⟨horder, ((storeTwice.recomputeTopo_topological hclosed).2 _ horder).2.2.2 _ (by decide)⟩

end ComponentRegistry

/-! ### Any order of the maps -/

/-- The entries in reverse. -/
def HashOrder.reversed : HashOrder := ⟨List.reverse, List.reverse_perm⟩

namespace Descriptors

variable (σ τ : HashOrder) (m : Descriptors)

/-- The initial queue when the counts are read in an order of their own. -/
def initialWith : List String :=
  ((τ.arrange (names σ m)).filter fun n => (dependsOn m n).length = 0).insertionSort (· ≤ ·)

def sortedWith : List String × Graph.Frontier String :=
  Graph.kahn (names σ m) (dependsOn m) (names σ m).length
    (Graph.frontier (dependsOn m) (initialWith σ τ m)) []

/-- The init order when the descriptors are read in one order, and the counts in another.
Source: `registry.rs:868–939`. -/
def orderWith : Except RegistryError (List String) :=
  if m.records.isEmpty then .ok []
  else match missing σ m with
    | some e => .error e
    | none =>
        let (order, frontier) := sortedWith σ τ m
        if order.length = (names σ m).length then .ok order
        else .error (.cycle ((τ.arrange (names σ m)).filter fun n => 0 < frontier.degree n))

/-- Both maps in one order. -/
theorem orderWith_self : m.orderWith σ σ = m.order σ := rfl

/-- The names without dependencies, sorted: the same in any order of the maps. -/
def free : List String := initial .inserted m

variable {σ τ m}

theorem names_perm : (names σ m).Perm (m.records.map (·.name)) := (σ.perm m.records).map _

theorem initialWith_eq : initialWith σ τ m = free m := by
  have hperm : (initialWith σ τ m).Perm (free m) := by
    refine (List.perm_insertionSort _ _).trans (.trans ?_ (List.perm_insertionSort _ _).symm)
    exact ((τ.perm _).trans names_perm).filter _
  exact hperm.eq_of_pairwise' (List.pairwise_insertionSort _ _) (List.pairwise_insertionSort _ _)

theorem sortedWith_eq : sortedWith σ τ m = sorted σ m := by
  have hinitial : initialWith σ τ m = initialWith σ σ m := by
    rw [initialWith_eq, initialWith_eq]
  rw [sortedWith, hinitial]
  rfl

/-- A descriptor with a dependency that is not registered. -/
def Incomplete (m : Descriptors) (d : ComponentDescriptor) : Prop :=
  ∃ dep ∈ d.dependsOn, m.get dep = none

/-- A plan: an order of the components in which those without dependencies come first, sorted,
and of the others no two become ready at the same component. -/
def IsPlan (m : Descriptors) (plan : List String) : Prop :=
  Graph.Strict (dependsOn m) (free m) plan ∧ ∀ n, n ∈ plan ↔ (m.get n).isSome

/-- The same result in any order of the maps. -/
def Deterministic (m : Descriptors) : Prop :=
  ∀ σ τ σ' τ' : HashOrder, m.orderWith σ τ = m.orderWith σ' τ'

/-- The components leave no choice: one descriptor is incomplete; or all are complete, and one
component is stuck in a cycle; or none is, and there is a plan. -/
def Forced (m : Descriptors) : Prop :=
  (∃! d, d ∈ m.records ∧ m.Incomplete d) ∨
    (m.Closed ∧ ∃! n, Graph.Stuck (dependsOn m) n) ∨
    (m.Closed ∧ Graph.Acyclic (dependsOn m) ∧ ∃ plan, m.IsPlan plan)

/-! ### Missing dependencies -/

/-- What the loop over the descriptors finds in one of them. -/
def missingIn (m : Descriptors) (d : ComponentDescriptor) : Option RegistryError :=
  (d.dependsOn.find? fun dep => (m.get dep).isNone).map (.missingDependency d.name)

theorem missing_eq : missing σ m = (σ.arrange m.records).findSome? m.missingIn := rfl

theorem missingIn_eq_none {d : ComponentDescriptor} :
    m.missingIn d = none ↔ ¬ m.Incomplete d := by
  simp [missingIn, Incomplete, Option.ne_none_iff_exists']

/-- The error names the descriptor. -/
theorem name_eq_of_missingIn {d d' : ComponentDescriptor} {e : RegistryError}
    (h : m.missingIn d = some e) (h' : m.missingIn d' = some e) : d.name = d'.name := by
  obtain ⟨dep, -, rfl⟩ := Option.map_eq_some_iff.mp h
  obtain ⟨dep', -, heq⟩ := Option.map_eq_some_iff.mp h'
  exact (RegistryError.missingDependency.inj heq).1.symm

/-- Read in either direction, the same descriptor is found only if it is the only one. -/
theorem existsUnique_incomplete (h : missing .inserted m = missing .reversed m)
    (hnot : ¬ m.Closed) : ∃! d, d ∈ m.records ∧ m.Incomplete d := by
  obtain ⟨e, he⟩ := Option.ne_none_iff_exists'.mp
    fun hnone => hnot ((missing_eq_none (σ := .inserted)).mp hnone)
  have hreversed : m.records.reverse.findSome? m.missingIn = some e := h.symm.trans he
  have hfound : m.records.findSome? m.missingIn = some e := he
  obtain ⟨before, d, after, hsplit, hd, hbefore⟩ := List.findSome?_eq_some_iff.mp hfound
  have hincomplete : m.Incomplete d := by
    by_contra hcomplete
    rw [missingIn_eq_none.mpr hcomplete] at hd
    cases hd
  have hafter : after.reverse.findSome? m.missingIn = none := by
    by_contra hsome
    obtain ⟨e', he'⟩ := Option.ne_none_iff_exists'.mp hsome
    rw [hsplit, List.reverse_append, List.findSome?_append, List.reverse_cons,
      List.findSome?_append, he'] at hreversed
    cases hreversed
    obtain ⟨c, hc, hce⟩ := List.exists_of_findSome?_eq_some he'
    -- the error names both, but names are unique
    have hnodup := m.nodup
    rw [hsplit, List.map_append, List.map_cons] at hnodup
    exact (List.nodup_cons.mp (List.nodup_append.mp hnodup).2.1).1
      (List.mem_map.mpr ⟨c, List.mem_reverse.mp hc, name_eq_of_missingIn hce hd⟩)
  refine ⟨d, ⟨by rw [hsplit]; simp, hincomplete⟩, fun d' ⟨hmem, hd'⟩ => ?_⟩
  rw [hsplit] at hmem
  rcases List.mem_append.mp hmem with hmem | hmem
  · exact absurd hd' (missingIn_eq_none.mp (hbefore d' hmem))
  · rcases List.mem_cons.mp hmem with rfl | hmem
    · rfl
    · exact absurd hd' (missingIn_eq_none.mp
        (List.findSome?_eq_none_iff.mp hafter d' (List.mem_reverse.mpr hmem)))

theorem missing_of_unique {d : ComponentDescriptor} (hd : d ∈ m.records ∧ m.Incomplete d)
    (hunique : ∀ d', d' ∈ m.records ∧ m.Incomplete d' → d' = d) :
    missing σ m = m.missingIn d := by
  cases hfound : missing σ m with
  | none =>
    have hnone := List.findSome?_eq_none_iff.mp (missing_eq.symm.trans hfound) d
      ((σ.perm _).mem_iff.mpr hd.1)
    rw [hnone]
  | some e' =>
    obtain ⟨d', hd', hfound'⟩ := List.exists_of_findSome?_eq_some (missing_eq.symm.trans hfound)
    have hincomplete : m.Incomplete d' := by
      by_contra hcomplete
      rw [missingIn_eq_none.mpr hcomplete] at hfound'
      cases hfound'
    rw [← hunique d' ⟨(σ.perm _).mem_iff.mp hd', hincomplete⟩, hfound']

/-! ### Cycles and plans -/

theorem orderWith_of_missing {e : RegistryError} (h : missing σ m = some e) :
    m.orderWith σ τ = .error e := by
  unfold orderWith
  split
  · next hempty =>
    rw [List.isEmpty_iff] at hempty
    have hperm := σ.perm m.records
    rw [hempty] at hperm
    rw [missing_eq, hempty, List.perm_nil.mp hperm] at h
    cases h
  · rw [h]

/-- The components that are left over, as the counts are read. -/
def leftover (σ τ : HashOrder) (m : Descriptors) : List String :=
  (τ.arrange (names σ m)).filter fun n => 0 < (sorted σ m).2.degree n

theorem orderWith_of_closed (hclosed : m.Closed) : m.orderWith σ τ =
    if (sorted σ m).1.length = (names σ m).length then .ok (sorted σ m).1
    else .error (.cycle (leftover σ τ m)) := by
  unfold orderWith
  split
  · next hempty =>
    rw [List.isEmpty_iff] at hempty
    have hnames : names σ m = [] := by
      have hperm := names_perm (σ := σ) (m := m)
      rw [hempty] at hperm
      exact List.perm_nil.mp hperm
    have hsorted : (sorted σ m).1 = [] :=
      List.eq_nil_of_subset_nil (hnames ▸ sorted_spec.1.subset)
    rw [hsorted, hnames, if_pos rfl]
  · rw [missing_eq_none.mpr hclosed, sortedWith_eq]
    rfl

theorem orderWith_of_acyclic (hclosed : m.Closed) (hacyclic : Graph.Acyclic (dependsOn m)) :
    m.orderWith σ τ = .ok (sorted σ m).1 := by
  rw [orderWith_of_closed hclosed, if_pos]
  exact (sorted_spec.1.length_eq_iff nodup_names (fun n d => hclosed.mem) sorted_spec.2).mpr
    hacyclic

theorem orderWith_of_cycle (hclosed : m.Closed) (hcycle : ¬ Graph.Acyclic (dependsOn m)) :
    m.orderWith σ τ = .error (.cycle (leftover σ τ m)) := by
  rw [orderWith_of_closed hclosed, if_neg]
  exact fun hlength => hcycle ((sorted_spec.1.length_eq_iff nodup_names
    (fun n d => hclosed.mem) sorted_spec.2).mp hlength)

theorem nodup_leftover : (leftover σ τ m).Nodup :=
  ((τ.perm _).nodup_iff.mpr nodup_names).filter _

/-- Left over is what is stuck. -/
theorem mem_leftover (hclosed : m.Closed) {n : String} :
    n ∈ leftover σ τ m ↔ Graph.Stuck (dependsOn m) n := by
  obtain ⟨hsorted, hempty⟩ := sorted_spec (σ := σ) (m := m)
  have hdone : ∀ n ∈ names σ m, 0 < (sorted σ m).2.degree n ↔ n ∉ (sorted σ m).1 := by
    intro n hn
    have hmem := hsorted.mem n
    rw [hempty, List.append_nil] at hmem
    rw [hmem, Nat.pos_iff_ne_zero, not_and, ← ne_eq, imp_iff_right hn]
  rw [leftover, List.mem_filter, (τ.perm _).mem_iff, decide_eq_true_eq]
  constructor
  · rintro ⟨hn, hopen⟩
    by_contra hfree
    exact (hdone n hn).mp hopen
      ((hsorted.mem_order_iff (fun n d => hclosed.mem) hempty hn).mpr hfree)
  · intro hstuck
    obtain ⟨d, hd⟩ := hstuck.exists_mem
    have hn : n ∈ names σ m := (hclosed.mem hd).1
    exact ⟨hn, (hdone n hn).mpr fun hmem =>
      (hsorted.mem_order_iff (fun n d => hclosed.mem) hempty hn).mp hmem hstuck⟩

theorem leftover_reversed :
    leftover .inserted .reversed m = (leftover .inserted .inserted m).reverse :=
  List.filter_reverse

/-- A list without repetitions that reads the same in both directions has one entry at most. -/
theorem eq_of_reverse_eq {l : List String} (hnodup : l.Nodup) (h : l.reverse = l) :
    ∀ a ∈ l, ∀ b ∈ l, a = b := by
  cases l with
  | nil => simp
  | cons x rest =>
    rcases List.eq_nil_or_concat rest with rfl | ⟨init, last, rfl⟩
    · simp
    · rw [List.concat_eq_append, ← List.cons_append, List.reverse_append] at h
      obtain ⟨rfl, -⟩ := List.cons.inj h
      simp at hnodup

/-- The loop finds the components in turn. -/
theorem fifo_sorted : Graph.Fifo (names σ m) (dependsOn m) (free m) (sorted σ m).1 [] := by
  have hinitial : initial σ m = free m := initialWith_eq (τ := σ)
  rw [← hinitial]
  exact sorted_start.fifo_kahn nodup_names (Nat.le_add_left ..) Graph.Sorted.fifo_start

theorem names_reversed : names .reversed m = (names .inserted m).reverse := List.map_reverse

theorem isPlan_sorted (hclosed : m.Closed) (hacyclic : Graph.Acyclic (dependsOn m))
    (h : (sorted .inserted m).1 = (sorted .reversed m).1) : m.IsPlan (sorted .inserted m).1 := by
  obtain ⟨hnodup, hmem, hrespects⟩ :=
    order_ok (orderWith_of_acyclic (σ := .inserted) (τ := .inserted) hclosed hacyclic)
  have hfifo := fifo_sorted (σ := .reversed) (m := m)
  rw [names_reversed, ← h] at hfifo
  exact ⟨Graph.strict_of_reverse hnodup hrespects nodup_names fifo_sorted hfifo, hmem⟩

theorem IsPlan.eq {plan : List String} (h : m.IsPlan plan) (hclosed : m.Closed)
    (hacyclic : Graph.Acyclic (dependsOn m)) : (sorted σ m).1 = plan := by
  obtain ⟨hnodup, hmem, hrespects⟩ :=
    order_ok (orderWith_of_acyclic (σ := σ) (τ := σ) hclosed hacyclic)
  refine h.1.eq hrespects ?_ fifo_sorted
  exact (List.perm_ext_iff_of_nodup hnodup h.1.nodup).mpr fun n => by rw [hmem, h.2]

/-- **The init order is determined exactly when the components leave no choice.** -/
theorem deterministic_iff (m : Descriptors) : m.Deterministic ↔ m.Forced := by
  constructor
  · intro h
    by_cases hclosed : m.Closed
    · by_cases hacyclic : Graph.Acyclic (dependsOn m)
      · have horder := h .inserted .inserted .reversed .reversed
        rw [orderWith_of_acyclic hclosed hacyclic, orderWith_of_acyclic hclosed hacyclic] at horder
        exact .inr (.inr ⟨hclosed, hacyclic, _,
          isPlan_sorted hclosed hacyclic (Except.ok.inj horder)⟩)
      · have hleft := h .inserted .inserted .inserted .reversed
        rw [orderWith_of_cycle hclosed hacyclic, orderWith_of_cycle hclosed hacyclic,
          leftover_reversed] at hleft
        have hsame :=
          eq_of_reverse_eq nodup_leftover (RegistryError.cycle.inj (Except.error.inj hleft)).symm
        obtain ⟨n, hn⟩ : ∃ n, Graph.Stuck (dependsOn m) n := by
          rw [Graph.acyclic_iff_not_stuck] at hacyclic
          simpa using hacyclic
        exact .inr (.inl ⟨hclosed, n, hn, fun n' hn' =>
          hsame n' ((mem_leftover hclosed).mpr hn') n ((mem_leftover hclosed).mpr hn)⟩)
    · refine .inl (existsUnique_incomplete ?_ hclosed)
      have hfound := h .inserted .inserted .reversed .inserted
      obtain ⟨e, he⟩ := Option.ne_none_iff_exists'.mp
        fun hnone => hclosed ((missing_eq_none (σ := .inserted)).mp hnone)
      obtain ⟨e', he'⟩ := Option.ne_none_iff_exists'.mp
        fun hnone => hclosed ((missing_eq_none (σ := .reversed)).mp hnone)
      rw [orderWith_of_missing he, orderWith_of_missing he'] at hfound
      rw [he, he', Except.error.inj hfound]
  · rintro (⟨d, hd, hunique⟩ | ⟨hclosed, n, hn, hunique⟩ | ⟨hclosed, hacyclic, plan, hplan⟩)
      σ τ σ' τ'
    · obtain ⟨e, he⟩ := Option.ne_none_iff_exists'.mp fun hnone => missingIn_eq_none.mp hnone hd.2
      rw [orderWith_of_missing ((missing_of_unique hd hunique).trans he),
        orderWith_of_missing ((missing_of_unique hd hunique).trans he)]
    · have hcycle : ¬ Graph.Acyclic (dependsOn m) := fun hacyclic =>
        Graph.acyclic_iff_not_stuck.mp hacyclic n hn
      have hleft : ∀ σ τ, leftover σ τ m = [n] := fun σ τ => by
        refine List.perm_singleton.mp ((List.perm_ext_iff_of_nodup nodup_leftover
          (List.nodup_singleton n)).mpr fun k => ?_)
        rw [mem_leftover hclosed, List.mem_singleton]
        exact ⟨hunique k, fun heq => heq ▸ hn⟩
      rw [orderWith_of_cycle hclosed hcycle, orderWith_of_cycle hclosed hcycle, hleft, hleft]
    · rw [orderWith_of_acyclic hclosed hacyclic, orderWith_of_acyclic hclosed hacyclic,
        hplan.eq hclosed hacyclic, hplan.eq hclosed hacyclic]

/-- A component, and two that depend on it alone. -/
def twoUsers : Descriptors :=
  ((Keyed.empty.insert ⟨"a", [], .null⟩).insert ⟨"b", ["a"], .null⟩).insert ⟨"c", ["a"], .null⟩

/-- The two come in the order in which the map is read. -/
theorem twoUsers_undetermined : ¬ twoUsers.Deterministic := by
  intro h
  have horder := h .inserted .inserted .reversed .reversed
  revert horder
  decide +kernel

end Descriptors

end Behest
