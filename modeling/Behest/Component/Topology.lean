import Mathlib.Data.List.Sort
import Behest.Core.Value
import Behest.Graph.Kahn
import Behest.Store.Keyed

/-!
# The init order of components

Descriptors of components under their names, and the order in which `recompute_topo` visits
them (`behest-runtime/src/registry.rs`). The source reads two hash maps on the way, in an order
about which nothing is said.
-/

namespace Behest

/-- Source: `registry.rs:57–123`. -/
inductive RegistryError where
  | alreadyRegistered (name : String)
  | notFound (name : String)
  | missingDependency (name dep : String)
  | cycle (cycle : List String)
  | init (name message : String)
  | start (name message : String)
  | stop (name message : String)
  | reload (name message : String)
deriving DecidableEq

/-- Source: `registry.rs:155–162`. -/
structure ComponentDescriptor where
  name : String
  dependsOn : List String
  config : Value

/-- The order in which the entries of a hash map come. -/
structure HashOrder where
  arrange : {α : Type} → List α → List α
  perm : ∀ {α : Type} (l : List α), (arrange l).Perm l

/-- The entries as they were inserted. -/
def HashOrder.inserted : HashOrder := ⟨fun l => l, fun l => .refl l⟩

/-- The descriptors of a registry. -/
abbrev Descriptors := Keyed ComponentDescriptor.name

namespace Descriptors

variable (σ : HashOrder) (m : Descriptors)

def dependsOn (name : String) : List String := ((m.get name).map (·.dependsOn)).getD []

/-- Every component that is named as a dependency is registered. -/
def Closed : Prop := ∀ d ∈ m.records, ∀ dep ∈ d.dependsOn, (m.get dep).isSome

/-- The first dependency found that is not registered. Source: `registry.rs:881–887`. -/
def missing : Option RegistryError :=
  (σ.arrange m.records).findSome? fun d =>
    (d.dependsOn.find? fun dep => (m.get dep).isNone).map (.missingDependency d.name)

def names : List String := (σ.arrange m.records).map (·.name)

/-- The names without dependencies, sorted. Source: `registry.rs:894–905`. -/
def initial : List String :=
  ((σ.arrange (names σ m)).filter fun n => (dependsOn m n).length = 0).insertionSort (· ≤ ·)

/-- The loop over the queue. Source: `registry.rs:907–921`. -/
def sorted : List String × Graph.Frontier String :=
  Graph.kahn (names σ m) (dependsOn m) (names σ m).length
    (Graph.frontier (dependsOn m) (initial σ m)) []

/-- The init order. Source: `registry.rs:868–939`. -/
def order : Except RegistryError (List String) :=
  if m.records.isEmpty then .ok []
  else match missing σ m with
    | some e => .error e
    | none =>
        let (order, frontier) := sorted σ m
        if order.length = (names σ m).length then .ok order
        else .error (.cycle ((σ.arrange (names σ m)).filter fun n => 0 < frontier.degree n))

variable {σ m}

theorem mem_names {n : String} : n ∈ names σ m ↔ (m.get n).isSome := by
  unfold names
  rw [List.mem_map, Option.isSome_iff_exists]
  simp only [(σ.perm m.records).mem_iff, Keyed.get_eq_some_iff]

theorem nodup_names : (names σ m).Nodup :=
  ((σ.perm m.records).map _).nodup_iff.mpr m.nodup

theorem mem_dependsOn {n dep : String} :
    dep ∈ dependsOn m n ↔ ∃ d, m.get n = some d ∧ dep ∈ d.dependsOn := by
  unfold dependsOn
  cases m.get n <;> simp

theorem missing_eq_none : missing σ m = none ↔ m.Closed := by
  unfold missing Closed
  simp only [List.findSome?_eq_none_iff, (σ.perm m.records).mem_iff, Option.map_eq_none_iff,
    List.find?_eq_none, Option.isNone_iff_eq_none, ← Option.isSome_iff_ne_none]

theorem Closed.mem {n dep : String} (h : m.Closed) (hdep : dep ∈ dependsOn m n) :
    n ∈ names σ m ∧ dep ∈ names σ m := by
  obtain ⟨d, hd, hmem⟩ := mem_dependsOn.mp hdep
  rw [mem_names, mem_names]
  exact ⟨hd ▸ rfl, h d (Keyed.get_mem hd).1 dep hmem⟩

theorem sorted_start :
    Graph.Sorted (names σ m) (dependsOn m) [] (Graph.frontier (dependsOn m) (initial σ m)) := by
  refine .start ?_ fun n => ?_
  · rw [initial, (List.perm_insertionSort _ _).nodup_iff]
    exact ((σ.perm _).nodup_iff.mpr nodup_names).filter _
  · rw [initial, (List.perm_insertionSort _ _).mem_iff, List.mem_filter, (σ.perm _).mem_iff,
      decide_eq_true_iff, List.length_eq_zero_iff]

theorem sorted_spec : Graph.Sorted (names σ m) (dependsOn m) (sorted σ m).1 (sorted σ m).2 ∧
    (sorted σ m).2.queue = [] :=
  sorted_start.kahn nodup_names (Nat.le_add_left ..)

/-- The components can be put in order when all dependencies are registered and none is
circular. -/
def Orderly (m : Descriptors) : Prop := m.Closed ∧ Graph.Acyclic (dependsOn m)

/-- An order that is found holds every component once, after those it needs. -/
theorem order_ok {order : List String} (h : m.order σ = .ok order) :
    order.Nodup ∧ (∀ n, n ∈ order ↔ (m.get n).isSome) ∧ Graph.Respects (dependsOn m) order := by
  unfold Descriptors.order at h
  split at h
  · next hempty =>
    cases h
    rw [List.isEmpty_iff] at hempty
    refine ⟨.nil, fun n => ?_, .nil⟩
    simp [Keyed.get, hempty]
  · split at h
    · cases h
    · obtain ⟨hsorted, hqueue⟩ := sorted_spec (σ := σ) (m := m)
      dsimp only at h
      split at h
      · next hlength =>
        cases h
        have hnodup : (sorted σ m).1.Nodup := (List.nodup_append.mp hsorted.nodup).1
        have hperm := (hnodup.subperm hsorted.subset).perm_of_length_le (Nat.le_of_eq hlength.symm)
        exact ⟨hnodup, fun n => by rw [hperm.mem_iff, mem_names], hsorted.respects⟩
      · cases h

theorem exists_order_iff : (∃ order, m.order σ = .ok order) ↔ m.Orderly := by
  unfold Descriptors.order Orderly
  split
  · next hempty =>
    rw [List.isEmpty_iff] at hempty
    refine iff_of_true ⟨[], rfl⟩ ⟨fun d hd => ?_, fun n hneeds => ?_⟩
    · rw [hempty] at hd
      cases hd
    · obtain ⟨d, hd, -⟩ := Relation.TransGen.head'_iff.mp hneeds
      simp [dependsOn, Keyed.get, hempty] at hd
  · rw [← missing_eq_none (σ := σ)]
    split
    · next e hmissing =>
      refine iff_of_false ?_ fun h => ?_
      · rintro ⟨order, h⟩
        cases h
      · rw [h.1] at hmissing
        cases hmissing
    · next hmissing =>
      have hclosed : m.Closed := missing_eq_none.mp hmissing
      obtain ⟨hsorted, hqueue⟩ := sorted_spec (σ := σ) (m := m)
      have hlength := hsorted.length_eq_iff nodup_names (fun n d => hclosed.mem) hqueue
      rw [← hlength]
      dsimp only
      split
      · next h => exact iff_of_true ⟨_, rfl⟩ ⟨hmissing, h⟩
      · next h =>
        refine iff_of_false ?_ fun h' => h h'.2
        rintro ⟨order, h⟩
        cases h

theorem isOk_order : (m.order σ).isOk = true ↔ m.Orderly := by
  rw [← exists_order_iff (σ := σ)]
  cases m.order σ <;> simp [Except.isOk, Except.toBool]

end Descriptors

end Behest
