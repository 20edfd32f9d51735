import Behest.Component.InitOrder
import Behest.Graph.Ring

/-!
# What is reported of a circular dependency

`RegistryError::Cycle` (`behest-runtime/src/registry.rs:79–85`) is documented as the first cycle
that is found, in order. What `recompute_topo` puts there is all that its loop has left over, in
the order of a hash map: everything that is on a cycle, or depends on one.
-/

namespace Behest

namespace HashOrder

/-- The entries in the order of their positions in a list of as many. -/
theorem filterMap_range {α : Type} (l : List α) : (List.range l.length).filterMap (l[·]?) = l := by
  induction l using List.reverseRecOn with
  | nil => rfl
  | append_singleton init last ih =>
    have hinit : (List.range init.length).filterMap ((init ++ [last])[·]?) = init := by
      refine .trans (List.filterMap_congr fun i hi => ?_) ih
      exact List.getElem?_append_left (List.mem_range.mp hi)
    rw [List.length_append, List.length_singleton, List.range_succ, List.filterMap_append, hinit]
    simp

/-- The entries at some positions, where these are the positions of all. -/
def picked (positions : List Nat) : HashOrder where
  arrange l :=
    if positions.Perm (List.range l.length) then positions.filterMap (l[·]?) else l
  perm l := by
    split
    · next hperm =>
      have h := hperm.filterMap (l[·]?)
      rwa [filterMap_range] at h
    · exact .refl l

/-- A hash map may be read in any order. -/
theorem exists_arrange {l l' : List String} (hnodup : l.Nodup) (hperm : l'.Perm l) :
    ∃ τ : HashOrder, τ.arrange l = l' := by
  have hrange : l.map (l.idxOf ·) = List.range l.length := by
    refine List.ext_getElem (by simp) fun i hi hi' => ?_
    rw [List.getElem_map, hnodup.idxOf_getElem, List.getElem_range]
  have hpositions : (l'.map (l.idxOf ·)).Perm (List.range l.length) :=
    hrange ▸ hperm.map (l.idxOf ·)
  refine ⟨picked (l'.map (l.idxOf ·)), ?_⟩
  simp only [picked, if_pos hpositions]
  rw [List.filterMap_map]
  refine .trans (List.filterMap_congr fun n hn => ?_) List.filterMap_some
  exact List.getElem?_idxOf (hperm.mem_iff.mp hn)

end HashOrder

namespace Descriptors

variable {m : Descriptors}

/-- Of a circular dependency, one cycle is reported in order, and nothing that only depends on
it. -/
def ReportsCycle (m : Descriptors) : Prop :=
  ∀ σ τ cycle, m.orderWith σ τ = .error (.cycle cycle) →
    Graph.RingInOrder (fun n d => d ∈ dependsOn m n) cycle ∧
      ∀ n ∈ cycle, Graph.Needs (dependsOn m) n n

/-- In any order of the maps the same components are left over. -/
theorem leftover_perm (hclosed : m.Closed) (σ τ : HashOrder) :
    (leftover σ τ m).Perm (leftover .inserted .inserted m) :=
  (List.perm_ext_iff_of_nodup nodup_leftover nodup_leftover).mpr fun _ =>
    (mem_leftover hclosed).trans (mem_leftover hclosed).symm

/-- The component has open dependencies when the loop has ended. -/
def isLeft (m : Descriptors) (n : String) : Bool := 0 < (sorted .inserted m).2.degree n

/-- They may come in any order. -/
theorem exists_leftover {l : List String} (h : l.Perm (leftover .inserted .inserted m)) :
    ∃ τ : HashOrder, leftover .inserted τ m = l := by
  have hall : (l ++ (names .inserted m).filter fun n => !m.isLeft n).Perm (names .inserted m) :=
    (h.append_right _).trans (List.filter_append_perm m.isLeft _)
  obtain ⟨τ, hτ⟩ := HashOrder.exists_arrange nodup_names hall
  refine ⟨τ, ?_⟩
  have hleft : l.filter m.isLeft = l := List.filter_eq_self.mpr fun n hn =>
    (List.mem_filter.mp (h.mem_iff.mp hn)).2
  have hother : ((names .inserted m).filter fun n => !m.isLeft n).filter m.isLeft = [] := by
    simp
  change (τ.arrange (names .inserted m)).filter m.isLeft = l
  rw [hτ, List.filter_append, hleft, hother, List.append_nil]

/-- A single component that is stuck depends on itself. -/
theorem mem_dependsOn_self (hclosed : m.Closed) {n : String}
    (h : leftover .inserted .inserted m = [n]) : n ∈ dependsOn m n := by
  have honly : ∀ k, Graph.Stuck (dependsOn m) k → k = n := fun k hk =>
    List.mem_singleton.mp (h ▸ (mem_leftover hclosed).mpr hk)
  obtain ⟨c, hc, -⟩ := (mem_leftover hclosed).mp (h ▸ List.mem_singleton_self n)
  obtain rfl := honly c ⟨c, hc, .inl rfl⟩
  obtain ⟨d, hd, hdc⟩ := Relation.TransGen.head'_iff.mp hc
  obtain rfl | hneeds := Relation.reflTransGen_iff_eq_or_transGen.mp hdc
  · exact hd
  · rwa [honly d ⟨c, hc, .inr hneeds⟩] at hd

theorem leftover_ne_nil (hclosed : m.Closed) (hcycle : ¬ Graph.Acyclic (dependsOn m)) :
    leftover .inserted .inserted m ≠ [] := by
  obtain ⟨n, hn⟩ : ∃ n, Graph.Stuck (dependsOn m) n := by
    rw [Graph.acyclic_iff_not_stuck] at hcycle
    simpa using hcycle
  exact List.ne_nil_of_mem ((mem_leftover hclosed).mpr hn)

/-- A cycle is reported only when there is one, and all that is left over is reported. -/
theorem eq_leftover {σ τ : HashOrder} {cycle : List String}
    (h : m.orderWith σ τ = .error (.cycle cycle)) :
    m.Closed ∧ ¬ Graph.Acyclic (dependsOn m) ∧ cycle = leftover σ τ m := by
  have hclosed : m.Closed := by
    by_contra hnot
    obtain ⟨e, he⟩ := Option.ne_none_iff_exists'.mp
      fun hnone => hnot ((missing_eq_none (σ := σ)).mp hnone)
    rw [orderWith_of_missing he] at h
    obtain ⟨d, -, hd⟩ := List.exists_of_findSome?_eq_some (missing_eq.symm.trans he)
    obtain ⟨dep, -, rfl⟩ := Option.map_eq_some_iff.mp hd
    cases h
  have hcycle : ¬ Graph.Acyclic (dependsOn m) := fun hacyclic => by
    rw [orderWith_of_acyclic hclosed hacyclic] at h
    cases h
  rw [orderWith_of_cycle hclosed hcycle] at h
  exact ⟨hclosed, hcycle, (RegistryError.cycle.inj (Except.error.inj h)).symm⟩

/-- The report is in order however the maps are read exactly when all orders of it are. -/
theorem reportsCycle_iff_perm (hclosed : m.Closed) (hcycle : ¬ Graph.Acyclic (dependsOn m)) :
    m.ReportsCycle ↔ ∀ l, l.Perm (leftover .inserted .inserted m) →
      Graph.RingInOrder (fun n d => d ∈ dependsOn m n) l := by
  constructor
  · intro h l hl
    obtain ⟨τ, rfl⟩ := exists_leftover hl
    exact (h .inserted τ _ (orderWith_of_cycle hclosed hcycle)).1
  · intro h σ τ cycle hreport
    obtain ⟨-, -, rfl⟩ := eq_leftover hreport
    have hring := h _ (leftover_perm hclosed σ τ)
    exact ⟨hring, fun n hn => hring.transGen_self hn⟩

/-- **A cycle is reported exactly when nearly everything depends on everything**: the components
that are on a cycle or depend on one depend on each other, but for pairs along one triangle. -/
theorem reportsCycle_iff (m : Descriptors) : m.ReportsCycle ↔
    (m.Closed → Graph.NearlyComplete (fun n d => d ∈ dependsOn m n)
      (Graph.Stuck (dependsOn m))) := by
  by_cases hcyclic : m.Closed ∧ ¬ Graph.Acyclic (dependsOn m)
  · obtain ⟨hclosed, hcycle⟩ := hcyclic
    rw [reportsCycle_iff_perm hclosed hcycle, imp_iff_right hclosed,
      Graph.forall_perm_ringInOrder_iff nodup_leftover (leftover_ne_nil hclosed hcycle)
        fun _ => mem_dependsOn_self hclosed]
    simp only [mem_leftover hclosed]
  · refine iff_of_true (fun σ τ cycle hreport => ?_) fun hclosed => ?_
    · obtain ⟨hclosed, hcycle, -⟩ := eq_leftover hreport
      exact absurd ⟨hclosed, hcycle⟩ hcyclic
    · have hacyclic := not_not.mp fun hcycle => hcyclic ⟨hclosed, hcycle⟩
      exact .inl fun n _ hn _ _ => absurd hn (Graph.acyclic_iff_not_stuck.mp hacyclic n)

/-- A store and a cache that depend on each other, and a server that depends on the store. -/
def withServer : Descriptors :=
  ((Keyed.empty.insert ⟨"cache", ["store"], .null⟩).insert ⟨"store", ["cache"], .null⟩).insert
    ⟨"server", ["store"], .null⟩

/-- The server is reported too, although nothing depends on it. -/
theorem withServer_reported :
    withServer.orderWith .inserted .inserted = .error (.cycle ["cache", "store", "server"]) ∧
      ¬ Graph.Needs (dependsOn withServer) "server" "server" ∧ ¬ withServer.ReportsCycle := by
  have hreport : withServer.orderWith .inserted .inserted =
      .error (.cycle ["cache", "store", "server"]) := by
    decide +kernel
  have hserver : ¬ Graph.Needs (dependsOn withServer) "server" "server" := by
    intro hneeds
    have hnone : ∀ d ∈ withServer.records, "server" ∉ d.dependsOn := by decide +kernel
    obtain ⟨n, -, hn⟩ := Relation.TransGen.tail'_iff.mp hneeds
    obtain ⟨d, hd, hdep⟩ := mem_dependsOn.mp hn
    exact hnone d (Keyed.get_mem hd).1 hdep
  exact ⟨hreport, hserver, fun h => hserver ((h _ _ _ hreport).2 "server" (by simp))⟩

end Descriptors

end Behest
