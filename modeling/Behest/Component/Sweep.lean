import Mathlib.Data.List.Induction
import Behest.Component.Registry

/-!
# Loops over the order

What a loop over the components does when each visit touches only what the registry holds
under the name it is given.
-/

namespace Behest

namespace ComponentRegistry

variable {σ : HashOrder} (r : ComponentRegistry σ)

/-- What a registry holds under a name, besides its descriptor. -/
def held (name : String) :
    Option ComponentFactory × Option AnyComponent × Option ComponentState :=
  (r.factories name, r.instances name, r.states name)

/-- The registry with its order cached. -/
def ordered : ComponentRegistry σ := r.recomputeTopo.2

theorem recomputeTopo_fst : r.recomputeTopo.1 = r.descriptors.order σ := by
  unfold recomputeTopo
  split
  · next order htopo => exact (r.cached order htopo).symm
  · split <;> simp_all

/-- Only the cached order changes. -/
theorem ordered_eq : ∃ topo cached, r.ordered = { r with topo := topo, cached := cached } := by
  unfold ordered recomputeTopo
  split
  · exact ⟨_, r.cached, rfl⟩
  · split
    · exact ⟨_, r.cached, rfl⟩
    · next order h => exact ⟨some order, fun _ h' => by cases h'; exact h, rfl⟩

@[simp] theorem factories_ordered : r.ordered.factories = r.factories := by
  obtain ⟨_, _, h⟩ := r.ordered_eq
  rw [h]

@[simp] theorem descriptors_ordered : r.ordered.descriptors = r.descriptors := by
  obtain ⟨_, _, h⟩ := r.ordered_eq
  rw [h]

@[simp] theorem instances_ordered : r.ordered.instances = r.instances := by
  obtain ⟨_, _, h⟩ := r.ordered_eq
  rw [h]

@[simp] theorem states_ordered : r.ordered.states = r.states := by
  obtain ⟨_, _, h⟩ := r.ordered_eq
  rw [h]

@[simp] theorem created_ordered : r.ordered.created = r.created := by
  obtain ⟨_, _, h⟩ := r.ordered_eq
  rw [h]

@[simp] theorem held_ordered (name : String) : r.ordered.held name = r.held name := by
  simp [held]

variable {r} {visit : Visit σ} {direction : List String → List String} {order : List String}

/-- Without an order nothing happens. -/
theorem drive_of_error {e : RegistryError} (h : r.descriptors.order σ = .error e) :
    r.drive visit direction = ⟨.error e, r.ordered, []⟩ := by
  have hfst := r.recomputeTopo_fst
  unfold drive ordered
  split
  · next e' r' hrec =>
    rw [hrec, h] at hfst
    cases hfst
    rw [hrec]
  · next order r' hrec =>
    rw [hrec, h] at hfst
    cases hfst

theorem drive_of_ok (h : r.descriptors.order σ = .ok order) :
    r.drive visit direction =
      ⟨match (r.ordered.sweep visit (direction order)).firstError with
        | some e => .error e
        | none => .ok (), (r.ordered.sweep visit (direction order)).registry,
      (r.ordered.sweep visit (direction order)).calls⟩ := by
  have hfst := r.recomputeTopo_fst
  unfold drive ordered
  split
  · next e' r' hrec =>
    rw [hrec, h] at hfst
    cases hfst
  · next order r' hrec =>
    rw [hrec, h] at hfst
    cases hfst
    exact hrec ▸ rfl

theorem calls_drive (h : r.descriptors.order σ = .ok order) :
    (r.drive visit direction).calls = (r.ordered.sweep visit (direction order)).calls := by
  rw [drive_of_ok h]

theorem registry_drive (h : r.descriptors.order σ = .ok order) :
    (r.drive visit direction).registry = (r.ordered.sweep visit (direction order)).registry := by
  rw [drive_of_ok h]

/-- A visit touches only what is held under the name. -/
structure Local (visit : Visit σ) : Prop where
  descriptors : ∀ r n, (visit r n).1.descriptors = r.descriptors
  other : ∀ r n m, m ≠ n → (visit r n).1.held m = r.held m

section Sweeps

variable (visit r)

theorem sweep_snoc (order : List String) (n : String) :
    r.sweep visit (order ++ [n]) =
      ⟨(visit (r.sweep visit order).registry n).1,
        (r.sweep visit order).firstError.or
          ((visit (r.sweep visit order).registry n).2.bind (·.failure)),
        (r.sweep visit order).calls ++ (visit (r.sweep visit order).registry n).2.toList⟩ := by
  simp [sweep]

/-- The error of a loop is the first failure of the calls it made. -/
theorem firstError_sweep (order : List String) :
    (r.sweep visit order).firstError = (r.sweep visit order).calls.findSome? (·.failure) := by
  induction order using List.reverseRecOn with
  | nil => rfl
  | append_singleton init n ih =>
    rw [sweep_snoc, List.findSome?_append, ← ih]
    cases (visit (r.sweep visit init).registry n).2 <;> simp

variable {visit r}

/-- A call is made at a visit, when the names before it have been visited. -/
theorem mem_calls_sweep {c : LifecycleCall} :
    c ∈ (r.sweep visit order).calls ↔ ∃ before n after, order = before ++ n :: after ∧
      (visit (r.sweep visit before).registry n).2 = some c := by
  induction order using List.reverseRecOn with
  | nil => simp [sweep]
  | append_singleton init last ih =>
    rw [sweep_snoc, List.mem_append, ih, Option.mem_toList]
    constructor
    · rintro (⟨before, n, after, rfl, hc⟩ | hc)
      · exact ⟨before, n, after ++ [last], by simp, hc⟩
      · exact ⟨init, last, [], rfl, hc⟩
    · rintro ⟨before, n, after, heq, hc⟩
      rcases List.eq_nil_or_concat after with rfl | ⟨after, last', rfl⟩
      · obtain ⟨rfl, hlast⟩ := List.append_inj' heq rfl
        cases hlast
        exact .inr hc
      · rw [List.concat_eq_append, ← List.cons_append, ← List.append_assoc] at heq
        exact .inl ⟨before, n, after, (List.append_inj' heq rfl).1, hc⟩

namespace Local

variable (hlocal : Local visit)
include hlocal

theorem descriptors_sweep (order : List String) :
    (r.sweep visit order).registry.descriptors = r.descriptors := by
  induction order using List.reverseRecOn with
  | nil => rfl
  | append_singleton init n ih => rw [sweep_snoc, hlocal.descriptors, ih]

/-- A name that is not visited keeps what is held under it. -/
theorem held_sweep_of_notMem {n : String} (hn : n ∉ order) :
    (r.sweep visit order).registry.held n = r.held n := by
  induction order using List.reverseRecOn with
  | nil => rfl
  | append_singleton init last ih =>
    rw [List.mem_append, List.mem_singleton, not_or] at hn
    rw [sweep_snoc, hlocal.other _ _ _ hn.2, ih hn.1]

/-- A name that is visited is left as its visit leaves it. -/
theorem held_sweep {before after : List String} {n : String}
    (hnodup : (before ++ n :: after).Nodup) :
    (r.sweep visit (before ++ n :: after)).registry.held n =
      (visit (r.sweep visit before).registry n).1.held n := by
  induction after using List.reverseRecOn with
  | nil => rw [sweep_snoc]
  | append_singleton init last ih =>
    rw [← List.cons_append, ← List.append_assoc] at hnodup ⊢
    have hne : n ≠ last := by
      rintro rfl
      exact (List.nodup_append.mp hnodup).2.2 n (by simp) n (List.mem_singleton_self _) rfl
    rw [sweep_snoc, hlocal.other _ _ _ hne, ih (List.nodup_append.mp hnodup).1]

/-- A visit finds what the registry held at first. -/
theorem held_before {before after : List String} {n : String}
    (hnodup : (before ++ n :: after).Nodup) :
    (r.sweep visit before).registry.held n = r.held n :=
  hlocal.held_sweep_of_notMem fun hn =>
    (List.nodup_append.mp hnodup).2.2 n hn n (List.mem_cons_self ..) rfl

end Local

/-- What every visit preserves, with the calls made so far, holds after a loop. -/
theorem sweep_invariant (I : ComponentRegistry σ → List LifecycleCall → Prop) (h : I r [])
    (hI : ∀ r calls n, I r calls → I (visit r n).1 (calls ++ (visit r n).2.toList)) :
    I (r.sweep visit order).registry (r.sweep visit order).calls := by
  induction order using List.reverseRecOn with
  | nil => exact h
  | append_singleton init n ih =>
    rw [sweep_snoc]
    exact hI _ _ n ih

end Sweeps

section Drives

variable (hlocal : Local visit) (hdirection : ∀ order, (direction order).Perm order)
include hlocal

theorem descriptors_drive (r : ComponentRegistry σ) (direction : List String → List String) :
    (r.drive visit direction).registry.descriptors = r.descriptors := by
  cases h : r.descriptors.order σ with
  | error e => rw [drive_of_error h, descriptors_ordered]
  | ok order => rw [registry_drive h, hlocal.descriptors_sweep, descriptors_ordered]

include hdirection

/-- A loop leaves what is held under a name as a visit of a registered component leaves it, or
as it was. -/
theorem held_drive (r : ComponentRegistry σ) (n : String) :
    (r.descriptors.Orderly ∧ (r.descriptors.get n).isSome ∧ ∃ r' : ComponentRegistry σ,
      r'.descriptors = r.descriptors ∧ r'.held n = r.held n ∧
      (r.drive visit direction).registry.held n = (visit r' n).1.held n) ∨
    (¬ (r.descriptors.Orderly ∧ (r.descriptors.get n).isSome) ∧
      (r.drive visit direction).registry.held n = r.held n) := by
  cases h : r.descriptors.order σ with
  | error e =>
    refine .inr ⟨fun ⟨horderly, _⟩ => ?_, by rw [drive_of_error h, held_ordered]⟩
    obtain ⟨order, horder⟩ := Descriptors.exists_order_iff (σ := σ).mpr horderly
    cases h.symm.trans horder
  | ok order =>
    obtain ⟨hnodup, hmem, -⟩ := Descriptors.order_ok h
    rw [registry_drive h]
    by_cases hn : n ∈ direction order
    · have hregistered := (hmem n).mp ((hdirection order).mem_iff.mp hn)
      refine .inl ⟨Descriptors.exists_order_iff.mp ⟨order, h⟩, hregistered, ?_⟩
      have hnodup' := (hdirection order).nodup_iff.mpr hnodup
      obtain ⟨before, after, hsplit⟩ := List.append_of_mem hn
      rw [hsplit] at hnodup' ⊢
      refine ⟨_, ?_, ?_, hlocal.held_sweep hnodup'⟩
      · rw [hlocal.descriptors_sweep, descriptors_ordered]
      · rw [hlocal.held_before hnodup', held_ordered]
    · refine .inr ⟨fun ⟨_, hregistered⟩ => ?_, ?_⟩
      · exact hn ((hdirection order).mem_iff.mpr ((hmem n).mpr hregistered))
      · rw [hlocal.held_sweep_of_notMem hn, held_ordered]

end Drives

@[simp] theorem held_setState_ne {n m : String} (h : m ≠ n) (state : ComponentState) :
    (r.setState n state).held m = r.held m := by
  simp [held, setState, h]

theorem local_initOne : Local (initOne (σ := σ)) where
  descriptors r n := by
    unfold initOne
    split
    · rfl
    · split
      · rfl
      · dsimp only
        split <;> rfl
  other r n m h := by
    unfold initOne
    split
    · rfl
    · split
      · rfl
      · dsimp only
        split <;> simp [held, setState, h]

theorem local_startOne : Local (startOne (σ := σ)) where
  descriptors r n := by
    unfold startOne
    split
    · rfl
    · dsimp only
      split
      · rfl
      · split <;> rfl
  other r n m h := by
    unfold startOne
    split
    · rfl
    · dsimp only
      split
      · simp [h]
      · split <;> simp [h]

theorem local_stopOne : Local (stopOne (σ := σ)) where
  descriptors r n := by
    unfold stopOne
    split
    · rfl
    · dsimp only
      split <;> rfl
  other r n m h := by
    unfold stopOne
    split
    · rfl
    · dsimp only
      split <;> simp [h]

end ComponentRegistry

end Behest
