import Behest.Component.Initialise

/-!
# Histories of a registry

The operations on a registry one after the other, with a record of what they did: which
instances run, which of them were lost sight of, whose factories were used up, and which names
were given up while they had an instance. The maps of the registry stay consistent exactly as
long as no factory of a registered component was used up and no instance was left behind.
-/

namespace Behest

/-- An operation on a registry. -/
inductive RegistryOp where
  | registerFactory (descriptor : ComponentDescriptor) (factory : ComponentFactory)
  | unregister (name : String)
  | initAll
  | startAll
  | stopAll
  | replaceInstance (name : String) (hooks : Hooks)

/-- The instances that run: started without a failure, and not stopped or handed back since. -/
def LifecycleCall.note (live : List Nat) : LifecycleCall → List Nat
  | start _ id none _ => id :: live
  | stop _ id _ | handedBack id => live.filter (· ≠ id)
  | _ => live

/-- The states in which a component is expected to have an instance. -/
def ComponentState.hasInstance : Option ComponentState → Bool
  | some initialized | some running | some stopped => true
  | _ => false

namespace ComponentRegistry

variable {σ : HashOrder} (r : ComponentRegistry σ)

def apply : RegistryOp → ComponentRegistry σ × List LifecycleCall
  | .registerFactory descriptor factory =>
      let ran := r.registerFactory descriptor factory
      (ran.registry, ran.calls)
  | .unregister name =>
      let ran := r.unregister name
      (ran.registry, ran.calls)
  | .initAll => (r.initAll.registry, r.initAll.calls)
  | .startAll => (r.startAll.registry, r.startAll.calls)
  | .stopAll => (r.stopAll.registry, r.stopAll.calls)
  | .replaceInstance name hooks =>
      let ran := r.replaceInstance name hooks
      (ran.registry, ran.calls)

/-- The operation registers a name, anew when it was registered before. -/
def renews : RegistryOp → String → Bool
  | .registerFactory descriptor _, n => descriptor.name = n && (r.factories n).isNone
  | _, _ => false

/-- The operation unregisters a name. -/
def drops : RegistryOp → String → Bool
  | .unregister name, n => name = n && (r.descriptors.get n).isSome
  | _, _ => false

/-- The operation is an init that uses up the factory of a component. -/
def takes : RegistryOp → String → Bool
  | .initAll, n => (r.descriptors.order σ).isOk && (r.descriptors.get n).isSome && r.isDue n
  | _, _ => false

/-- The instance that runs under a name. -/
def runningId (n : String) : Option Nat :=
  if r.states n = some .running then (r.instances n).map (·.id) else none

/-- The running instance whose name the operation unregisters or registers anew. -/
def losesSightOf : RegistryOp → Option Nat
  | .registerFactory descriptor _ =>
      if (r.factories descriptor.name).isNone then r.runningId descriptor.name else none
  | .unregister name => r.runningId name
  | _ => none

/-- The maps of a registry agree with each other. -/
structure Lawful : Prop where
  factories : ∀ n, (r.factories n).isSome → r.Registered n
  instances : ∀ n, (r.instances n).isSome → r.Registered n
  states : ∀ n, (r.states n).isSome ↔ r.Registered n
  hasInstance : ∀ n, ComponentState.hasInstance (r.states n) = true → (r.instances n).isSome
  refuses : ∀ descriptor factory, r.Registered descriptor.name →
    r.registerFactory descriptor factory =
      ⟨.error (.alreadyRegistered descriptor.name), r, []⟩

end ComponentRegistry

/-- A registry, and what happened to it. -/
structure History (σ : HashOrder) where
  registry : ComponentRegistry σ
  live : List Nat
  lost : List Nat
  taken : String → Bool
  abandoned : String → Bool

namespace History

variable {σ : HashOrder}

def step (h : History σ) (op : RegistryOp) : History σ where
  registry := (h.registry.apply op).1
  live := (h.registry.apply op).2.foldl LifecycleCall.note h.live
  lost := (h.registry.losesSightOf op).toList ++ h.lost
  taken n := (h.taken n || h.registry.takes op n) && !h.registry.renews op n &&
    !h.registry.drops op n
  abandoned n := (h.abandoned n || h.registry.drops op n && (h.registry.instances n).isSome) &&
    !h.registry.renews op n

def run (ops : List RegistryOp) : History σ :=
  ops.foldl step ⟨.new, [], [], fun _ => false, fun _ => false⟩

/-- The run rule: what every operation preserves holds after any of them. -/
theorem run_invariant (I : History σ → Prop)
    (h : I ⟨.new, [], [], fun _ => false, fun _ => false⟩)
    (hI : ∀ h op, I h → I (h.step op)) (ops : List RegistryOp) : I (run ops) := by
  induction ops using List.reverseRecOn with
  | nil => exact h
  | append_singleton init op ih =>
    unfold run at ih ⊢
    rw [List.foldl_append]
    exact hI _ op ih

end History

namespace ComponentRegistry

variable {σ : HashOrder} {r : ComponentRegistry σ}

/-- A visit leaves a name with a state, with an instance where one is expected, and with its
factory unless it uses it up. -/
structure Tame (visit : Visit σ) (uses : ComponentRegistry σ → String → Bool) : Prop where
  factories : ∀ r n, (visit r n).1.factories n = if uses r n then none else r.factories n
  states : ∀ r n, (r.states n).isSome → ((visit r n).1.states n).isSome
  instances : ∀ r n, (r.instances n).isSome → ((visit r n).1.instances n).isSome
  hasInstance : ∀ r n,
    (ComponentState.hasInstance (r.states n) = true → (r.instances n).isSome) →
    ComponentState.hasInstance ((visit r n).1.states n) = true →
      ((visit r n).1.instances n).isSome

theorem tame_initOne : Tame (initOne (σ := σ)) isDue := by
  constructor <;> intro r n <;> unfold initOne
  · split
    · next hinit => simp [isDue, hinit]
    · next hinit =>
      split
      · next hfactory => simp [hfactory]
      · next factory hfactory =>
        have hdue : r.isDue n = true := by simp [isDue, hinit, hfactory]
        dsimp only
        split <;> simp [setState, hdue]
  · intro h
    split
    · exact h
    · split
      · exact h
      · dsimp only
        split <;> simp [setState]
  · intro h
    split
    · exact h
    · split
      · exact h
      · dsimp only
        split
        · simp [setState]
        · exact h
  · intro h
    split
    · exact h
    · split
      · exact h
      · dsimp only
        split <;> simp [setState, ComponentState.hasInstance]

theorem tame_startOne : Tame (startOne (σ := σ)) fun _ _ => false := by
  constructor <;> intro r n <;> unfold startOne
  · split
    · rfl
    · dsimp only
      split
      · rfl
      · split <;> rfl
  · intro h
    split
    · exact h
    · dsimp only
      split
      · simp [setState]
      · split <;> simp [setState]
  · intro h
    split
    · exact h
    · dsimp only
      split
      · exact h
      · split <;> exact h
  · intro h
    split
    · exact h
    · next hstate =>
      rw [not_not] at hstate
      rw [hstate] at h
      have hsome := h rfl
      dsimp only
      split
      · simp [setState, ComponentState.hasInstance]
      · split <;> exact fun _ => hsome

theorem tame_stopOne : Tame (stopOne (σ := σ)) fun _ _ => false := by
  constructor <;> intro r n <;> unfold stopOne
  · split
    · rfl
    · dsimp only
      split <;> rfl
  · intro h
    split
    · exact h
    · dsimp only
      split <;> simp [setState]
  · intro h
    split
    · exact h
    · dsimp only
      split <;> exact h
  · intro h
    split
    · exact h
    · dsimp only
      split
      · simp [setState, ComponentState.hasInstance]
      · next component hcomponent => exact fun _ => hcomponent ▸ rfl

/-- A replacement changes no map, or swaps the instance that runs. -/
theorem replaceInstance_cases (r : ComponentRegistry σ) (name : String) (hooks : Hooks) :
    (∃ e calls, r.replaceInstance name hooks =
      ⟨.error e, { r with created := r.created + 1 }, calls⟩ ∧
        ∀ live, calls.foldl LifecycleCall.note live = live) ∨
    ∃ old, r.states name = some .running ∧ r.instances name = some old ∧
      r.replaceInstance name hooks =
        ⟨.ok old, setState { r with
          created := r.created + 1
          instances := Function.update r.instances name (some ⟨r.created, hooks⟩) } name .running,
        [.start name r.created none r.states, .handedBack old.id]⟩ := by
  unfold replaceInstance
  dsimp only
  cases hinstance : r.instances name with
  | none => exact .inl ⟨_, [], rfl, fun _ => rfl⟩
  | some old =>
    dsimp only
    split
    · exact .inl ⟨_, [], rfl, fun _ => rfl⟩
    · next hstate =>
      split
      · exact .inl ⟨_, [], rfl, fun _ => rfl⟩
      · split
        · exact .inl ⟨_, _, rfl, fun _ => rfl⟩
        · exact .inr ⟨old, not_not.mp hstate, rfl, rfl⟩

end ComponentRegistry

namespace History

variable {σ : HashOrder}

/-- What the maps hold under a name, and what was recorded of it. -/
structure Tracks (h : History σ) (n : String) : Prop where
  factories : (h.registry.factories n).isSome → h.registry.Registered n
  states : (h.registry.states n).isSome ↔ h.registry.Registered n
  hasInstance : ComponentState.hasInstance (h.registry.states n) = true →
    (h.registry.instances n).isSome
  taken : h.taken n = true ↔ h.registry.Registered n ∧ h.registry.factories n = none
  abandoned : h.abandoned n = true ↔
    ¬ h.registry.Registered n ∧ (h.registry.instances n).isSome

open ComponentRegistry

variable {h h' : History σ} {n : String}

/-- A loop over the components keeps track of every name. -/
theorem Tracks.drive (ht : h.Tracks n) {visit : Visit σ}
    {uses : ComponentRegistry σ → String → Bool} {direction : List String → List String}
    (hlocal : Local visit) (htame : Tame visit uses)
    (huses : ∀ r r' : ComponentRegistry σ, r'.held n = r.held n → uses r' n = uses r n)
    (hdirection : ∀ order, (direction order).Perm order)
    (hregistry : h'.registry = (h.registry.drive visit direction).registry)
    (htaken : h'.taken n = (h.taken n || ((h.registry.descriptors.order σ).isOk &&
      (h.registry.descriptors.get n).isSome && uses h.registry n)))
    (habandoned : h'.abandoned n = h.abandoned n) : h'.Tracks n := by
  have hregistered : h'.registry.Registered n ↔ h.registry.Registered n := by
    rw [Registered, Registered, hregistry, descriptors_drive hlocal]
  have hfactories := ht.factories
  have hstates := ht.states
  have hinstance := ht.hasInstance
  rcases held_drive hlocal hdirection h.registry n with
    ⟨horderly, hsome, r', hdescriptors, hheld, hvisited⟩ | ⟨hnot, hsame⟩
  · have huse := huses _ _ hheld
    rw [Descriptors.isOk_order.mpr horderly, hsome, Bool.true_and, Bool.true_and] at htaken
    rw [← hregistry] at hvisited
    simp only [held, Prod.mk.injEq] at hheld hvisited
    obtain ⟨hfactory, hinst, hstate⟩ := hvisited
    have hreg : h.registry.Registered n := hsome
    rw [htame.factories, huse, hheld.1] at hfactory
    rw [← hheld.2.1, ← hheld.2.2] at hinstance
    have hstate' := htame.states r' n (by rw [hheld.2.2]; exact hstates.mpr hreg)
    refine ⟨fun _ => hregistered.mpr hreg, ?_, ?_, ?_, ?_⟩
    · rw [hstate]
      exact iff_of_true hstate' (hregistered.mpr hreg)
    · rw [hstate, hinst]
      exact htame.hasInstance r' n hinstance
    · rw [htaken, hregistered, hfactory, Bool.or_eq_true, ht.taken]
      by_cases hused : uses h.registry n = true
      · simp [hused, hreg]
      · simp [hused]
    · rw [habandoned, ht.abandoned, hregistered]
      simp [hreg]
  · have htaken' : h'.taken n = h.taken n := by
      rw [htaken]
      by_cases horderly : (h.registry.descriptors.order σ).isOk = true
      · have hnone : (h.registry.descriptors.get n).isSome ≠ true := fun hsome =>
          hnot ⟨Descriptors.isOk_order.mp horderly, hsome⟩
        simp [Bool.eq_false_iff.mpr hnone]
      · simp [Bool.eq_false_iff.mpr horderly]
    rw [← hregistry] at hsame
    simp only [held, Prod.mk.injEq] at hsame
    obtain ⟨hfactory, hinst, hstate⟩ := hsame
    constructor
    · rwa [hfactory, hregistered]
    · rwa [hstate, hregistered]
    · rwa [hstate, hinst]
    · rw [htaken', hregistered, hfactory, ht.taken]
    · rw [habandoned, hregistered, hinst, ht.abandoned]

/-- Nothing that is held under a name changes. -/
theorem Tracks.congr (ht : h.Tracks n) (hheld : h'.registry.held n = h.registry.held n)
    (hdescriptors : h'.registry.descriptors.get n = h.registry.descriptors.get n)
    (htaken : h'.taken n = h.taken n) (habandoned : h'.abandoned n = h.abandoned n) :
    h'.Tracks n := by
  simp only [held, Prod.mk.injEq] at hheld
  obtain ⟨hfactories, hinstances, hstates⟩ := hheld
  have hregistered : h'.registry.Registered n ↔ h.registry.Registered n := by
    rw [Registered, Registered, hdescriptors]
  constructor
  · rw [hfactories, hregistered]
    exact ht.factories
  · rw [hstates, hregistered]
    exact ht.states
  · rw [hstates, hinstances]
    exact ht.hasInstance
  · rw [htaken, hregistered, hfactories, ht.taken]
  · rw [habandoned, hregistered, hinstances, ht.abandoned]

theorem Tracks.registerFactory (ht : h.Tracks n) (descriptor : ComponentDescriptor)
    (factory : ComponentFactory) : (h.step (.registerFactory descriptor factory)).Tracks n := by
  by_cases hfactory : (h.registry.factories descriptor.name).isSome
  · have hsame : h.registry.apply (.registerFactory descriptor factory) = (h.registry, []) := by
      simp only [apply, ComponentRegistry.registerFactory, if_pos hfactory]
    have hrenews : h.registry.renews (.registerFactory descriptor factory) n = false := by
      have hsome := Option.isSome_iff_exists.mp hfactory
      by_cases hn : descriptor.name = n
      · subst hn
        obtain ⟨_, hsome⟩ := hsome
        simp [renews, hsome]
      · simp [renews, hn]
    refine ht.congr ?_ ?_ ?_ ?_
    · simp only [History.step, hsame]
    · simp only [History.step, hsame]
    · simp [History.step, hrenews, takes, drops]
    · simp [History.step, hrenews, drops]
  · have hnone := Option.not_isSome_iff_eq_none.mp hfactory
    by_cases hn : descriptor.name = n
    · subst hn
      constructor <;> simp [History.step, apply, ComponentRegistry.registerFactory, hnone,
        Registered, Keyed.get_insert, renews, ComponentState.hasInstance]
    · refine ht.congr ?_ ?_ ?_ ?_
      · simp [History.step, apply, ComponentRegistry.registerFactory, hnone, held,
          Ne.symm hn]
      · simp [History.step, apply, ComponentRegistry.registerFactory, hnone, Keyed.get_insert, hn]
      · simp [History.step, renews, takes, drops, hn]
      · simp [History.step, renews, drops, hn]

theorem Tracks.unregister (ht : h.Tracks n) (name : String) :
    (h.step (.unregister name)).Tracks n := by
  have hregistered : h.registry.Registered n ↔ (h.registry.descriptors.get n).isSome := .rfl
  by_cases hn : name = n
  · subst hn
    cases hdescriptor : h.registry.descriptors.get name with
    | none =>
      have hnot : ¬ h.registry.Registered name := by
        rw [hregistered, hdescriptor]
        exact Bool.false_ne_true
      have hfactory : h.registry.factories name = none :=
        Option.not_isSome_iff_eq_none.mp fun hsome => hnot (ht.factories hsome)
      refine ht.congr ?_ ?_ ?_ ?_
      · simp [History.step, apply, ComponentRegistry.unregister, hdescriptor, held, hfactory]
      · simp [History.step, apply, ComponentRegistry.unregister, hdescriptor]
      · simp [History.step, renews, takes, drops, hdescriptor]
      · simp [History.step, renews, drops, hdescriptor]
    | some descriptor =>
      have habandoned : h.abandoned name = false := by
        rw [Bool.eq_false_iff, ne_eq, ht.abandoned, hregistered, hdescriptor]
        exact fun hnot => hnot.1 rfl
      constructor <;> simp [History.step, apply, ComponentRegistry.unregister, hdescriptor,
        Registered, renews, drops, ComponentState.hasInstance, habandoned]
  · refine ht.congr ?_ ?_ ?_ ?_
    · simp only [History.step, apply, ComponentRegistry.unregister]
      split <;> simp [held, Ne.symm hn]
    · simp only [History.step, apply, ComponentRegistry.unregister]
      split
      · rfl
      · exact Keyed.get_remove_of_ne _ (Ne.symm hn)
    · simp [History.step, renews, takes, drops, hn]
    · simp [History.step, renews, drops, hn]

theorem Tracks.replaceInstance (ht : h.Tracks n) (name : String) (hooks : Hooks) :
    (h.step (.replaceInstance name hooks)).Tracks n := by
  rcases h.registry.replaceInstance_cases name hooks with
    ⟨e, calls, heq, -⟩ | ⟨old, hstate, hinstance, heq⟩
  · refine ht.congr ?_ ?_ ?_ ?_ <;>
      simp [History.step, apply, heq, held, renews, takes, drops]
  · by_cases hn : n = name
    · subst hn
      have hregistered : h.registry.Registered n := ht.states.mp (hstate ▸ rfl)
      have hregistered' : (h.step (.replaceInstance n hooks)).registry.Registered n := by
        simpa only [Registered, History.step, apply, heq, setState] using hregistered
      have htaken := ht.taken
      have habandoned := ht.abandoned
      simp only [hregistered, not_true_eq_false, false_and, iff_false, true_and]
        at htaken habandoned
      have hfactories : (h.step (.replaceInstance n hooks)).registry.factories =
          h.registry.factories := by simp only [History.step, apply, heq, setState]
      have htaken' : (h.step (.replaceInstance n hooks)).taken n = h.taken n := by
        simp [History.step, renews, takes, drops]
      have habandoned' : (h.step (.replaceInstance n hooks)).abandoned n = h.abandoned n := by
        simp [History.step, renews, drops]
      refine ⟨fun _ => hregistered', ?_, ?_, ?_, ?_⟩
      · exact iff_of_true (by simp [History.step, apply, heq, setState]) hregistered'
      · simp [History.step, apply, heq, setState]
      · simpa only [htaken', hfactories, hregistered', true_and] using htaken
      · simpa only [habandoned', hregistered', not_true_eq_false, false_and, iff_false] using
          habandoned
    · refine ht.congr ?_ ?_ ?_ ?_ <;>
        simp [History.step, apply, heq, held, setState, renews, takes, drops, hn]

/-- The maps and the record keep track of every name through every operation. -/
theorem Tracks.step (ht : h.Tracks n) (op : RegistryOp) : (h.step op).Tracks n := by
  cases op with
  | initAll =>
    refine ht.drive local_initOne tame_initOne (fun _ _ => isDue_congr) (fun _ => .refl _) rfl ?_ ?_
    · simp [History.step, takes, renews, drops]
    · simp [History.step, renews, drops]
  | startAll =>
    refine ht.drive local_startOne tame_startOne (fun _ _ _ => rfl) (fun _ => .refl _) rfl ?_ ?_
    · simp [History.step, takes, renews, drops]
    · simp [History.step, renews, drops]
  | stopAll =>
    refine ht.drive local_stopOne tame_stopOne (fun _ _ _ => rfl) List.reverse_perm rfl ?_ ?_
    · simp [History.step, takes, renews, drops]
    · simp [History.step, renews, drops]
  | registerFactory descriptor factory => exact ht.registerFactory descriptor factory
  | unregister name => exact ht.unregister name
  | replaceInstance name hooks => exact ht.replaceInstance name hooks

theorem tracks (ops : List RegistryOp) (n : String) : (run (σ := σ) ops).Tracks n := by
  refine run_invariant (fun h => h.Tracks n) ?_ (fun h op ht => ht.step op) ops
  constructor <;> simp [ComponentRegistry.new, Registered, Keyed.get, Keyed.empty,
    ComponentState.hasInstance]

/-- After any operations the maps agree with each other exactly when no init has used up the
factory of a component that is registered, and no name that had an instance was unregistered
and not registered again. -/
theorem lawful_iff (ops : List RegistryOp) :
    (run (σ := σ) ops).registry.Lawful ↔
      (∀ n, (run (σ := σ) ops).taken n = false) ∧ ∀ n, (run (σ := σ) ops).abandoned n = false := by
  have htracks := tracks (σ := σ) ops
  generalize run ops = h at htracks ⊢
  constructor
  · intro hlawful
    refine ⟨fun n => ?_, fun n => ?_⟩
    · rw [Bool.eq_false_iff, ne_eq, (htracks n).taken]
      rintro ⟨hregistered, hfactory⟩
      have hrefuses := hlawful.refuses ⟨n, [], .null⟩ ⟨fun _ => .error (.notFound n)⟩ hregistered
      simp [ComponentRegistry.registerFactory, hfactory] at hrefuses
    · rw [Bool.eq_false_iff, ne_eq, (htracks n).abandoned]
      rintro ⟨hregistered, hinstance⟩
      exact hregistered (hlawful.instances n hinstance)
  · rintro ⟨htaken, habandoned⟩
    refine ⟨fun n => (htracks n).factories, fun n hinstance => ?_, fun n => (htracks n).states,
      fun n => (htracks n).hasInstance, fun descriptor factory hregistered => ?_⟩
    · by_contra hnot
      have := (htracks n).abandoned.mpr ⟨hnot, hinstance⟩
      rw [habandoned n] at this
      cases this
    · have hfactory : (h.registry.factories descriptor.name).isSome := by
        rw [Option.isSome_iff_ne_none]
        intro hnone
        have := (htracks _).taken.mpr ⟨hregistered, hnone⟩
        rw [htaken descriptor.name] at this
        cases this
      rw [ComponentRegistry.registerFactory, if_pos hfactory]

/-- A component that was initialized is registered anew; and an instance is left behind. -/
theorem initialized_unlawful :
    ¬ (run (σ := .inserted) [.registerFactory ⟨"cache", [], .null⟩ (building none),
      .initAll]).registry.Lawful ∧
    ¬ (run (σ := .inserted) [.registerFactory ⟨"cache", [], .null⟩ (building none),
      .initAll, .unregister "cache"]).registry.Lawful := by
  constructor
  · intro h
    have hrefuses := h.refuses ⟨"cache", [], .null⟩ (building none) (by
      unfold Registered
      decide +kernel)
    have hok := congrArg (fun ran => ran.result.isOk) hrefuses
    revert hok
    decide +kernel
  · intro h
    have hregistered := h.instances "cache" (by decide +kernel)
    revert hregistered
    unfold Registered
    decide +kernel

end History

end Behest
