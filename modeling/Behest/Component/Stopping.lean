import Behest.Component.History

/-!
# What a stop reaches

A stop goes through the registered components and their states. It reaches every instance that
runs, unless the name under which one ran was unregistered or registered anew, or there is no
order to go through.
-/

namespace Behest

/-- The component that a call has stopped. -/
def LifecycleCall.stopped : LifecycleCall → Option String
  | stop name _ _ => some name
  | _ => none

namespace ComponentRegistry

variable {σ : HashOrder} {r r' : ComponentRegistry σ} {live live' lost lost' : List Nat}

/-- The instances that run are those under the names that run, and those lost sight of. -/
structure Accounts (r : ComponentRegistry σ) (live lost : List Nat) : Prop where
  fresh : ∀ n c, r.instances n = some c → c.id < r.created
  distinct : ∀ n m c c', r.instances n = some c → r.instances m = some c' → c.id = c'.id → n = m
  lives : ∀ n i, r.runningId n = some i → i ∈ live
  runs : ∀ i ∈ live, i ∈ lost ∨ ∃ n, r.runningId n = some i
  loses : ∀ i ∈ lost, i ∈ live ∧ i < r.created
  kept : ∀ n c, ComponentState.isStoppable (r.states n) = true → r.instances n = some c →
    c.id ∉ lost

theorem runningId_eq_some {n : String} {i : Nat} :
    r.runningId n = some i ↔
      r.states n = some .running ∧ ∃ c, r.instances n = some c ∧ c.id = i := by
  unfold runningId
  split
  · next h => simp [h]
  · next h => simp [h]

theorem runningId_of_ne {n : String} (h : r.states n ≠ some .running) : r.runningId n = none := by
  unfold runningId
  rw [if_neg h]

/-- The state and the instance under one name change; what ran there is stopped or lost sight
of, and what runs there now is running. -/
structure Touches (r r' : ComponentRegistry σ) (n : String) (live live' lost lost' : List Nat) :
    Prop where
  other : ∀ m, m ≠ n → r'.states m = r.states m ∧ r'.instances m = r.instances m
  created : r.created ≤ r'.created
  fresh : ∀ c, r'.instances n = some c →
    r.instances n = some c ∨ r.created ≤ c.id ∧ c.id < r'.created
  stoppable : ComponentState.isStoppable (r'.states n) = true →
    ComponentState.isStoppable (r.states n) = true ∨ ∀ c, r'.instances n = some c → r.created ≤ c.id
  lives : ∀ i, i ∈ live' ↔
    i ∈ live ∧ (r.runningId n = some i → i ∈ lost' ∨ r'.runningId n = some i) ∨
      r'.runningId n = some i
  loses : ∀ i, i ∈ lost' ↔ i ∈ lost ∨
    r.runningId n = some i ∧ ComponentState.isStoppable (r'.states n) = false ∧ i ∈ lost'

theorem runningId_congr {m : String}
    (h : r'.states m = r.states m ∧ r'.instances m = r.instances m) :
    r'.runningId m = r.runningId m := by
  rw [runningId, runningId, h.1, h.2]

namespace Accounts

/-- What runs under a name is not lost. -/
theorem notMem_lost (h : Accounts r live lost) {n : String} {i : Nat}
    (hrunning : r.runningId n = some i) : i ∉ lost := by
  obtain ⟨hstate, c, hc, rfl⟩ := runningId_eq_some.mp hrunning
  exact h.kept n c (by rw [hstate]; rfl) hc

/-- No instance runs under two names. -/
theorem name_unique (h : Accounts r live lost) {n m : String} {i : Nat}
    (hn : r.runningId n = some i) (hm : r.runningId m = some i) : n = m := by
  obtain ⟨-, c, hc, rfl⟩ := runningId_eq_some.mp hn
  obtain ⟨-, c', hc', hid⟩ := runningId_eq_some.mp hm
  exact h.distinct n m c c' hc hc' hid.symm

theorem touch (h : Accounts r live lost) {n : String}
    (ht : Touches r r' n live live' lost lost') : Accounts r' live' lost' := by
  have hother : ∀ m, m ≠ n → r'.runningId m = r.runningId m :=
    fun m hm => runningId_congr (ht.other m hm)
  refine ⟨?_, ?_, ?_, ?_, ?_, ?_⟩
  · intro m c hc
    by_cases hm : m = n
    · subst hm
      rcases ht.fresh c hc with hold | ⟨-, hlt⟩
      · exact Nat.lt_of_lt_of_le (h.fresh m c hold) ht.created
      · exact hlt
    · rw [(ht.other m hm).2] at hc
      exact Nat.lt_of_lt_of_le (h.fresh m c hc) ht.created
  · intro m k c c' hc hc' hid
    by_cases hm : m = n <;> by_cases hk : k = n
    · exact hm.trans hk.symm
    · rw [(ht.other k hk).2] at hc'
      rw [hm] at hc ⊢
      rcases ht.fresh c hc with hold | ⟨hnew, -⟩
      · exact h.distinct n k c c' hold hc' hid
      · exact absurd (h.fresh k c' hc') (by omega)
    · rw [(ht.other m hm).2] at hc
      rw [hk] at hc' ⊢
      rcases ht.fresh c' hc' with hold | ⟨hnew, -⟩
      · exact h.distinct m n c c' hc hold hid
      · exact absurd (h.fresh m c hc) (by omega)
    · rw [(ht.other m hm).2] at hc
      rw [(ht.other k hk).2] at hc'
      exact h.distinct m k c c' hc hc' hid
  · intro m i hi
    rw [ht.lives]
    by_cases hm : m = n
    · exact .inr (hm ▸ hi)
    · rw [hother m hm] at hi
      refine .inl ⟨h.lives m i hi, fun hn => ?_⟩
      exact absurd (h.name_unique hi hn) hm
  · intro i hi
    rcases (ht.lives i).mp hi with ⟨hi, hn⟩ | hn
    · rcases h.runs i hi with hlost | ⟨m, hm⟩
      · exact .inl ((ht.loses i).mpr (.inl hlost))
      · by_cases hmn : m = n
        · rcases hn (hmn ▸ hm) with hlost | hrunning
          · exact .inl hlost
          · exact .inr ⟨n, hrunning⟩
        · exact .inr ⟨m, (hother m hmn).trans hm⟩
    · exact .inr ⟨n, hn⟩
  · intro i hi
    rw [ht.lives]
    rcases (ht.loses i).mp hi with hold | ⟨hn, -, -⟩
    · obtain ⟨hlive, hlt⟩ := h.loses i hold
      refine ⟨.inl ⟨hlive, fun _ => .inl hi⟩, Nat.lt_of_lt_of_le hlt ht.created⟩
    · obtain ⟨-, c, hc, rfl⟩ := runningId_eq_some.mp hn
      exact ⟨.inl ⟨h.lives n c.id hn, fun _ => .inl hi⟩,
        Nat.lt_of_lt_of_le (h.fresh n c hc) ht.created⟩
  · intro m c hstate hc hlost
    by_cases hm : m = n
    · subst hm
      rcases (ht.loses c.id).mp hlost with hold | ⟨-, hnot, -⟩
      · rcases ht.stoppable hstate with hbefore | hnew
        · rcases ht.fresh c hc with hsame | ⟨hle, -⟩
          · exact h.kept m c hbefore hsame hold
          · exact absurd (h.loses c.id hold).2 (by omega)
        · exact absurd (h.loses c.id hold).2 (by have := hnew c hc; omega)
      · rw [hstate] at hnot
        cases hnot
    · rw [(ht.other m hm).1] at hstate
      rw [(ht.other m hm).2] at hc
      rcases (ht.loses c.id).mp hlost with hold | ⟨hn, -, -⟩
      · exact h.kept m c hstate hc hold
      · obtain ⟨-, c', hc', hid⟩ := runningId_eq_some.mp hn
        exact hm (h.distinct m n c c' hc hc' hid.symm)

/-- Where nothing ran and nothing runs now, no instance begins or ceases to run. -/
theorem touch_idle (h : Accounts r live lost) {n : String}
    (hother : ∀ m, m ≠ n → r'.states m = r.states m ∧ r'.instances m = r.instances m)
    (hcreated : r.created ≤ r'.created)
    (hfresh : ∀ c, r'.instances n = some c →
      r.instances n = some c ∨ r.created ≤ c.id ∧ c.id < r'.created)
    (hstoppable : ComponentState.isStoppable (r'.states n) = true →
      ComponentState.isStoppable (r.states n) = true ∨
        ∀ c, r'.instances n = some c → r.created ≤ c.id)
    (hbefore : r.states n ≠ some .running) (hafter : r'.states n ≠ some .running) :
    Accounts r' live lost := by
  refine h.touch ⟨hother, hcreated, hfresh, hstoppable, fun i => ?_, fun i => ?_⟩
  · simp [runningId_of_ne hbefore, runningId_of_ne hafter]
  · simp [runningId_of_ne hbefore]

/-- A state that is not stoppable, of a component that does not run. -/
theorem setState_idle (h : Accounts r live lost) {n : String} {state : ComponentState}
    (hidle : r.states n ≠ some .running)
    (hstate : ComponentState.isStoppable (some state) = false) :
    Accounts (r.setState n state) live lost := by
  refine h.touch_idle (n := n) ?_ (Nat.le_refl _) (fun _ => .inl) ?_ hidle ?_
  · intro m hm
    simp [setState, hm]
  · simp [setState, hstate]
  · rintro hrunning
    simp only [setState, Function.update_self, Option.some.injEq] at hrunning
    rw [hrunning] at hstate
    cases hstate

theorem initOne (h : Accounts r live lost) (n : String) :
    Accounts (initOne r n).1 ((r.initOne n).2.toList.foldl LifecycleCall.note live) lost := by
  unfold ComponentRegistry.initOne
  split
  · exact h
  · next hinit =>
    have hidle : r.states n ≠ some .running := by
      intro hrunning
      simp [isInitialized, hrunning, ComponentState.isInitialized] at hinit
    split
    · exact h
    · dsimp only
      split
      · refine h.touch_idle (n := n) ?_ (Nat.le_succ _) ?_ ?_ hidle ?_
        · intro m hm
          simp [setState, hm]
        · intro c hc
          simp only [setState, Function.update_self, Option.some.injEq] at hc
          subst hc
          exact .inr ⟨Nat.le_refl _, Nat.lt_succ_self _⟩
        · refine fun _ => .inr fun c hc => ?_
          simp only [setState, Function.update_self, Option.some.injEq] at hc
          subst hc
          exact Nat.le_refl _
        · simp [setState]
      · have htaken :
            Accounts { r with factories := Function.update r.factories n none } live lost :=
          ⟨h.fresh, h.distinct, h.lives, h.runs, h.loses, h.kept⟩
        exact (htaken.setState_idle hidle rfl).setState_idle (by simp [setState]) rfl

theorem startOne (h : Accounts r live lost) (n : String) :
    Accounts (startOne r n).1 ((r.startOne n).2.toList.foldl LifecycleCall.note live) lost := by
  unfold ComponentRegistry.startOne
  split
  · exact h
  · next hstate =>
    rw [not_not] at hstate
    have hidle : r.states n ≠ some .running := by simp [hstate]
    dsimp only
    split
    · exact h.setState_idle hidle rfl
    · next component hcomponent =>
      split
      · refine h.touch (n := n) ⟨?_, Nat.le_refl _, fun _ => .inl, ?_, ?_, ?_⟩
        · intro m hm
          simp [setState, hm]
        · exact fun _ => .inl (by rw [hstate]; rfl)
        · intro i
          have hafter :
              runningId ((r.setState n .starting).setState n .running) n = some component.id :=
            runningId_eq_some.mpr ⟨by simp [setState], component, hcomponent, rfl⟩
          simp only [Option.toList_some, List.foldl_cons, List.foldl_nil, LifecycleCall.note,
            List.mem_cons, runningId_of_ne hidle, hafter, Option.some.injEq]
          simp [eq_comm, or_comm]
        · intro i
          simp [runningId_of_ne hidle]
      · exact (h.setState_idle hidle rfl).setState_idle (by simp [setState]) rfl

theorem stopOne (h : Accounts r live lost) (n : String) :
    Accounts (stopOne r n).1 ((r.stopOne n).2.toList.foldl LifecycleCall.note live) lost := by
  unfold ComponentRegistry.stopOne
  split
  · exact h
  · next hstate =>
    rw [not_not] at hstate
    dsimp only
    split
    · next hnone =>
      have hafter : runningId (r.setState n .stopping) n = none :=
        runningId_of_ne (by simp [setState])
      have hbefore : r.runningId n = none := by
        have hnone' : r.instances n = none := hnone
        simp [runningId, hnone']
      refine h.touch (n := n) ⟨?_, Nat.le_refl _, fun _ => .inl, ?_, ?_, ?_⟩
      · intro m hm
        simp [setState, hm]
      · simp [setState, ComponentState.isStoppable]
      · intro i
        simp [hbefore, hafter]
      · intro i
        simp [hbefore]
    · next component hcomponent =>
      have hcomponent : r.instances n = some component := hcomponent
      have hafter : runningId ((r.setState n .stopping).setState n .stopped) n = none :=
        runningId_of_ne (by simp [setState])
      have hkept : component.id ∉ lost := h.kept n component hstate hcomponent
      refine h.touch (n := n) ⟨?_, Nat.le_refl _, fun _ => .inl, ?_, ?_, ?_⟩
      · intro m hm
        simp [setState, hm]
      · simp [setState, ComponentState.isStoppable]
      · intro i
        simp only [Option.toList_some, List.foldl_cons, List.foldl_nil, LifecycleCall.note, hafter,
          List.mem_filter, decide_eq_true_eq, reduceCtorEq, or_false]
        refine and_congr_right fun hi => ⟨fun hne hrunning => ?_, fun hlost hi' => ?_⟩
        · obtain ⟨-, c, hc, rfl⟩ := runningId_eq_some.mp hrunning
          cases hcomponent.symm.trans hc
          exact absurd rfl hne
        · -- the instance that is stopped runs under this name if it runs at all
          subst hi'
          rcases h.runs _ hi with hlost' | ⟨m, hm⟩
          · exact hkept hlost'
          · obtain ⟨-, c, hc, hid⟩ := runningId_eq_some.mp hm
            obtain rfl := h.distinct m n c component hc hcomponent hid
            exact hkept (hlost hm)
      · intro i
        simp only [iff_self_or, and_imp]
        exact fun hrunning _ hlost => hlost

/-- Only the order is cached. -/
theorem ordered (h : Accounts r live lost) : Accounts r.ordered live lost := by
  obtain ⟨_, _, heq⟩ := r.ordered_eq
  rw [heq]
  exact ⟨h.fresh, h.distinct, h.lives, h.runs, h.loses, h.kept⟩

/-- A loop keeps the account when its visits do. -/
theorem drive (h : Accounts r live lost) {visit : Visit σ} (direction : List String → List String)
    (hvisit : ∀ (r : ComponentRegistry σ) live n, Accounts r live lost →
      Accounts (visit r n).1 ((visit r n).2.toList.foldl LifecycleCall.note live) lost) :
    Accounts (r.drive visit direction).registry
      ((r.drive visit direction).calls.foldl LifecycleCall.note live) lost := by
  cases horder : r.descriptors.order σ with
  | error e =>
    rw [drive_of_error horder]
    exact h.ordered
  | ok order =>
    rw [registry_drive horder, calls_drive horder]
    refine sweep_invariant (fun r calls => Accounts r (calls.foldl LifecycleCall.note live) lost)
      h.ordered fun r calls n hr => ?_
    rw [List.foldl_append]
    exact hvisit r _ n hr

/-- What ran under a name is lost sight of when another state is written there. -/
theorem lose (h : Accounts r live lost) {n : String}
    (hother : ∀ m, m ≠ n → r'.states m = r.states m ∧ r'.instances m = r.instances m)
    (hinstances : r'.instances n = r.instances n) (hcreated : r'.created = r.created)
    (hstate : ComponentState.isStoppable (r'.states n) = false) :
    Accounts r' live ((r.runningId n).toList ++ lost) := by
  have hafter : r'.runningId n = none :=
    runningId_of_ne fun hrunning => by rw [hrunning] at hstate; cases hstate
  refine h.touch
    ⟨hother, Nat.le_of_eq hcreated.symm, fun c hc => .inl (hinstances ▸ hc), ?_, ?_, ?_⟩
  · intro hstoppable
    rw [hstate] at hstoppable
    cases hstoppable
  · intro i
    simp only [hafter, List.mem_append, Option.mem_toList, reduceCtorEq, or_false]
    exact ⟨fun hi => ⟨hi, .inl⟩, fun hi => hi.1⟩
  · intro i
    simp only [hstate, List.mem_append, Option.mem_toList, true_and]
    tauto

theorem replaceInstance (h : Accounts r live lost) (name : String) (hooks : Hooks) :
    Accounts (r.replaceInstance name hooks).registry
      ((r.replaceInstance name hooks).calls.foldl LifecycleCall.note live) lost := by
  rcases r.replaceInstance_cases name hooks with ⟨e, calls, heq, hcalls⟩ | ⟨old, hstate, hold, heq⟩
  · rw [heq, hcalls]
    have hnext : r.created ≤ r.created + 1 := Nat.le_succ _
    exact ⟨fun n c hc => Nat.lt_of_lt_of_le (h.fresh n c hc) hnext, h.distinct, h.lives, h.runs,
      fun i hi => ⟨(h.loses i hi).1, Nat.lt_of_lt_of_le (h.loses i hi).2 hnext⟩, h.kept⟩
  · rw [heq]
    have hbefore : r.runningId name = some old.id :=
      runningId_eq_some.mpr ⟨hstate, old, hold, rfl⟩
    have hkept : old.id ∉ lost := h.notMem_lost hbefore
    have hlt : old.id < r.created := h.fresh name old hold
    refine h.touch (n := name) ⟨?_, Nat.le_succ _, ?_, ?_, ?_, ?_⟩
    · intro m hm
      simp [setState, hm]
    · intro c hc
      simp only [setState, Function.update_self, Option.some.injEq] at hc
      subst hc
      exact .inr ⟨Nat.le_refl _, Nat.lt_succ_self _⟩
    · exact fun _ => .inl (by rw [hstate]; rfl)
    · intro i
      have hafter : runningId (setState { r with
          created := r.created + 1
          instances := Function.update r.instances name (some ⟨r.created, hooks⟩) } name .running)
          name = some r.created :=
        runningId_eq_some.mpr ⟨by simp [setState], ⟨r.created, hooks⟩, by simp [setState], rfl⟩
      rw [hbefore, hafter]
      simp only [List.foldl_cons, List.foldl_nil, LifecycleCall.note, List.mem_filter,
        List.mem_cons, decide_eq_true_eq, Option.some.injEq]
      constructor
      · rintro ⟨rfl | hi, hne⟩
        · exact .inr rfl
        · exact .inl ⟨hi, fun heq => absurd heq.symm hne⟩
      · rintro (⟨hi, hrunning⟩ | rfl)
        · refine ⟨.inr hi, fun heq => ?_⟩
          rcases hrunning heq.symm with hlost | hnew
          · exact hkept (heq ▸ hlost)
          · omega
        · exact ⟨.inl rfl, by omega⟩
    · intro i
      simp only [iff_self_or, and_imp]
      exact fun _ _ hlost => hlost

end Accounts

end ComponentRegistry

namespace History

open ComponentRegistry

variable {σ : HashOrder} {h : History σ}

/-- The account is kept through every operation. -/
theorem accounts_step (htracks : ∀ n, h.Tracks n) (ha : Accounts h.registry h.live h.lost)
    (op : RegistryOp) : Accounts (h.step op).registry (h.step op).live (h.step op).lost := by
  cases op with
  | registerFactory descriptor factory =>
    by_cases hfactory : (h.registry.factories descriptor.name).isSome
    · have hnot : (h.registry.factories descriptor.name).isNone = false := by
        simpa using hfactory
      simpa [step, apply, ComponentRegistry.registerFactory, hfactory, losesSightOf, hnot] using ha
    · have hnone : (h.registry.factories descriptor.name).isNone = true := by
        simpa using hfactory
      simp only [step, apply, ComponentRegistry.registerFactory, if_neg hfactory, losesSightOf,
        if_pos hnone]
      refine ha.lose (fun m hm => ?_) rfl rfl ?_
      · simp [hm]
      · simp [ComponentState.isStoppable]
  | unregister name =>
    cases hdescriptor : h.registry.descriptors.get name with
    | none =>
      have hstates : h.registry.states name = none := by
        rw [← Option.not_isSome_iff_eq_none, (htracks name).states, Registered, hdescriptor]
        exact Bool.false_ne_true
      have hidle : h.registry.runningId name = none := runningId_of_ne (by simp [hstates])
      simp only [step, apply, ComponentRegistry.unregister, hdescriptor, losesSightOf, hidle]
      exact ⟨ha.fresh, ha.distinct, ha.lives, ha.runs, ha.loses, ha.kept⟩
    | some descriptor =>
      simp only [step, apply, ComponentRegistry.unregister, hdescriptor, losesSightOf]
      refine ha.lose (fun m hm => ?_) rfl rfl ?_
      · simp [hm]
      · simp [ComponentState.isStoppable]
  | initAll => exact ha.drive _ fun r live n hr => hr.initOne n
  | startAll => exact ha.drive _ fun r live n hr => hr.startOne n
  | stopAll => exact ha.drive _ fun r live n hr => hr.stopOne n
  | replaceInstance name hooks => exact ha.replaceInstance name hooks

theorem accounts (ops : List RegistryOp) :
    Accounts (run (σ := σ) ops).registry (run (σ := σ) ops).live (run (σ := σ) ops).lost := by
  refine (run_invariant (fun h => (∀ n, h.Tracks n) ∧ Accounts h.registry h.live h.lost) ?_
    (fun h op hh => ⟨fun n => (hh.1 n).step op, accounts_step hh.1 hh.2 op⟩) ops).2
  refine ⟨tracks [], ?_⟩
  constructor <;> simp [ComponentRegistry.new, runningId]

/-- The next stop stops what runs: it calls every instance that was started, and neither stopped
nor handed back since, a component before those it needs, and leaves none running. -/
structure StopsAll (h : History σ) : Prop where
  reached : ∀ i ∈ h.live, ∃ name failure, .stop name i failure ∈ h.registry.stopAll.calls
  reversed : (h.registry.stopAll.calls.filterMap (·.stopped)).Pairwise
    fun n m => ¬ h.registry.Needs m n
  none : ∀ n, h.registry.stopAll.registry.states n ≠ some .running

section Stop

variable {r : ComponentRegistry σ} {n : String}

/-- A visit of a stop calls the instance of a component that runs or is initialized. -/
theorem stopOne_call {name : String} {id : Nat} {failure : Option RegistryError} :
    (stopOne r n).2 = some (.stop name id failure) ↔
      name = n ∧ ComponentState.isStoppable (r.states n) = true ∧
        ∃ c, r.instances n = some c ∧ c.id = id ∧ c.hooks.stop.map (.stop n) = failure := by
  unfold stopOne
  split
  · next hstate => simp [Bool.eq_false_iff.mpr hstate]
  · next hstate =>
    rw [not_not] at hstate
    have hinstances : (r.setState n .stopping).instances n = r.instances n := rfl
    simp only [hinstances, hstate, true_and]
    cases r.instances n with
    | none => simp
    | some component =>
      simp only [Option.some.injEq, LifecycleCall.stop.injEq, exists_eq_left']
      exact and_congr_left fun _ => eq_comm

theorem states_stopOne : (stopOne r n).1.states n ≠ some .running := by
  unfold stopOne
  split
  · next hstate =>
    intro hrunning
    rw [hrunning] at hstate
    exact hstate rfl
  · dsimp only
    split <;> simp [setState]

theorem stopped_stopOne (r : ComponentRegistry σ) (n : String) :
    ((stopOne r n).2.toList.filterMap (·.stopped)).Sublist [n] := by
  unfold stopOne
  split
  · exact List.nil_sublist _
  · dsimp only
    split
    · exact List.nil_sublist _
    · exact .refl _

/-- A stop calls the components in the order in which it goes through them. -/
theorem stopped_sweep (r : ComponentRegistry σ) (order : List String) :
    ((r.sweep stopOne order).calls.filterMap (·.stopped)).Sublist order := by
  induction order using List.reverseRecOn with
  | nil => exact List.nil_sublist _
  | append_singleton init last ih =>
    rw [sweep_snoc, List.filterMap_append]
    exact ih.append (stopped_stopOne _ last)

end Stop

/-- An instance that a stop calls is the one of a component that runs or is initialized. -/
theorem exists_of_stopped {r : ComponentRegistry σ} {name : String} {id : Nat}
    {failure : Option RegistryError} (hcall : .stop name id failure ∈ r.stopAll.calls) :
    ∃ n c, ComponentState.isStoppable (r.states n) = true ∧ r.instances n = some c ∧ c.id = id := by
  unfold stopAll at hcall
  cases horder : r.descriptors.order σ with
  | error e =>
    rw [drive_of_error horder] at hcall
    cases hcall
  | ok order =>
    rw [calls_drive horder] at hcall
    obtain ⟨before, n, after, hsplit, hcall⟩ := mem_calls_sweep.mp hcall
    have hnodup := List.nodup_reverse.mpr (Descriptors.order_ok horder).1
    rw [hsplit] at hnodup
    have hheld := local_stopOne.held_before (r := r.ordered) hnodup
    rw [held_ordered] at hheld
    simp only [held, Prod.mk.injEq] at hheld
    obtain ⟨-, hstate, c, hc, hid, -⟩ := stopOne_call.mp hcall
    rw [hheld.2.2] at hstate
    rw [hheld.2.1] at hc
    exact ⟨n, c, hstate, hc, hid⟩

/-- When there is an order, a stop calls every instance that runs under its name. -/
theorem stopped_of_running {r : ComponentRegistry σ} {n : String} {i : Nat}
    (horderly : r.descriptors.Orderly) (hn : r.Registered n) (hi : r.runningId n = some i) :
    ∃ name failure, .stop name i failure ∈ r.stopAll.calls := by
  obtain ⟨order, horder⟩ := Descriptors.exists_order_iff (σ := σ).mpr horderly
  obtain ⟨hnodup, hmem, -⟩ := Descriptors.order_ok horder
  obtain ⟨before, after, hsplit⟩ := List.append_of_mem (List.mem_reverse.mpr ((hmem n).mpr hn))
  have hnodup' := List.nodup_reverse.mpr hnodup
  rw [hsplit] at hnodup'
  have hheld := local_stopOne.held_before (r := r.ordered) hnodup'
  rw [held_ordered] at hheld
  simp only [held, Prod.mk.injEq] at hheld
  obtain ⟨hstate, c, hc, hid⟩ := runningId_eq_some.mp hi
  have hcall := (stopOne_call (r := (r.ordered.sweep stopOne before).registry)).mpr
    ⟨rfl, by rw [hheld.2.2, hstate]; rfl, c, hheld.2.1.trans hc, hid, rfl⟩
  refine ⟨n, c.hooks.stop.map (.stop n), ?_⟩
  rw [stopAll, calls_drive horder]
  exact mem_calls_sweep.mpr ⟨before, n, after, hsplit, hcall⟩

theorem reversed_stopAll (r : ComponentRegistry σ) :
    (r.stopAll.calls.filterMap (·.stopped)).Pairwise fun n m => ¬ r.Needs m n := by
  unfold stopAll
  cases horder : r.descriptors.order σ with
  | error e =>
    rw [drive_of_error horder]
    exact .nil
  | ok order =>
    obtain ⟨hnodup, -, hrespects⟩ := Descriptors.order_ok horder
    rw [calls_drive horder]
    have hpairwise := hrespects.pairwise hnodup
    exact (List.pairwise_reverse.mpr hpairwise).sublist (stopped_sweep _ _)

/-- After any operations, a stop stops everything that runs exactly when no running component
has been unregistered or registered anew, and there is an order or nothing runs. -/
theorem stopsAll_iff (ops : List RegistryOp) :
    (run (σ := σ) ops).StopsAll ↔ (run (σ := σ) ops).lost = [] ∧
      ((run (σ := σ) ops).registry.descriptors.Orderly ∨
        ∀ n, (run (σ := σ) ops).registry.states n ≠ some .running) := by
  have htracks := tracks (σ := σ) ops
  have haccounts := accounts (σ := σ) ops
  generalize run ops = h at htracks haccounts ⊢
  constructor
  · intro hstops
    constructor
    · rw [List.eq_nil_iff_forall_not_mem]
      intro i hlost
      obtain ⟨name, failure, hcall⟩ := hstops.reached i (haccounts.loses i hlost).1
      obtain ⟨n, c, hstate, hc, rfl⟩ := exists_of_stopped hcall
      exact haccounts.kept n c hstate hc hlost
    · by_contra hnot
      rw [not_or] at hnot
      refine hnot.2 fun n hrunning => hstops.none n ?_
      have hheld := held_drive local_stopOne List.reverse_perm h.registry n
      rcases hheld with ⟨horderly, -⟩ | ⟨-, hsame⟩
      · exact absurd horderly hnot.1
      · exact (congrArg (·.2.2) hsame).trans hrunning
  · rintro ⟨hlost, hrun⟩
    refine ⟨fun i hi => ?_, reversed_stopAll _, fun n hrunning => ?_⟩
    · rcases haccounts.runs i hi with hi | ⟨n, hn⟩
      · rw [hlost] at hi
        cases hi
      · have hstate := (runningId_eq_some.mp hn).1
        rcases hrun with horderly | hidle
        · exact stopped_of_running horderly ((htracks n).states.mp (hstate ▸ rfl)) hn
        · exact absurd hstate (hidle n)
    · rcases held_drive local_stopOne List.reverse_perm h.registry n with
        ⟨-, -, r', -, -, hvisited⟩ | ⟨hnot, hsame⟩
      · exact states_stopOne ((congrArg (·.2.2) hvisited).symm.trans hrunning)
      · have hbefore : h.registry.states n = some .running :=
          (congrArg (·.2.2) hsame).symm.trans hrunning
        rcases hrun with horderly | hidle
        · exact hnot ⟨horderly, (htracks n).states.mp (hbefore ▸ rfl)⟩
        · exact hidle n hbefore

/-- A store that runs, and a cache that depends on it. -/
def twoRunning : List RegistryOp :=
  [.registerFactory ⟨"store", [], .null⟩ (building none),
    .registerFactory ⟨"cache", ["store"], .null⟩ (building none), .initAll, .startAll]

/-- An instance that runs is not stopped once its name is unregistered; and nothing is stopped
once a name that another component depends on is. -/
theorem twoRunning_notStopped :
    ¬ (run (σ := .inserted) (twoRunning ++ [.unregister "cache"])).StopsAll ∧
      ¬ (run (σ := .inserted) (twoRunning ++ [.unregister "store"])).StopsAll := by
  constructor
  · intro h
    obtain ⟨name, failure, hcall⟩ := h.reached 1 (by decide +kernel)
    have hids : ∀ call ∈ (run (σ := .inserted)
        (twoRunning ++ [.unregister "cache"])).registry.stopAll.calls,
        (LifecycleCall.note [1] call).length = 1 := by decide +kernel
    have hlength := hids _ hcall
    simp [LifecycleCall.note] at hlength
  · exact fun h => h.none "cache" (by decide +kernel)

end History

end Behest
