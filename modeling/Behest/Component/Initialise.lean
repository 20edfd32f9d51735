import Behest.Component.Sweep

/-!
# What init and start do about failures

A component is built and started whatever became of the components it needs: the loops look
only at the state of the name they visit. So the dependencies are respected exactly when no
component that another one waits for fails.
-/

namespace Behest

def LifecycleCall.isBuildOf (name : String) : LifecycleCall → Bool
  | build n _ _ => n = name
  | _ => false

namespace ComponentRegistry

variable {σ : HashOrder} (r : ComponentRegistry σ)

def Registered (n : String) : Prop := (r.descriptors.get n).isSome

/-- A component needs another one, by itself or through others. -/
def Needs (n d : String) : Prop := Graph.Needs (Descriptors.dependsOn r.descriptors) n d

/-- A visit of an init builds the component. -/
def isDue (n : String) : Bool := !r.isInitialized n && (r.factories n).isSome

/-- A component that the next init builds. -/
def Waits (n : String) : Prop := r.Registered n ∧ r.isDue n = true

/-- The factory of a component is there, and builds it. -/
def Builds (n : String) : Prop :=
  ∃ factory hooks, r.factories n = some factory ∧ factory.build (r.configOf n) = .ok hooks

/-- A component that is initialized after the next init. -/
def ComesUp (n : String) : Prop := r.isInitialized n = true ∨ r.Builds n

/-- A component that the next start starts. -/
def Ready (n : String) : Prop :=
  r.Registered n ∧ r.states n = some .initialized ∧ (r.instances n).isSome

/-- A component that runs after the next start. -/
def ComesToRun (n : String) : Prop :=
  r.states n = some .running ∨
    r.states n = some .initialized ∧
      ∃ component, r.instances n = some component ∧ component.hooks.start = none

/-- An operation returns the error of the first call that failed. -/
def ReturnsFirst {β : Type} (ran : Operated σ β) (value : β) : Prop :=
  ran.result = match ran.calls.findSome? (·.failure) with
    | some e => .error e
    | none => .ok value

/-- What the next init does respects the dependencies. -/
structure InitRespects : Prop where
  afterNeeds : ∀ n failure states, .build n failure states ∈ r.initAll.calls →
    ∀ d, r.Needs n d → ComponentState.isInitialized (states d) = true
  once : ∀ n, r.Waits n → (∀ d, r.Needs n d → r.initAll.registry.states d ≠ some .failed) →
    r.initAll.calls.countP (·.isBuildOf n) = 1
  first : ReturnsFirst r.initAll ()

/-- What the next start does respects the dependencies. -/
def StartRespects : Prop :=
  ∀ n id failure states, .start n id failure states ∈ r.startAll.calls →
    ∀ d ∈ Descriptors.dependsOn r.descriptors n, states d = some .running

variable {r} {visit : Visit σ}

/-- A loop returns the first error, whatever it does. -/
theorem returnsFirst_drive {order : List String} (h : r.descriptors.order σ = .ok order)
    (direction : List String → List String) : ReturnsFirst (r.drive visit direction) () := by
  have hfirst := firstError_sweep (r.ordered) visit (direction order)
  unfold ReturnsFirst
  rw [drive_of_ok h]
  exact hfirst ▸ rfl

/-- A call of a loop over the order is made after the visits to all that its component needs. -/
theorem mem_calls_drive {order : List String} (h : r.descriptors.order σ = .ok order)
    {c : LifecycleCall} (hc : c ∈ (r.drive visit id).calls) :
    ∃ before n after, order = before ++ n :: after ∧ r.Registered n ∧
      (∀ d, r.Needs n d → d ∈ before) ∧
      (visit (r.ordered.sweep visit before).registry n).2 = some c := by
  obtain ⟨-, hmem, hrespects⟩ := Descriptors.order_ok h
  rw [calls_drive h] at hc
  obtain ⟨before, n, after, rfl, hcall⟩ := mem_calls_sweep.mp hc
  refine ⟨before, n, after, rfl, (hmem n).mp ?_, fun d hneeds => hrespects.needs hneeds rfl, hcall⟩
  exact List.mem_append_right _ (List.mem_cons_self ..)

/-- A component that is visited was visited at one place of the order. -/
theorem exists_visit {order : List String} (h : r.descriptors.order σ = .ok order)
    (hlocal : Local visit) {n : String} (hn : r.Registered n) :
    ∃ before after, order = before ++ n :: after ∧
      (r.ordered.sweep visit before).registry.descriptors = r.descriptors ∧
      (r.ordered.sweep visit before).registry.held n = r.held n := by
  obtain ⟨hnodup, hmem, -⟩ := Descriptors.order_ok h
  obtain ⟨before, after, rfl⟩ := List.append_of_mem ((hmem n).mpr hn)
  refine ⟨before, after, rfl, ?_, ?_⟩
  · rw [hlocal.descriptors_sweep, descriptors_ordered]
  · rw [hlocal.held_before hnodup, held_ordered]

/-- What a visited component is left with depends on what was held under its name at first. -/
theorem held_of_visited {order before : List String} (h : r.descriptors.order σ = .ok order)
    (hlocal : Local visit) {after : List String} (horder : order = before ++ after) {d : String}
    (hd : d ∈ before) : ∃ r' : ComponentRegistry σ, r'.descriptors = r.descriptors ∧
      r'.held d = r.held d ∧
      (r.ordered.sweep visit before).registry.held d = (visit r' d).1.held d := by
  subst horder
  obtain ⟨hnodup, -, -⟩ := Descriptors.order_ok h
  obtain ⟨front, back, rfl⟩ := List.append_of_mem hd
  have hnodup' := (List.nodup_append.mp hnodup).1
  refine ⟨(r.ordered.sweep visit front).registry, ?_, ?_, hlocal.held_sweep hnodup'⟩
  · rw [hlocal.descriptors_sweep, descriptors_ordered]
  · rw [hlocal.held_before hnodup', held_ordered]

section Init

/-- What an init does at a name. -/
theorem initOne_cases (r : ComponentRegistry σ) (n : String) :
    (r.isDue n = false ∧ initOne r n = (r, none)) ∨
    (r.isDue n = true ∧ ∃ failure, (failure = none ↔ r.Builds n) ∧
      (initOne r n).1.states n = some (if failure.isNone then .initialized else .failed) ∧
      (initOne r n).2 =
        some (.build n failure (Function.update r.states n (some .initializing)))) := by
  unfold initOne isDue Builds
  cases hinit : r.isInitialized n with
  | true => exact .inl ⟨rfl, rfl⟩
  | false =>
    cases hfactory : r.factories n with
    | none => exact .inl ⟨rfl, rfl⟩
    | some factory =>
      refine .inr ⟨rfl, ?_⟩
      have hconfig : configOf { r with factories := Function.update r.factories n none } n =
          r.configOf n := rfl
      simp only [hconfig, Option.some.injEq, exists_and_left, exists_eq_left']
      cases hbuild : factory.build (r.configOf n) with
      | ok hooks => exact ⟨none, by simp, by simp [setState], by simp [setState]⟩
      | error e => exact ⟨some e, by simp, by simp [setState], by simp [setState]⟩

variable {r' : ComponentRegistry σ} {n : String}

theorem isDue_congr (hheld : r'.held n = r.held n) : r'.isDue n = r.isDue n := by
  simp only [held, Prod.mk.injEq] at hheld
  simp only [isDue, isInitialized, hheld]

theorem comesUp_congr (hdescriptors : r'.descriptors = r.descriptors)
    (hheld : r'.held n = r.held n) : r'.ComesUp n ↔ r.ComesUp n := by
  simp only [held, Prod.mk.injEq] at hheld
  simp only [ComesUp, Builds, isInitialized, configOf, hdescriptors, hheld]

/-- A visit leaves a component initialized exactly when it comes up. -/
theorem isInitialized_initOne : (initOne r n).1.isInitialized n = true ↔ r.ComesUp n := by
  rcases initOne_cases r n with ⟨hdue, heq⟩ | ⟨hdue, failure, hbuilds, hstates, -⟩
  · rw [heq]
    refine ⟨.inl, ?_⟩
    rintro (h | ⟨factory, hooks, hfactory, -⟩)
    · exact h
    · simpa [isDue, hfactory] using hdue
  · have hinit : r.isInitialized n = false := by
      simp only [isDue, Bool.and_eq_true, Bool.not_eq_true'] at hdue
      exact hdue.1
    unfold ComesUp
    rw [hinit, ← hbuilds, isInitialized, hstates]
    cases failure <;> simp [ComponentState.isInitialized]

theorem countP_initOne (r : ComponentRegistry σ) (m n : String) :
    (initOne r m).2.toList.countP (·.isBuildOf n) = if m = n ∧ r.isDue m = true then 1 else 0 := by
  rcases initOne_cases r m with ⟨hdue, heq⟩ | ⟨hdue, failure, -, -, hcall⟩
  · simp [heq, hdue]
  · rw [hcall, hdue]
    by_cases h : m = n <;> simp [h, LifecycleCall.isBuildOf]

/-- A component is built once by a loop that comes to it while it is due. -/
theorem countP_sweep {order : List String} (hnodup : order.Nodup) (n : String) :
    (r.sweep initOne order).calls.countP (·.isBuildOf n) =
      if n ∈ order ∧ r.isDue n = true then 1 else 0 := by
  induction order using List.reverseRecOn with
  | nil => simp [sweep]
  | append_singleton init last ih =>
    obtain ⟨hinit, -, hlast⟩ := List.nodup_append.mp hnodup
    have hfresh : last ∉ init := fun h => hlast last h last (List.mem_singleton_self _) rfl
    rw [sweep_snoc, List.countP_append, ih hinit, countP_initOne,
      isDue_congr (local_initOne.held_sweep_of_notMem hfresh)]
    by_cases h : last = n
    · subst h
      simp [hfresh]
    · simp [h, Ne.symm h]

/-- The states while a component is built are those its needs were left with. -/
theorem isInitialized_of_built {order before after : List String}
    (h : r.descriptors.order σ = .ok order) (horder : order = before ++ n :: after) {d : String}
    (hd : d ∈ before) (state : ComponentState) :
    ComponentState.isInitialized (Function.update
      (r.ordered.sweep initOne before).registry.states n (some state) d) = true ↔ r.ComesUp d := by
  obtain ⟨hnodup, -, -⟩ := Descriptors.order_ok h
  have hne : d ≠ n := by
    rintro rfl
    rw [horder] at hnodup
    exact (List.nodup_append.mp hnodup).2.2 d hd d (List.mem_cons_self ..) rfl
  obtain ⟨r', hdescriptors, hheld, hvisited⟩ := held_of_visited h local_initOne horder hd
  have hstates : (r.ordered.sweep initOne before).registry.states d = (initOne r' d).1.states d :=
    congrArg (·.2.2) hvisited
  rw [Function.update_of_ne hne, hstates, ← comesUp_congr hdescriptors hheld]
  exact isInitialized_initOne

/-- An init respects the dependencies exactly when it fails to build no component that another
one waits for. -/
theorem initRespects_iff (h : r.descriptors.Orderly) :
    r.InitRespects ↔ ∀ n, r.Waits n → ∀ d, r.Needs n d → r.ComesUp d := by
  obtain ⟨order, horder⟩ := Descriptors.exists_order_iff (σ := σ).mpr h
  constructor
  · intro hrespects n ⟨hn, hdue⟩ d hneeds
    obtain ⟨before, after, hsplit, -, hheld⟩ := exists_visit horder local_initOne hn
    have hbefore : d ∈ before := (Descriptors.order_ok horder).2.2.needs hneeds hsplit
    have hdue' := isDue_congr hheld
    rcases initOne_cases (r.ordered.sweep initOne before).registry n with
      ⟨hnot, -⟩ | ⟨-, failure, -, -, hcall⟩
    · rw [hdue', hdue] at hnot
      cases hnot
    have hmem := mem_calls_sweep.mpr ⟨before, n, after, hsplit, hcall⟩
    refine (isInitialized_of_built horder hsplit hbefore .initializing).mp
      (hrespects.afterNeeds n failure _ ?_ d hneeds)
    rw [initAll, calls_drive horder]
    exact hmem
  · intro hup
    refine ⟨?_, fun n hn _ => ?_, returnsFirst_drive horder _⟩
    · intro n failure states hcall d hneeds
      obtain ⟨before, n', after, hsplit, hn', hbefore, hcall⟩ := mem_calls_drive horder hcall
      have hheld : (r.ordered.sweep initOne before).registry.held n' = r.held n' := by
        rw [local_initOne.held_before (hsplit ▸ (Descriptors.order_ok horder).1), held_ordered]
      rcases initOne_cases (r.ordered.sweep initOne before).registry n' with
        ⟨-, heq⟩ | ⟨hdue, failure', -, -, heq⟩
      · rw [heq] at hcall
        cases hcall
      rw [heq] at hcall
      cases hcall
      rw [isDue_congr hheld] at hdue
      exact (isInitialized_of_built horder hsplit (hbefore d hneeds) _).mpr
        (hup n ⟨hn', hdue⟩ d hneeds)
    · rw [initAll, calls_drive horder]
      refine (countP_sweep (Descriptors.order_ok horder).1 n).trans (if_pos ⟨?_, ?_⟩)
      · exact ((Descriptors.order_ok horder).2.1 n).mpr hn.1
      · rw [isDue_congr (held_ordered r n)]
        exact hn.2

end Init

section Start

/-- What a start does at a name. -/
theorem startOne_cases (r : ComponentRegistry σ) (n : String) :
    (¬ (r.states n = some .initialized ∧ (r.instances n).isSome) ∧ (startOne r n).2 = none ∧
      ((startOne r n).1.states n = some .running ↔ r.states n = some .running)) ∨
    (∃ component failure, r.states n = some .initialized ∧ r.instances n = some component ∧
      (failure = none ↔ component.hooks.start = none) ∧
      (startOne r n).1.states n = some (if failure.isNone then .running else .failed) ∧
      (startOne r n).2 =
        some (.start n component.id failure (Function.update r.states n (some .starting)))) := by
  unfold startOne
  by_cases hstate : r.states n = some .initialized
  · rw [if_neg (not_not.mpr hstate)]
    have hinstances : (r.setState n .starting).instances n = r.instances n := rfl
    simp only [hinstances]
    cases hcomponent : r.instances n with
    | none => exact .inl ⟨by simp, rfl, by simp [setState, hstate]⟩
    | some component =>
      refine .inr ⟨component, component.hooks.start.map (.start n), hstate, rfl, ?_, ?_, ?_⟩
      · exact Option.map_eq_none_iff
      · cases hstart : component.hooks.start <;> simp [hstart, setState]
      · cases hstart : component.hooks.start <;> simp [hstart, setState]
  · rw [if_pos hstate]
    exact .inl ⟨fun h => hstate h.1, rfl, .rfl⟩

variable {r' : ComponentRegistry σ} {n : String}

theorem comesToRun_congr (hheld : r'.held n = r.held n) : r'.ComesToRun n ↔ r.ComesToRun n := by
  simp only [held, Prod.mk.injEq] at hheld
  simp only [ComesToRun, hheld]

/-- A visit leaves a component running exactly when it comes to run. -/
theorem running_startOne : (startOne r n).1.states n = some .running ↔ r.ComesToRun n := by
  unfold ComesToRun
  rcases startOne_cases r n with ⟨hready, -, hiff⟩ | ⟨component, failure, hstate, hc, hok, hs, -⟩
  · rw [hiff]
    refine ⟨.inl, ?_⟩
    rintro (h | ⟨hstate, component, hcomponent, -⟩)
    · exact h
    · exact absurd ⟨hstate, hcomponent ▸ rfl⟩ hready
  · rw [hs, hstate, hc]
    simp only [Option.some.injEq, exists_eq_left', ← hok]
    cases failure <;> simp

/-- The states while a component is started are those its needs were left with. -/
theorem running_of_started {order before after : List String}
    (h : r.descriptors.order σ = .ok order) (horder : order = before ++ n :: after) {d : String}
    (hd : d ∈ before) (state : ComponentState) :
    Function.update (r.ordered.sweep startOne before).registry.states n (some state) d =
      some .running ↔ r.ComesToRun d := by
  obtain ⟨hnodup, -, -⟩ := Descriptors.order_ok h
  have hne : d ≠ n := by
    rintro rfl
    rw [horder] at hnodup
    exact (List.nodup_append.mp hnodup).2.2 d hd d (List.mem_cons_self ..) rfl
  obtain ⟨r', -, hheld, hvisited⟩ := held_of_visited h local_startOne horder hd
  have hstates : (r.ordered.sweep startOne before).registry.states d =
      (startOne r' d).1.states d := congrArg (·.2.2) hvisited
  rw [Function.update_of_ne hne, hstates, ← comesToRun_congr hheld]
  exact running_startOne

/-- A start respects the dependencies exactly when every component that one it starts depends
on runs already or is started without a failure. -/
theorem startRespects_iff (h : r.descriptors.Orderly) :
    r.StartRespects ↔
      ∀ n, r.Ready n → ∀ d ∈ Descriptors.dependsOn r.descriptors n, r.ComesToRun d := by
  obtain ⟨order, horder⟩ := Descriptors.exists_order_iff (σ := σ).mpr h
  constructor
  · intro hrespects n ⟨hn, hstate, hinstance⟩ d hd
    obtain ⟨before, after, hsplit, -, hheld⟩ := exists_visit horder local_startOne hn
    have hbefore : d ∈ before := (Descriptors.order_ok horder).2.2 _ _ _ hsplit d hd
    simp only [held, Prod.mk.injEq] at hheld
    rcases startOne_cases (r.ordered.sweep startOne before).registry n with
      ⟨hready, -, -⟩ | ⟨component, failure, -, -, -, -, hcall⟩
    · rw [hheld.2.1, hheld.2.2] at hready
      exact absurd ⟨hstate, hinstance⟩ hready
    have hmem := mem_calls_sweep.mpr ⟨before, n, after, hsplit, hcall⟩
    refine (running_of_started horder hsplit hbefore .starting).mp
      (hrespects n component.id failure _ ?_ d hd)
    rw [startAll, calls_drive horder]
    exact hmem
  · intro hrun n id failure states hcall d hd
    obtain ⟨before, n', after, hsplit, hn', hbefore, hcall⟩ := mem_calls_drive horder hcall
    have hheld : (r.ordered.sweep startOne before).registry.held n' = r.held n' := by
      rw [local_startOne.held_before (hsplit ▸ (Descriptors.order_ok horder).1), held_ordered]
    simp only [held, Prod.mk.injEq] at hheld
    rcases startOne_cases (r.ordered.sweep startOne before).registry n' with
      ⟨-, heq, -⟩ | ⟨component, failure', hstate, hinstance, -, -, heq⟩
    · rw [heq] at hcall
      cases hcall
    rw [heq] at hcall
    cases hcall
    rw [hheld.2.2] at hstate
    rw [hheld.2.1] at hinstance
    exact (running_of_started horder hsplit (hbefore d (.single hd)) _).mpr
      (hrun n ⟨hn', hstate, hinstance ▸ rfl⟩ d hd)

end Start

/-- Init and start respect the dependencies exactly when no component that fails is one that
another component to be built or started needs. -/
theorem respects_iff (h : r.descriptors.Orderly) :
    (r.InitRespects ↔ ∀ n, r.Waits n → ∀ d, r.Needs n d → r.ComesUp d) ∧
    (r.StartRespects ↔
      ∀ n, r.Ready n → ∀ d ∈ Descriptors.dependsOn r.descriptors n, r.ComesToRun d) :=
  ⟨initRespects_iff h, startRespects_iff h⟩

/-- A store, and a cache that depends on it. -/
def storeAndCache (store cache : ComponentFactory) : ComponentRegistry .inserted :=
  ((new.registerFactory ⟨"store", [], .null⟩ store).registry.registerFactory
    ⟨"cache", ["store"], .null⟩ cache).registry

/-- A factory whose component starts with a message, or without one. -/
def building (start : Option String) : ComponentFactory := ⟨fun _ => .ok ⟨start, none, none⟩⟩

def refusing : ComponentFactory := ⟨fun _ => .error (.init "store" "refused")⟩

theorem storeAndCache_orderly (store cache : ComponentFactory) :
    (storeAndCache store cache).descriptors.Orderly :=
  (Descriptors.exists_order_iff (σ := .inserted)).mp ⟨["store", "cache"], rfl⟩

/-- With both built the dependencies are respected. -/
theorem storeAndCache_respects :
    (storeAndCache (building none) (building none)).InitRespects := by
  refine (respects_iff (storeAndCache_orderly _ _)).1.mpr fun n _ d hneeds => ?_
  obtain ⟨m, -, hd⟩ := Relation.TransGen.tail'_iff.mp hneeds
  have hstore : d = "store" := by
    obtain ⟨descriptor, hget, hdep⟩ := Descriptors.mem_dependsOn.mp hd
    have hall : ∀ c ∈ (storeAndCache (building none) (building none)).descriptors.records,
        ∀ dep ∈ c.dependsOn, dep = "store" := by decide +kernel
    exact hall descriptor (Keyed.get_mem hget).1 d hdep
  subst hstore
  exact .inr ⟨_, _, rfl, rfl⟩

/-- A component is built while a test says something of the states. -/
def builtWhile (name : String) (p : (String → Option ComponentState) → Bool) :
    LifecycleCall → Bool
  | .build n _ states => n = name && p states
  | _ => false

/-- A component is started while a test says something of the states. -/
def startedWhile (name : String) (p : (String → Option ComponentState) → Bool) :
    LifecycleCall → Bool
  | .start n _ _ states => n = name && p states
  | _ => false

/-- The cache is built although the store it needs failed; and the cache is started although
the store it needs did not start. -/
theorem storeAndCache_notRespected :
    ¬ (storeAndCache refusing (building none)).InitRespects ∧
      ¬ (storeAndCache (building (some "no route"))
          (building none)).initAll.registry.StartRespects := by
  constructor
  · intro h
    have hbuilt : (storeAndCache refusing (building none)).initAll.calls.any (builtWhile "cache"
        fun states => states "store" = some .failed) = true := by decide +kernel
    obtain ⟨call, hcall, hwhile⟩ := List.any_eq_true.mp hbuilt
    cases call with
    | build name failure states =>
      simp only [builtWhile, Bool.and_eq_true, decide_eq_true_eq] at hwhile
      obtain ⟨rfl, hstore⟩ := hwhile
      have hinit := h.afterNeeds "cache" failure states hcall "store"
        (.single (by decide +kernel))
      rw [hstore] at hinit
      cases hinit
    | _ => cases hwhile
  · intro h
    have hstarted : (storeAndCache (building (some "no route"))
        (building none)).initAll.registry.startAll.calls.any (startedWhile "cache"
        fun states => states "store" = some .failed) = true := by decide +kernel
    obtain ⟨call, hcall, hwhile⟩ := List.any_eq_true.mp hstarted
    cases call with
    | start name id failure states =>
      simp only [startedWhile, Bool.and_eq_true, decide_eq_true_eq] at hwhile
      obtain ⟨rfl, hstore⟩ := hwhile
      have hrunning := h "cache" id failure states hcall "store" (by decide +kernel)
      rw [hstore] at hrunning
      cases hrunning
    | _ => cases hwhile

end ComponentRegistry

end Behest
