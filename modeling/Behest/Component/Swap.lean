import Behest.Component.Stopping
import Behest.Effect.Crowd

/-!
# Replacements that run at the same time

`replace_instance` and `stop_all` take the locks of the registry only for single reads and
writes. Here each of these accesses, and each call on a component, is a step of its own, and
any number of replacements and stops take their steps in any order.
-/

namespace Behest

open Effect

/-- The registry, and which instances replacements have started under which names. -/
structure SwapState (σ : HashOrder) where
  registry : ComponentRegistry σ
  started : List (String × Nat)

inductive SwapOp where
  | replaceInstance (name : String) (hooks : Hooks)
  | stopAll

/-- A call, at what it does next. Source: `registry.rs:701–821`. -/
inductive SwapCall where
  /-- `replace_instance` reads the old instance. -/
  | reading (name : String) (hooks : Hooks)
  /-- It reads the state. -/
  | checking (name : String) (hooks : Hooks) (old : AnyComponent)
  /-- It calls `pre_replace` on the old instance. -/
  | preparing (name : String) (hooks : Hooks) (old : AnyComponent)
  /-- It starts the new instance. -/
  | starting (name : String) (hooks : Hooks) (old : AnyComponent)
  /-- It puts the new instance into the map. -/
  | swapping (name : String) (component old : AnyComponent)
  /-- It writes the state. -/
  | marking (name : String) (old : AnyComponent)
  /-- It calls `post_replace` on the old instance. -/
  | finishing (name : String) (old : AnyComponent)
  /-- It has handed the old instance to its caller. -/
  | returned (name : String) (old : AnyComponent)
  | refused (error : RegistryError)
  /-- `stop_all` asks for the order. -/
  | ordering
  /-- It reads the state of the next component. -/
  | visiting (rest : List String) (firstError : Option RegistryError)
  /-- It writes `Stopping`. -/
  | claiming (name : String) (rest : List String) (firstError : Option RegistryError)
  /-- It reads the instance. -/
  | fetching (name : String) (rest : List String) (firstError : Option RegistryError)
  /-- It stops the instance. -/
  | halting (name : String) (component : AnyComponent) (rest : List String)
      (firstError : Option RegistryError)
  /-- It writes `Stopped`. -/
  | closing (name : String) (rest : List String) (firstError : Option RegistryError)
  | stopped (firstError : Option RegistryError)

namespace SwapCall

variable {σ : HashOrder}

def start : SwapOp → SwapCall
  | .replaceInstance name hooks => reading name hooks
  | .stopAll => ordering

/-- The next step of a call. -/
def move (c : SwapCall) (s : SwapState σ) : Option (SwapCall × SwapState σ) :=
  match c with
  | reading name hooks =>
      some (match s.registry.instances name with
        | some old => checking name hooks old
        | none => refused (.notFound name), s)
  | checking name hooks old =>
      some (if s.registry.states name = some .running then preparing name hooks old
        else refused (.reload name "component is not in Running state"), s)
  | preparing name hooks old =>
      some (match old.hooks.preReplace with
        | some e => refused (.reload name ("pre_replace hook failed: " ++ e))
        | none => starting name hooks old, s)
  | starting name hooks old =>
      some (match hooks.start with
        | some e => (refused (.reload name ("new instance start failed: " ++ e)), s)
        | none => (swapping name ⟨s.registry.created, hooks⟩ old,
            ⟨{ s.registry with created := s.registry.created + 1 },
              (name, s.registry.created) :: s.started⟩))
  | swapping name component old =>
      some (marking name old, { s with registry := { s.registry with
        instances := Function.update s.registry.instances name (some component) } })
  | marking name old =>
      some (finishing name old, { s with registry := s.registry.setState name .running })
  | finishing name old => some (returned name old, s)
  | returned _ _ | refused _ | stopped _ => none
  | ordering =>
      some (match s.registry.recomputeTopo with
        | (.error e, r) => (stopped (some e), { s with registry := r })
        | (.ok order, r) => (visiting order.reverse none, { s with registry := r }))
  | visiting [] firstError => some (stopped firstError, s)
  | visiting (name :: rest) firstError =>
      some (if ComponentState.isStoppable (s.registry.states name)
        then claiming name rest firstError else visiting rest firstError, s)
  | claiming name rest firstError =>
      some (fetching name rest firstError,
        { s with registry := s.registry.setState name .stopping })
  | fetching name rest firstError =>
      some (match s.registry.instances name with
        | some component => halting name component rest firstError
        | none => visiting rest firstError, s)
  | halting name component rest firstError =>
      some (closing name rest (firstError.or (component.hooks.stop.map (.stop name))), s)
  | closing name rest firstError =>
      some (visiting rest firstError,
        { s with registry := s.registry.setState name .stopped })

/-- The call has ended. -/
def isEnded : SwapCall → Bool
  | returned _ _ | refused _ | stopped _ => true
  | _ => false

/-- The instance that a replacement has in its hand: the new one until it is in the map, the
old one from then on. -/
def hand : SwapCall → Option (String × Nat)
  | swapping name component _ => some (name, component.id)
  | marking name old | finishing name old | returned name old => some (name, old.id)
  | _ => none

/-- The instance that a replacement has returned to its caller. -/
def handedBack : SwapCall → Option (String × Nat)
  | returned name old => some (name, old.id)
  | _ => none

/-- The name a replacement works on, once it has found its component running. -/
def replaces : SwapCall → Option String
  | preparing name _ _ | starting name _ _ | swapping name _ _ | marking name _ => some name
  | _ => none

/-- The name under which a stop writes `Stopped`, when it finds an instance there. -/
def closes : SwapCall → Option String
  | claiming name _ _ | fetching name _ _ | halting name _ _ _ | closing name _ _ => some name
  | _ => none

/-- A stop has read the state of a component, or never will. -/
def Passed : SwapCall → String → Prop
  | visiting rest _, n | claiming _ rest _, n | fetching _ rest _, n | halting _ _ rest _, n
  | closing _ rest _, n => n ∉ rest
  | stopped _, _ => True
  | _, _ => False

/-- A replacement takes out the instance that it has read; it does not call a component running
that has been stopped; and a stop finds an order. -/
def Careful (c : SwapCall) (s : SwapState σ) : Prop :=
  match c with
  | swapping name _ old => (s.registry.instances name).map (·.id) = some old.id
  | marking name _ => s.registry.states name ≠ some .stopped
  | ordering => s.registry.descriptors.Orderly
  | _ => True

instance (c : SwapCall) (s : SwapState σ) : Decidable (c.Careful s) :=
  match c with
  | swapping _ _ _ => inferInstanceAs (Decidable (_ = _))
  | marking _ _ => inferInstanceAs (Decidable (_ ≠ _))
  | ordering => decidable_of_iff _ (Descriptors.isOk_order (σ := σ))
  | reading _ _ | checking _ _ _ | preparing _ _ _ | starting _ _ _ | finishing _ _
  | returned _ _ | refused _ | visiting _ _ | claiming _ _ _ | fetching _ _ _ | halting _ _ _ _
  | closing _ _ _ | stopped _ => .isTrue trivial

/-- A component that a replacement may work on: it runs, or a stop is at it or through with it. -/
structure Open (r : ComponentRegistry σ) (n : String) : Prop where
  registered : r.Registered n
  state : r.states n = some .running ∨ r.states n = some .stopping ∨ r.states n = some .stopped
  instance_isSome : (r.instances n).isSome

/-- One when the map holds an instance under a name, else none. -/
def inMap (r : ComponentRegistry σ) (n : String) (id : Nat) : Nat :=
  if (r.instances n).map (·.id) = some id then 1 else 0

/-- What a step does to the registry, and what it leaves its call with. -/
structure Moves (c c' : SwapCall) (s s' : SwapState σ) : Prop where
  descriptors : s'.registry.descriptors = s.registry.descriptors
  stays : ∀ n, Open s.registry n → Open s'.registry n
  replaces : ∀ n, c'.replaces = some n →
    c.replaces = some n ∨ s.registry.states n = some .running
  running : ∀ n, s'.registry.states n = some .running →
    s.registry.states n = some .running ∨
      c.replaces = some n ∧ s.registry.states n ≠ some .stopped
  stopping : ∀ n, s'.registry.states n = some .stopping →
    s.registry.states n = some .stopping ∨ c'.closes = some n
  closes : ∀ n, c.closes = some n →
    c'.closes = some n ∨ s'.registry.states n = some .stopped ∨ s.registry.instances n = none
  passed : ∀ n, c'.Passed n → c.Passed n ∨ s.registry.states n ≠ some .running ∨
    c'.closes = some n ∨ ¬ s.registry.Registered n
  started : s'.started = s.started ∧ s'.registry.created = s.registry.created ∨
    (∃ n, s'.started = (n, s.registry.created) :: s.started) ∧
      s'.registry.created = s.registry.created + 1
  count : ∀ n id, inMap s'.registry n id + (if c'.hand = some (n, id) then 1 else 0) +
      s.started.count (n, id) =
    inMap s.registry n id + (if c.hand = some (n, id) then 1 else 0) + s'.started.count (n, id)

variable {c c' : SwapCall} {s s' : SwapState σ}

/-- A step that leaves the registry alone. -/
theorem Moves.idle (hreplaces : ∀ n, c'.replaces = some n →
      c.replaces = some n ∨ s.registry.states n = some .running)
    (hcloses : ∀ n, c.closes = some n → c'.closes = some n ∨ s.registry.instances n = none)
    (hpassed : ∀ n, c'.Passed n → c.Passed n ∨ s.registry.states n ≠ some .running ∨
      c'.closes = some n)
    (hhand : c'.hand = c.hand) : Moves c c' s s where
  descriptors := rfl
  stays _ := id
  replaces := hreplaces
  running _ := .inl
  stopping _ := .inl
  closes n hn := (hcloses n hn).imp_right .inr
  passed n hn := (hpassed n hn).imp_right fun h => h.imp_right .inl
  started := .inl ⟨rfl, rfl⟩
  count n id := by rw [hhand]

/-- A step that writes the state of a component that has none of its own. -/
theorem Moves.write {name : String} {state : ComponentState}
    (hstate : state = .running ∨ state = .stopping ∨ state = .stopped)
    (hrunning : state = .running →
      c.replaces = some name ∧ s.registry.states name ≠ some .stopped)
    (hstopping : state = .stopping → c'.closes = some name)
    (hreplaces : c'.replaces = none)
    (hcloses : ∀ n, c.closes = some n → c'.closes = some n ∨ n = name ∧ state = .stopped)
    (hpassed : ∀ n, c'.Passed n → c.Passed n) (hhand : c'.hand = c.hand) :
    Moves c c' s { s with registry := s.registry.setState name state } where
  descriptors := rfl
  stays n h := by
    refine ⟨h.registered, ?_, h.instance_isSome⟩
    by_cases hn : n = name
    · subst hn
      simpa [ComponentRegistry.setState] using hstate
    · simpa [ComponentRegistry.setState, hn] using h.state
  replaces n hn := by
    rw [hreplaces] at hn
    cases hn
  running n hn := by
    by_cases heq : n = name
    · subst heq
      exact .inr (hrunning (by simpa [ComponentRegistry.setState] using hn))
    · exact .inl (by simpa [ComponentRegistry.setState, heq] using hn)
  stopping n hn := by
    by_cases heq : n = name
    · subst heq
      exact .inr (hstopping (by simpa [ComponentRegistry.setState] using hn))
    · exact .inl (by simpa [ComponentRegistry.setState, heq] using hn)
  closes n hn := by
    rcases hcloses n hn with h | ⟨rfl, rfl⟩
    · exact .inl h
    · exact .inr (.inl (by simp [ComponentRegistry.setState]))
  passed n hn := .inl (hpassed n hn)
  started := .inl ⟨rfl, rfl⟩
  count n id := by
    rw [hhand]
    rfl

theorem moves_of_move (h : c.move s = some (c', s')) (hcareful : c.Careful s) :
    Moves c c' s s' := by
  cases c with
  | reading name hooks =>
    cases h
    cases s.registry.instances name <;>
      exact .idle (fun _ => .inl) (fun _ => .inl) (fun _ h => h.elim) rfl
  | checking name hooks old =>
    cases h
    split
    · next hstate =>
      refine .idle (fun n hn => ?_) (fun _ h => by cases h) (fun _ h => h.elim) rfl
      cases hn
      exact .inr hstate
    · exact .idle (fun _ => .inl) (fun _ => .inl) (fun _ h => h.elim) rfl
  | preparing name hooks old =>
    cases h
    cases old.hooks.preReplace with
    | none => exact .idle (fun _ => .inl) (fun _ => .inl) (fun _ h => h.elim) rfl
    | some e => exact .idle (fun _ h => by cases h) (fun _ => .inl) (fun _ h => h.elim) rfl
  | finishing name old =>
    cases h
    exact .idle (fun _ => .inl) (fun _ => .inl) (fun _ h => h.elim) rfl
  | returned _ _ | refused _ | stopped _ => cases h
  | starting name hooks old =>
    cases hstart : hooks.start with
    | some e =>
      simp only [move, hstart, Option.some.injEq, Prod.mk.injEq] at h
      obtain ⟨rfl, rfl⟩ := h
      exact .idle (fun _ h => by cases h) (fun _ => .inl) (fun _ h => h.elim) rfl
    | none =>
      simp only [move, hstart, Option.some.injEq, Prod.mk.injEq] at h
      obtain ⟨rfl, rfl⟩ := h
      refine ⟨rfl, fun n h => ⟨h.1, h.2, h.3⟩, fun _ => .inl, fun _ => .inl, fun _ => .inl,
        fun _ => .inl, fun _ h => h.elim, .inr ⟨⟨name, rfl⟩, rfl⟩, fun n id => ?_⟩
      have hmap : inMap { s.registry with created := s.registry.created + 1 } n id =
          inMap s.registry n id := rfl
      rw [hmap, List.count_cons]
      simp only [hand, Option.some.injEq, beq_iff_eq, reduceCtorEq, if_false]
      omega
  | swapping name component old =>
    cases h
    have hold : (s.registry.instances name).map (·.id) = some old.id := hcareful
    refine ⟨rfl, fun n h => ⟨h.1, h.2, ?_⟩, fun _ => .inl, fun _ => .inl, fun _ => .inl,
      fun _ => .inl, fun _ h => h.elim, .inl ⟨rfl, rfl⟩, fun n id => ?_⟩
    · by_cases hn : n = name
      · simp [hn]
      · simpa [hn] using h.instance_isSome
    · by_cases hn : n = name
      · subst hn
        simp only [inMap, hand, hold, Function.update_self, Option.map_some, Option.some.injEq,
          Prod.mk.injEq, true_and]
        omega
      · simp [inMap, hand, hn, Ne.symm hn]
  | marking name old =>
    cases h
    exact .write (.inl rfl) (fun _ => ⟨rfl, hcareful⟩) (fun h => by cases h) rfl
      (fun _ h => by cases h) (fun _ h => h.elim) rfl
  | ordering =>
    obtain ⟨order, horder⟩ := Descriptors.exists_order_iff (σ := σ).mpr hcareful
    have hfst := s.registry.recomputeTopo_fst
    obtain ⟨topo, cached, hordered⟩ := s.registry.ordered_eq
    rw [ComponentRegistry.ordered] at hordered
    cases hrec : s.registry.recomputeTopo with
    | mk result r =>
      rw [hrec] at hfst hordered
      obtain rfl : result = .ok order := hfst.trans horder
      obtain rfl : r = _ := hordered
      simp only [move, hrec, Option.some.injEq, Prod.mk.injEq] at h
      obtain ⟨rfl, rfl⟩ := h
      exact {
        descriptors := rfl
        stays := fun n h => ⟨h.1, h.2, h.3⟩
        replaces := fun _ h => by cases h
        running := fun _ => .inl
        stopping := fun _ => .inl
        closes := fun _ h => by cases h
        passed := fun n hn => .inr (.inr (.inr fun hregistered => hn
          (List.mem_reverse.mpr (((Descriptors.order_ok horder).2.1 n).mpr hregistered))))
        started := .inl ⟨rfl, rfl⟩
        count := fun _ _ => rfl }
  | visiting rest firstError =>
    cases rest with
    | nil =>
      cases h
      exact .idle (fun _ h => by cases h) (fun _ => .inl) (fun _ _ => .inl (List.not_mem_nil)) rfl
    | cons name rest =>
      cases h
      split
      · refine .idle (fun _ h => by cases h) (fun _ h => by cases h) (fun n hn => ?_) rfl
        by_cases heq : n = name
        · exact .inr (.inr (heq ▸ rfl))
        · exact .inl fun hmem => (List.mem_cons.mp hmem).elim heq hn
      · next hstate =>
        refine .idle (fun _ h => by cases h) (fun _ h => by cases h) (fun n hn => ?_) rfl
        by_cases heq : n = name
        · subst heq
          exact .inr (.inl fun hrunning => hstate (by rw [hrunning]; rfl))
        · exact .inl fun hmem => (List.mem_cons.mp hmem).elim heq hn
  | claiming name rest firstError =>
    cases h
    exact .write (.inr (.inl rfl)) (fun h => by cases h) (fun _ => rfl) rfl (fun _ => .inl)
      (fun _ => id) rfl
  | fetching name rest firstError =>
    cases h
    cases hinstance : s.registry.instances name with
    | some component =>
      exact .idle (fun _ h => by cases h) (fun _ => .inl) (fun _ => .inl) rfl
    | none =>
      refine .idle (fun _ h => by cases h) (fun n hn => ?_) (fun _ => .inl) rfl
      cases hn
      exact .inr hinstance
  | halting name component rest firstError =>
    cases h
    exact .idle (fun _ h => by cases h) (fun _ => .inl) (fun _ => .inl) rfl
  | closing name rest firstError =>
    cases h
    refine .write (.inr (.inr rfl)) (fun h => by cases h) (fun h => by cases h) rfl
      (fun n hn => ?_) (fun _ => id) rfl
    cases hn
    exact .inr ⟨rfl, rfl⟩

/-! ### Undisturbed calls -/

/-- Alone, the steps of a replacement are the operation of the registry. -/
theorem alone_replaceInstance (r : ComponentRegistry σ) (name : String) (hooks : Hooks)
    (started : List (String × Nat)) :
    match (r.replaceInstance name hooks).result with
    | .ok old => Crowd.alone move 7 (start (.replaceInstance name hooks)) ⟨r, started⟩ =
        (returned name old, ⟨(r.replaceInstance name hooks).registry, (name, r.created) :: started⟩)
    | .error e => Crowd.alone move 7 (start (.replaceInstance name hooks)) ⟨r, started⟩ =
        (refused e, ⟨r, started⟩) := by
  unfold ComponentRegistry.replaceInstance
  cases hinstance : r.instances name with
  | none => simp [Crowd.alone, move, start, hinstance]
  | some old =>
    by_cases hstate : r.states name = some .running
    · cases hpre : old.hooks.preReplace with
      | some e => simp [Crowd.alone, move, start, hinstance, hstate, hpre]
      | none =>
        cases hstart : hooks.start <;>
          simp [Crowd.alone, move, start, hinstance, hstate, hpre, hstart,
            ComponentRegistry.setState]
    · simp [Crowd.alone, move, start, hinstance, hstate]

/-- Alone, the steps of a stop at a component are a visit. -/
theorem alone_visit (r : ComponentRegistry σ) (name : String) (rest : List String)
    (firstError : Option RegistryError) (started : List (String × Nat)) :
    ∃ n, Crowd.alone move n (visiting (name :: rest) firstError) ⟨r, started⟩ =
      (visiting rest (firstError.or ((r.stopOne name).2.bind (·.failure))),
        ⟨(r.stopOne name).1, started⟩) := by
  unfold ComponentRegistry.stopOne
  by_cases hstate : ComponentState.isStoppable (r.states name) = true
  · cases hinstance : r.instances name with
    | none =>
      exact ⟨3, by simp [Crowd.alone, move, hstate, ComponentRegistry.setState, hinstance]⟩
    | some component =>
      refine ⟨5, ?_⟩
      simp [Crowd.alone, move, hstate, ComponentRegistry.setState, hinstance,
        LifecycleCall.failure]
  · exact ⟨1, by simp [Crowd.alone, move, hstate]⟩

theorem alone_visits (r : ComponentRegistry σ) (order : List String)
    (started : List (String × Nat)) (rest : List String) :
    ∃ n, Crowd.alone move n (visiting (order ++ rest) none) ⟨r, started⟩ =
      (visiting rest (r.sweep ComponentRegistry.stopOne order).firstError,
        ⟨(r.sweep ComponentRegistry.stopOne order).registry, started⟩) := by
  induction order using List.reverseRecOn generalizing rest with
  | nil => exact ⟨0, rfl⟩
  | append_singleton init name ih =>
    obtain ⟨n, hn⟩ := ih (name :: rest)
    obtain ⟨m, hm⟩ := alone_visit (r.sweep ComponentRegistry.stopOne init).registry name rest
      (r.sweep ComponentRegistry.stopOne init).firstError started
    refine ⟨n + m, ?_⟩
    rw [Crowd.alone_add, List.append_assoc, List.singleton_append, hn, hm,
      ComponentRegistry.sweep_snoc]

/-- Alone, the steps of a stop are the operation of the registry. -/
theorem alone_stopAll (r : ComponentRegistry σ) (started : List (String × Nat)) :
    ∃ n e, Crowd.alone move n (start .stopAll) ⟨r, started⟩ =
        (stopped e, ⟨r.stopAll.registry, started⟩) ∧
      r.stopAll.result = match e with
        | some e => .error e
        | none => .ok () := by
  have hfst := r.recomputeTopo_fst
  have hsnd : r.recomputeTopo.2 = r.ordered := rfl
  unfold ComponentRegistry.stopAll
  cases horder : r.descriptors.order σ with
  | error e =>
    rw [ComponentRegistry.drive_of_error horder]
    refine ⟨1, some e, ?_, rfl⟩
    cases hrec : r.recomputeTopo with
    | mk result r' =>
      rw [hrec] at hfst hsnd
      obtain rfl : result = .error e := hfst.trans horder
      obtain rfl : r' = r.ordered := hsnd
      simp [Crowd.alone, move, start, hrec]
  | ok order =>
    rw [ComponentRegistry.drive_of_ok horder]
    obtain ⟨n, hn⟩ := alone_visits r.ordered order.reverse started []
    rw [List.append_nil] at hn
    refine ⟨1 + (n + 1),
      (r.ordered.sweep ComponentRegistry.stopOne order.reverse).firstError, ?_, rfl⟩
    cases hrec : r.recomputeTopo with
    | mk result r' =>
      rw [hrec] at hfst hsnd
      obtain rfl : result = .ok order := hfst.trans horder
      obtain rfl : r' = r.ordered := hsnd
      have hfirst : Crowd.alone move 1 (start .stopAll) ⟨r, started⟩ =
          (visiting order.reverse none, ⟨r.ordered, started⟩) := by
        simp [Crowd.alone, move, start, hrec]
      rw [Crowd.alone_add, hfirst, Crowd.alone_add, hn]
      rfl

end SwapCall

/-! ### Runs -/

namespace ComponentRegistry

open SwapCall

variable {σ : HashOrder}

abbrev SwapCrowd (σ : HashOrder) := Crowd SwapCall (SwapState σ)

/-- A registry on which nothing is under way. -/
def atRest (r : ComponentRegistry σ) : SwapCrowd σ := ⟨[], ⟨r, []⟩⟩

/-- The states that replacements and stops lead a registry to, their steps in any order that a
condition on the steps allows. -/
abbrev SwapsTo (allowed : SwapCrowd σ → Crowd.Turn SwapOp → Prop) (r : ComponentRegistry σ)
    (y : SwapCrowd σ) : Prop :=
  LeadsTo (Crowd.step start move) allowed r.atRest y

/-- The next step of a call is careful. -/
def CarefulTurn (x : SwapCrowd σ) : Crowd.Turn SwapOp → Prop
  | .enter _ => True
  | .advance i => ∀ c, x.calls[i]? = some c → c.Careful x.state

instance (x : SwapCrowd σ) (t : Crowd.Turn SwapOp) : Decidable (CarefulTurn x t) :=
  match t with
  | .enter _ => .isTrue trivial
  | .advance i => decidable_of_iff (∀ c ∈ x.calls[i]?, c.Careful x.state) .rfl

/-- Every call has ended. -/
def Quiet (x : SwapCrowd σ) : Prop := ∀ c ∈ x.calls, c.isEnded = true

instance (x : SwapCrowd σ) : Decidable (Quiet x) :=
  inferInstanceAs (Decidable (∀ c ∈ x.calls, c.isEnded = true))

/-- Every instance that ran at first, or was started since, is in the map or was handed back
once; and once a stop has returned nothing runs. -/
structure Kept (r : ComponentRegistry σ) (x : SwapCrowd σ) : Prop where
  once : ∀ n id, r.runningId n = some id ∨ (n, id) ∈ x.state.started →
    inMap x.state.registry n id + (x.calls.filterMap handedBack).count (n, id) = 1
  stopped : (∃ e, SwapCall.stopped e ∈ x.calls) →
    ∀ n, x.state.registry.states n ≠ some .running

/-- What careful steps keep: instances are in the map or in the hands of replacements, and
where a stop has passed, a component runs only until the stop that is at it writes its state. -/
structure Guarded (r : ComponentRegistry σ) (x : SwapCrowd σ) : Prop where
  running : ∀ n, x.state.registry.states n = some .running → Open x.state.registry n
  replaced : ∀ c ∈ x.calls, ∀ n, c.replaces = some n → Open x.state.registry n
  claimed : ∀ c ∈ x.calls, ∀ n, c.replaces = some n →
    x.state.registry.states n = some .stopping → ∃ d ∈ x.calls, d.closes = some n
  passed : ∀ c ∈ x.calls, ∀ n, c.Passed n → x.state.registry.states n = some .running →
    ∃ d ∈ x.calls, d.closes = some n
  count : ∀ n id, inMap x.state.registry n id + (x.calls.filterMap hand).count (n, id) =
    inMap r n id + x.state.started.count (n, id)
  fresh : ∀ p ∈ x.state.started, r.created ≤ p.2 ∧ p.2 < x.state.registry.created
  nodup : x.state.started.Nodup
  created : r.created ≤ x.state.registry.created

variable {r : ComponentRegistry σ} {x y : SwapCrowd σ}

theorem Guarded.enter (h : Guarded r x) (op : SwapOp) :
    Guarded r ⟨x.calls ++ [start op], x.state⟩ where
  running := h.running
  replaced c hc n hn := by
    rcases List.mem_append.mp hc with hc | hc
    · exact h.replaced c hc n hn
    · rw [List.mem_singleton.mp hc] at hn
      cases op <;> cases hn
  claimed c hc n hn hstate := by
    rcases List.mem_append.mp hc with hc | hc
    · obtain ⟨d, hd, hcloses⟩ := h.claimed c hc n hn hstate
      exact ⟨d, List.mem_append_left _ hd, hcloses⟩
    · rw [List.mem_singleton.mp hc] at hn
      cases op <;> cases hn
  passed c hc n hn hstate := by
    rcases List.mem_append.mp hc with hc | hc
    · obtain ⟨d, hd, hcloses⟩ := h.passed c hc n hn hstate
      exact ⟨d, List.mem_append_left _ hd, hcloses⟩
    · rw [List.mem_singleton.mp hc] at hn
      cases op <;> exact hn.elim
  count n id := by
    have hhand : hand (start op) = none := by cases op <;> rfl
    simpa [List.filterMap_append, hhand] using h.count n id
  fresh := h.fresh
  nodup := h.nodup
  created := h.created

theorem Guarded.advance (h : Guarded r x) {i : Nat} {c c' : SwapCall} {s' : SwapState σ}
    (hi : x.calls[i]? = some c) (hmove : c.move x.state = some (c', s'))
    (hcareful : c.Careful x.state) : Guarded r ⟨x.calls.set i c', s'⟩ := by
  have hc : c ∈ x.calls := List.mem_of_getElem? hi
  have hmoves : Moves c c' x.state s' := moves_of_move hmove hcareful
  -- a stop that is at a component stays there until it has written its state
  have hclosing : ∀ n, (∃ d ∈ x.calls, d.closes = some n) → Open x.state.registry n →
      s'.registry.states n ≠ some .stopped → ∃ d ∈ x.calls.set i c', d.closes = some n := by
    rintro n ⟨d, hd, hcloses⟩ hopen hstate
    rcases eq_or_mem_set hi c' hd with rfl | hd
    · rcases hmoves.closes n hcloses with hstill | hwritten | hnone
      · exact ⟨c', mem_set_self hi c', hstill⟩
      · exact absurd hwritten hstate
      · have hsome := hopen.instance_isSome
        rw [hnone] at hsome
        cases hsome
    · exact ⟨d, hd, hcloses⟩
  refine ⟨fun n hn => ?_, fun d hd n hn => ?_, fun d hd n hn hstate => ?_,
    fun d hd n hn hstate => ?_, fun n id => ?_, ?_, ?_, ?_⟩
  · rcases hmoves.running n hn with hn | ⟨hn, -⟩
    · exact hmoves.stays n (h.running n hn)
    · exact hmoves.stays n (h.replaced c hc n hn)
  · rcases List.mem_or_eq_of_mem_set hd with hd | rfl
    · exact hmoves.stays n (h.replaced d hd n hn)
    · rcases hmoves.replaces n hn with hn | hn
      · exact hmoves.stays n (h.replaced c hc n hn)
      · exact hmoves.stays n (h.running n hn)
  · have hnot : s'.registry.states n ≠ some .stopped := fun heq => by
      cases hstate.symm.trans heq
    rcases hmoves.stopping n hstate with hbefore | hcloses
    · rcases List.mem_or_eq_of_mem_set hd with hd | rfl
      · exact hclosing n (h.claimed d hd n hn hbefore) (h.replaced d hd n hn) hnot
      · rcases hmoves.replaces n hn with hn | hrunning
        · exact hclosing n (h.claimed c hc n hn hbefore) (h.replaced c hc n hn) hnot
        · cases hbefore.symm.trans hrunning
    · exact ⟨c', mem_set_self hi c', hcloses⟩
  · have hnot : s'.registry.states n ≠ some .stopped := fun heq => by
      cases hstate.symm.trans heq
    -- the component ran before, or was open and is being marked now
    have hbefore : x.state.registry.states n = some .running ∨
        ∃ d ∈ x.calls, d.closes = some n := by
      rcases hmoves.running n hstate with hn | ⟨hreplaces, hn⟩
      · exact .inl hn
      · rcases (h.replaced c hc n hreplaces).state with hrunning | hstopping | hstopped
        · exact .inl hrunning
        · exact .inr (h.claimed c hc n hreplaces hstopping)
        · exact absurd hstopped hn
    have hopen : Open x.state.registry n := by
      rcases hmoves.running n hstate with hn | ⟨hreplaces, -⟩
      · exact h.running n hn
      · exact h.replaced c hc n hreplaces
    rcases hbefore with hrunning | hcloses
    · rcases List.mem_or_eq_of_mem_set hd with hd | rfl
      · exact hclosing n (h.passed d hd n hn hrunning) hopen hnot
      · rcases hmoves.passed n hn with hn | hn | hn | hn
        · exact hclosing n (h.passed c hc n hn hrunning) hopen hnot
        · exact absurd hrunning hn
        · exact ⟨d, mem_set_self hi d, hn⟩
        · exact absurd hopen.registered hn
    · exact hclosing n hcloses hopen hnot
  · have hset := count_filterMap_set (f := hand) hi c' (n, id)
    have hcount := hmoves.count n id
    have hbefore := h.count n id
    dsimp only
    omega
  · intro p hp
    rcases hmoves.started with ⟨hstarted, hcreated⟩ | ⟨⟨n, hstarted⟩, hcreated⟩ <;>
      dsimp only at hp ⊢ <;> rw [hstarted] at hp <;> rw [hcreated]
    · exact h.fresh p hp
    · rcases List.mem_cons.mp hp with rfl | hp
      · exact ⟨h.created, Nat.lt_succ_self _⟩
      · exact ⟨(h.fresh p hp).1, Nat.lt_succ_of_lt (h.fresh p hp).2⟩
  · rcases hmoves.started with ⟨hstarted, -⟩ | ⟨⟨n, hstarted⟩, -⟩ <;> dsimp only <;> rw [hstarted]
    · exact h.nodup
    · exact List.nodup_cons.mpr ⟨fun hmem => Nat.lt_irrefl _ (h.fresh _ hmem).2, h.nodup⟩
  · have hcreated := h.created
    rcases hmoves.started with ⟨-, heq⟩ | ⟨-, heq⟩ <;> dsimp only <;> omega

/-- Careful steps lose no instance, and leave nothing running behind a stop. -/
theorem kept_of_swapsTo (ops : List RegistryOp)
    (h : SwapsTo CarefulTurn (History.run (σ := σ) ops).registry y) (hquiet : Quiet y) :
    Kept (History.run (σ := σ) ops).registry y := by
  have htracks := History.tracks (σ := σ) ops
  have haccounts := History.accounts (σ := σ) ops
  generalize History.run ops = before at h htracks haccounts ⊢
  have hguarded : Guarded before.registry y := by
    refine h.invariant (Guarded before.registry) ?_ fun x t y hx hallowed hstep => ?_
    · constructor <;> simp only [atRest, List.not_mem_nil, false_imp_iff, implies_true,
        List.nodup_nil, Nat.le_refl, List.filterMap_nil, List.count_nil]
      intro n hrunning
      have hinstance := (htracks n).hasInstance (by rw [hrunning]; rfl)
      exact ⟨(htracks n).states.mp (hrunning ▸ rfl), .inl hrunning, hinstance⟩
    · rcases Crowd.step_cases hstep with ⟨op, rfl, rfl⟩ | ⟨i, c, c', s', rfl, hi, hmove, rfl⟩
      · exact hx.enter op
      · exact hx.advance hi hmove (hallowed c hi)
  constructor
  · intro n id hstarted
    have hparts : y.calls.filterMap handedBack = y.calls.filterMap hand := by
      refine List.filterMap_congr fun c hc => ?_
      have hended := hquiet c hc
      cases c <;> first | rfl | cases hended
    rw [hparts, hguarded.count]
    rcases hstarted with hrunning | hstarted
    · obtain ⟨-, c, hc, rfl⟩ := runningId_eq_some.mp hrunning
      have hnot : (n, c.id) ∉ y.state.started := fun hmem =>
        Nat.not_lt.mpr (hguarded.fresh _ hmem).1 (haccounts.fresh n c hc)
      simp [inMap, hc, List.count_eq_zero_of_not_mem hnot]
    · have hnot : (before.registry.instances n).map (·.id) ≠ some id := by
        intro hmap
        obtain ⟨c, hc, rfl⟩ := Option.map_eq_some_iff.mp hmap
        exact Nat.not_lt.mpr (hguarded.fresh _ hstarted).1 (haccounts.fresh n c hc)
      rw [inMap, if_neg hnot, List.count_eq_one_of_mem hguarded.nodup hstarted]
  · rintro ⟨e, hstop⟩ n hrunning
    obtain ⟨d, hd, hcloses⟩ := hguarded.passed _ hstop n trivial hrunning
    have hended := hquiet d hd
    cases d <;> first | (cases hended; done) | cases hcloses

/-- A component that runs. -/
def oneRunning : List RegistryOp :=
  [.registerFactory ⟨"cache", [], .null⟩ (building none), .initAll, .startAll]

def sound : Hooks := ⟨none, none, none⟩

/-- A replacement, and a stop after it. -/
theorem oneRunning_kept :
    ∃ y, SwapsTo CarefulTurn (History.run (σ := .inserted) oneRunning).registry y ∧
    y.calls.length = 2 ∧ Kept (History.run (σ := .inserted) oneRunning).registry y := by
  obtain ⟨y, hy, hquiet, hlength⟩ := exists_leadsTo (Crowd.step start move) CarefulTurn
    (History.run (σ := .inserted) oneRunning).registry.atRest
    ([.enter (.replaceInstance "cache" sound), .enter .stopAll] ++
      List.replicate 7 (.advance 0) ++ List.replicate 7 (.advance 1))
    (fun y => Quiet y ∧ y.calls.length = 2) (by decide +kernel)
  exact ⟨y, hy, hlength, kept_of_swapsTo _ hy hquiet⟩

/-- Two replacements read the same instance, and the one that the first has put into the map is
lost; and a replacement leaves a component running that a stop has stopped. -/
theorem oneRunning_notKept :
    (∃ y, SwapsTo (fun _ _ => True) (History.run (σ := .inserted) oneRunning).registry y ∧
      Quiet y ∧ ("cache", 1) ∈ y.state.started ∧ inMap y.state.registry "cache" 1 = 0 ∧
      (y.calls.filterMap handedBack).count ("cache", 1) = 0) ∧
    ∃ y, SwapsTo (fun _ _ => True) (History.run (σ := .inserted) oneRunning).registry y ∧
      Quiet y ∧ (y.calls.any fun c => c matches .stopped none) = true ∧
      y.state.registry.states "cache" = some .running := by
  constructor
  · exact exists_leadsTo (Crowd.step start move) (fun _ _ => True)
      (History.run (σ := .inserted) oneRunning).registry.atRest
      ([.enter (.replaceInstance "cache" sound), .enter (.replaceInstance "cache" sound),
        .advance 0, .advance 1] ++ List.replicate 6 (.advance 0) ++ List.replicate 6 (.advance 1))
      _ (by decide +kernel)
  · exact exists_leadsTo (Crowd.step start move) (fun _ _ => True)
      (History.run (σ := .inserted) oneRunning).registry.atRest
      ([.enter (.replaceInstance "cache" sound), .enter .stopAll] ++
        List.replicate 5 (.advance 0) ++ List.replicate 7 (.advance 1) ++
        List.replicate 2 (.advance 0))
      _ (by decide +kernel)

end ComponentRegistry

end Behest
