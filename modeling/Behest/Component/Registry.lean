import Mathlib.Logic.Function.Basic
import Behest.Component.Topology

/-!
# The component registry

Factories, descriptors, instances and states under the names of components, with the operations
that move components through their lives (`behest-runtime/src/registry.rs`). Every operation
also gives the calls it made on components, for the history.
-/

namespace Behest

/-- Source: `registry.rs:128–151`. -/
inductive ComponentState where
  | pending
  | initializing
  | initialized
  | starting
  | running
  | stopping
  | stopped
  | failed
deriving DecidableEq

namespace ComponentState

/-- Source: `registry.rs:565–573`. -/
def isInitialized : Option ComponentState → Bool
  | some initialized | some running | some starting | some stopping | some stopped => true
  | _ => false

/-- Source: `registry.rs:705–710`. -/
def isStoppable : Option ComponentState → Bool
  | some running | some initialized => true
  | _ => false

end ComponentState

/-- How the hooks of a component end: with a message when they fail. -/
structure Hooks where
  start : Option String
  stop : Option String
  preReplace : Option String

/-- An instance. Instances are told apart by the number under which they came into being. -/
structure AnyComponent where
  id : Nat
  hooks : Hooks

/-- A factory builds one component from its configuration, or fails. -/
structure ComponentFactory where
  build : Value → Except RegistryError Hooks

/-- A call on a component, with how it failed and the states while it ran. -/
inductive LifecycleCall where
  | build (name : String) (failure : Option RegistryError)
      (states : String → Option ComponentState)
  | start (name : String) (id : Nat) (failure : Option RegistryError)
      (states : String → Option ComponentState)
  | stop (name : String) (id : Nat) (failure : Option RegistryError)
  | handedBack (id : Nat)

def LifecycleCall.failure : LifecycleCall → Option RegistryError
  | build _ failure _ | start _ _ failure _ | stop _ _ failure => failure
  | handedBack _ => none

/-- A registry. An order that is cached is the order of the descriptors.
Source: `registry.rs:342–361`. -/
structure ComponentRegistry (σ : HashOrder) where
  factories : String → Option ComponentFactory
  descriptors : Descriptors
  instances : String → Option AnyComponent
  states : String → Option ComponentState
  topo : Option (List String)
  created : Nat
  cached : ∀ order, topo = some order → descriptors.order σ = .ok order

/-- What an operation returns, the registry after it, and the calls it made. -/
structure Operated (σ : HashOrder) (β : Type) where
  result : Except RegistryError β
  registry : ComponentRegistry σ
  calls : List LifecycleCall

namespace ComponentRegistry

variable {σ : HashOrder}

def new : ComponentRegistry σ :=
  ⟨fun _ => none, .empty, fun _ => none, fun _ => none, none, 0, fun _ h => nomatch h⟩

variable (r : ComponentRegistry σ)

/-- Source: `registry.rs:412–451`. -/
def registerFactory (descriptor : ComponentDescriptor) (factory : ComponentFactory) :
    Operated σ Unit :=
  if (r.factories descriptor.name).isSome then
    ⟨.error (.alreadyRegistered descriptor.name), r, []⟩
  else
    ⟨.ok (), { r with
      factories := Function.update r.factories descriptor.name (some factory)
      descriptors := r.descriptors.insert descriptor
      states := Function.update r.states descriptor.name (some .pending)
      topo := none
      cached := fun _ h => nomatch h }, []⟩

/-- The factory is gone even when there is no descriptor; the instance stays.
Source: `registry.rs:470–503`. -/
def unregister (name : String) : Operated σ ComponentDescriptor :=
  match r.descriptors.get name with
  | none =>
      ⟨.error (.notFound name), { r with
        factories := Function.update r.factories name none }, []⟩
  | some descriptor =>
      ⟨.ok descriptor, { r with
        factories := Function.update r.factories name none
        descriptors := r.descriptors.remove name
        states := Function.update r.states name none
        topo := none
        cached := fun _ h => nomatch h }, []⟩

def setState (name : String) (state : ComponentState) : ComponentRegistry σ :=
  { r with states := Function.update r.states name (some state) }

/-- A cached order is returned, another one is computed and cached.
Source: `registry.rs:861–939`. -/
def recomputeTopo : Except RegistryError (List String) × ComponentRegistry σ :=
  match r.topo with
  | some order => (.ok order, r)
  | none =>
      match h : r.descriptors.order σ with
      | .error e => (.error e, r)
      | .ok order => (.ok order, { r with
          topo := some order
          cached := fun _ h' => by cases h'; exact h })

/-- The loops over the order: what they have done so far. -/
structure Sweep (σ : HashOrder) where
  registry : ComponentRegistry σ
  firstError : Option RegistryError
  calls : List LifecycleCall

/-- A component is visited: what a loop does for one name. -/
abbrev Visit (σ : HashOrder) :=
  ComponentRegistry σ → String → ComponentRegistry σ × Option LifecycleCall

def sweep (visit : Visit σ) (order : List String) : Sweep σ :=
  order.foldl (fun s name =>
    let (registry, call) := visit s.registry name
    ⟨registry, s.firstError.or (call.bind (·.failure)), s.calls ++ call.toList⟩) ⟨r, none, []⟩

/-- A loop over the order, or over its reverse. -/
def drive (visit : Visit σ) (direction : List String → List String) : Operated σ Unit :=
  match r.recomputeTopo with
  | (.error e, r) => ⟨.error e, r, []⟩
  | (.ok order, r) =>
      let s := r.sweep visit (direction order)
      ⟨match s.firstError with
        | some e => .error e
        | none => .ok (), s.registry, s.calls⟩

def isInitialized (name : String) : Bool := ComponentState.isInitialized (r.states name)

def configOf (name : String) : Value := ((r.descriptors.get name).map (·.config)).getD .null

/-- Source: `registry.rs:600–653`. -/
def initOne : Visit σ := fun r name =>
  if r.isInitialized name then (r, none)
  else match r.factories name with
    | none => (r, none)
    | some factory =>
        let r := { r with factories := Function.update r.factories name none }
        let config := r.configOf name
        let r := r.setState name .initializing
        match factory.build config with
        | .ok hooks =>
            let built := { r with
              instances := Function.update r.instances name (some ⟨r.created, hooks⟩)
              created := r.created + 1 }
            (built.setState name .initialized, some (.build name none r.states))
        | .error e => (r.setState name .failed, some (.build name (some e) r.states))

/-- Source: `registry.rs:663–693`. -/
def startOne : Visit σ := fun r name =>
  if r.states name ≠ some .initialized then (r, none)
  else
    let r := r.setState name .starting
    match r.instances name with
    | none => (r, none)
    | some component =>
        match component.hooks.start with
        | none => (r.setState name .running, some (.start name component.id none r.states))
        | some message =>
            (r.setState name .failed,
              some (.start name component.id (some (.start name message)) r.states))

/-- Source: `registry.rs:704–732`. -/
def stopOne : Visit σ := fun r name =>
  if ¬ ComponentState.isStoppable (r.states name) then (r, none)
  else
    let r := r.setState name .stopping
    match r.instances name with
    | none => (r, none)
    | some component =>
        (r.setState name .stopped,
          some (.stop name component.id (component.hooks.stop.map (.stop name))))

/-- Source: `registry.rs:594–655`. -/
def initAll : Operated σ Unit := r.drive initOne id

/-- Source: `registry.rs:660–696`. -/
def startAll : Operated σ Unit := r.drive startOne id

/-- Source: `registry.rs:701–735`. -/
def stopAll : Operated σ Unit := r.drive stopOne List.reverse

/-- Source: `registry.rs:761–821`. -/
def replaceInstance (name : String) (hooks : Hooks) : Operated σ AnyComponent :=
  let component : AnyComponent := ⟨r.created, hooks⟩
  let r := { r with created := r.created + 1 }
  let refuse (message : String) : Except RegistryError AnyComponent :=
    .error (.reload name message)
  match r.instances name with
  | none => ⟨.error (.notFound name), r, []⟩
  | some old =>
      if r.states name ≠ some .running then ⟨refuse "component is not in Running state", r, []⟩
      else match old.hooks.preReplace with
        | some e => ⟨refuse ("pre_replace hook failed: " ++ e), r, []⟩
        | none =>
            match hooks.start with
            | some e =>
                let failure := .reload name ("new instance start failed: " ++ e)
                ⟨.error failure, r, [.start name component.id (some failure) r.states]⟩
            | none =>
                let swapped := { r with
                  instances := Function.update r.instances name (some component) }
                ⟨.ok old, swapped.setState name .running,
                  [.start name component.id none r.states, .handedBack old.id]⟩

end ComponentRegistry

end Behest
