import Mathlib.Data.List.Induction
import Mathlib.Data.List.Sort
import Behest.Runtime.Entry
import Behest.Store.Keyed

/-!
# Hot-plugged providers

The facade through which chat providers are registered by name while a runtime is up
(`behest-runtime/src/extension.rs`), and the registry of its own that the runtime fills from
the facade when it is built (`agent.rs:72–103`). Runs look providers up in the registry of the
runtime, so what is registered later on the facade reaches them only where it is what was
there before.
-/

namespace Behest

/-- A shared value. Two of them are the same when their pointers are. -/
structure Arc (α : Type) where
  ptr : Nat
  value : α

/-- Source: `extension.rs:43–68`. -/
inductive ExtensionError where
  | alreadyRegistered (name : String)
  | notFound (name : String)
  | inUse (name : String) (strongCount : Nat)
deriving DecidableEq

/-- Shared values under names. Source: `extension.rs:76–82`. -/
structure ExtensionPoint (α : Type) where
  entries : Keyed (Prod.fst : String × Arc α → String)

namespace ExtensionPoint

variable {α : Type} (e : ExtensionPoint α)

def new : ExtensionPoint α := ⟨.empty⟩

/-- Source: `extension.rs:228–230`. -/
def get (name : String) : Option (Arc α) := (e.entries.get name).map (·.2)

/-- The entries sorted by their names. Source: `extension.rs:135–144`. -/
def snapshot : List (String × Arc α) := e.entries.records.insertionSort fun a b => a.1 ≤ b.1

/-- Source: `extension.rs:172–180`. -/
def register (name : String) (value : Arc α) : Except ExtensionError Unit × ExtensionPoint α :=
  if (e.get name).isSome then (.error (.alreadyRegistered name), e)
  else (.ok (), ⟨e.entries.insert (name, value)⟩)

/-- Source: `extension.rs:184–187`. -/
def registerOrReplace (name : String) (value : Arc α) : Option (Arc α) × ExtensionPoint α :=
  (e.get name, ⟨e.entries.insert (name, value)⟩)

/-- An entry that is referred to from elsewhere is not removed. Source: `extension.rs:194–206`. -/
def unregister (name : String) (strongCount : Arc α → Nat) :
    Except ExtensionError (Option (Arc α)) × ExtensionPoint α :=
  match e.get name with
  | some existing =>
      if 1 < strongCount existing then (.error (.inUse name (strongCount existing)), e)
      else (.ok (some existing), ⟨e.entries.remove name⟩)
  | none => (.ok none, ⟨e.entries.remove name⟩)

/-- Source: `extension.rs:217–224`. -/
def replace (name : String) (value : Arc α) : Except ExtensionError (Arc α) × ExtensionPoint α :=
  match e.get name with
  | some previous => (.ok previous, ⟨(e.entries.remove name).insert (name, value)⟩)
  | none => (.error (.notFound name), e)

end ExtensionPoint

/-- Shared providers under their identifiers. Source: `behest-provider/src/registry.rs:13–17`. -/
abbrev SharedProviders := Keyed (fun provider : Arc ChatProvider => provider.value.id)

/-- The registry of a new runtime. Source: `agent.rs:73–77`. -/
def SharedProviders.ofFacade (e : ExtensionPoint ChatProvider) : SharedProviders :=
  e.snapshot.foldl (fun providers entry => providers.insert entry.2) .empty

/-- A runtime that is up: the facade, and the registry that the runtime and its compaction
service have copies of. -/
structure HotPlug where
  extensions : ExtensionPoint ChatProvider
  providers : SharedProviders

/-- What happens while a runtime is up. An `unregister` finds the provider in use by a number of
callers; a run asks for a provider. -/
inductive HotPlugEvent where
  | register (name : String) (provider : Arc ChatProvider)
  | registerOrReplace (name : String) (provider : Arc ChatProvider)
  | replace (name : String) (provider : Arc ChatProvider)
  | unregister (name : String) (callers : Nat)
  | run (provider : String)

namespace HotPlug

/-- Source: `agent.rs:72–103`. -/
def new (e : ExtensionPoint ChatProvider) : HotPlug := ⟨e, .ofFacade e⟩

variable (s : HotPlug)

/-- The references to a provider: from the facade, from the two registries of the runtime, and
from callers. -/
def strongCount (callers : Nat) (provider : Arc ChatProvider) : Nat :=
  s.extensions.entries.records.countP (·.2.ptr = provider.ptr) +
    2 * s.providers.records.countP (·.ptr = provider.ptr) + callers

def step : HotPlugEvent → HotPlug
  | .register name provider => { s with extensions := (s.extensions.register name provider).2 }
  | .registerOrReplace name provider =>
      { s with extensions := (s.extensions.registerOrReplace name provider).2 }
  | .replace name provider => { s with extensions := (s.extensions.replace name provider).2 }
  | .unregister name callers =>
      { s with extensions := (s.extensions.unregister name (s.strongCount callers)).2 }
  | .run _ => s

/-- The state after some events. -/
def after (e : ExtensionPoint ChatProvider) (events : List HotPlugEvent) : HotPlug :=
  events.foldl step (new e)

/-- The runtime, without the pointers of its providers. -/
def runtime (tools : ToolRegistry) (policy : RuntimePolicy) (hasSnapshotStore : Bool) :
    AgentRuntime :=
  .new ⟨s.providers.records.map (·.value)⟩ tools policy hasSnapshotStore

/-- The provider that a run uses. Source: `agent.rs:318–321`. -/
def chosen (id : String) : Except RuntimeError (Arc ChatProvider) :=
  match s.providers.get id with
  | some provider => .ok provider
  | none => .error (.providerNotFound id)

/-- The provider that is registered on the facade, or the error that there is none. -/
def registered (id : String) : Except RuntimeError (Arc ChatProvider) :=
  match s.extensions.get id with
  | some provider => .ok provider
  | none => .error (.providerNotFound id)

/-- A run of the runtime goes on with the provider that is chosen, or fails. -/
theorem chatProvider_runtime (host : Host) (tools : ToolRegistry) (policy : RuntimePolicy)
    (hasSnapshotStore : Bool) (id : String) :
    AgentRuntime.chatProvider host (s.runtime tools policy hasSnapshotStore) id = (do
      host.perform (.providerLookup id (s.providers.get id).isSome)
      match s.chosen id with
      | .ok provider => return provider.value
      | .error e => fail e) := by
  have hchat : (s.runtime tools policy hasSnapshotStore).providers.chat id =
      (s.providers.get id).map (·.value) := by
    simp only [runtime, AgentRuntime.new, ProviderRegistry.chat, List.find?_map]
    rfl
  unfold AgentRuntime.chatProvider chosen
  rw [hchat]
  cases s.providers.get id <;> rfl

end HotPlug

/-- The last entry, by name, whose provider has an identifier. -/
def ExtensionPoint.lastWithId (e : ExtensionPoint ChatProvider) (id : String) :
    Option (Arc ChatProvider) :=
  ((e.snapshot.filter fun entry => entry.2.value.id = id).getLast?).map (·.2)

namespace HotPlug

/-- Nothing that happens on the facade reaches the registry of the runtime. -/
theorem providers_after (e : ExtensionPoint ChatProvider) (events : List HotPlugEvent) :
    (after e events).providers = .ofFacade e := by
  induction events using List.reverseRecOn with
  | nil => rfl
  | append_singleton init event ih =>
    unfold after at ih ⊢
    rw [List.foldl_append, List.foldl_cons, List.foldl_nil, ← ih]
    cases event <;> rfl

/-- A run uses the provider that is registered, and fails when none is, exactly when what is
registered under its identifier now is the last provider, by name, that had this identifier
when the runtime was built. -/
theorem chosen_eq_registered_iff (e : ExtensionPoint ChatProvider) (events : List HotPlugEvent)
    (id : String) : (after e events).chosen id = (after e events).registered id ↔
      (after e events).extensions.get id = e.lastWithId id := by
  have hchosen : (after e events).providers.get id = e.lastWithId id := by
    rw [providers_after]
    exact Keyed.get_foldl_insert Prod.snd _ _
  unfold chosen registered
  rw [hchosen]
  cases e.lastWithId id <;> cases (after e events).extensions.get id <;> simp [eq_comm]

/-- A provider that answers with an error. -/
def silent (id : String) (ptr : Nat) : Arc ChatProvider :=
  ⟨ptr, ⟨id, ⟨false, none, none⟩, fun _ _ => .error (.transport id "silent"),
    fun _ _ => .error (.transport id "silent")⟩⟩

/-- A provider that is registered when the runtime is up is not found by a run; and one that
was replaced is still used. -/
theorem registered_notChosen :
    (∃ provider, (after .new [.register "openai" (silent "openai" 0)]).registered "openai" =
        .ok provider ∧
      (after .new [.register "openai" (silent "openai" 0)]).chosen "openai" =
        .error (.providerNotFound "openai")) ∧
    ∃ old new, (after (ExtensionPoint.new.register "openai" (silent "openai" 0)).2
        [.replace "openai" (silent "openai" 1)]).registered "openai" = .ok new ∧
      (after (ExtensionPoint.new.register "openai" (silent "openai" 0)).2
        [.replace "openai" (silent "openai" 1)]).chosen "openai" = .ok old ∧ old.ptr ≠ new.ptr :=
  ⟨⟨_, rfl, rfl⟩, ⟨silent "openai" 0, silent "openai" 1, rfl, rfl, by decide⟩⟩

end HotPlug

end Behest
