import Mathlib.Data.List.Sort
import Mathlib.Data.String.Basic
import Behest.Store.Keyed

/-!
# The registry of named agents

`behest/src/agent/mod.rs`. The first agent that can be selected is remembered by its name as the
default, and an agent may be registered again under the same name.
-/

namespace Behest

/-- Source: `agent/mod.rs:23–28`. -/
inductive AgentMode where
  | primary
  | subagent
deriving DecidableEq

/-- What the registry reads of a definition. Source: `agent/mod.rs:57–79`. -/
structure AgentDefinition where
  name : String
  mode : AgentMode
  hidden : Bool
deriving DecidableEq

namespace AgentDefinition

/-- Source: `agent/mod.rs:84–99`. -/
def ofPrimary (name : String) : AgentDefinition := ⟨name, .primary, false⟩

/-- Source: `agent/mod.rs:120–125`. -/
def hide (agent : AgentDefinition) : AgentDefinition := { agent with hidden := true }

/-- The test that `register` and `list_selectable` make. -/
def isSelectable (agent : AgentDefinition) : Bool :=
  decide (agent.mode = .primary) && !agent.hidden

end AgentDefinition

/-- Source: `agent/mod.rs:151–154`. -/
structure AgentRegistry where
  agents : Keyed AgentDefinition.name
  defaultName : Option String

namespace AgentRegistry

/-- Source: `agent/mod.rs:158–161`. -/
def new : AgentRegistry := ⟨.empty, none⟩

/-- Source: `agent/mod.rs:167–172`. -/
def register (registry : AgentRegistry) (agent : AgentDefinition) : AgentRegistry where
  agents := registry.agents.insert agent
  defaultName :=
    if registry.defaultName.isNone && agent.isSelectable then some agent.name
    else registry.defaultName

/-- Source: `agent/mod.rs:194–203`. -/
def listSelectable (registry : AgentRegistry) : List AgentDefinition :=
  (registry.agents.records.filter (·.isSelectable)).insertionSort fun a b => a.name ≤ b.name

/-- Source: `agent/mod.rs:207–211`. -/
def defaultAgent (registry : AgentRegistry) : Option AgentDefinition :=
  registry.defaultName.bind registry.agents.get

/-- The registry after some calls of `register`. -/
def registered (calls : List AgentDefinition) : AgentRegistry := calls.foldl register new

/-- The last call for a name. -/
def lastNamed (calls : List AgentDefinition) (name : String) : Option AgentDefinition :=
  (calls.filter fun agent => agent.name = name).getLast?

/-! ### What the calls leave -/

theorem registered_concat (calls : List AgentDefinition) (agent : AgentDefinition) :
    registered (calls ++ [agent]) = (registered calls).register agent :=
  List.foldl_concat ..

/-- Under each name stands the last definition. -/
theorem get_registered (calls : List AgentDefinition) (name : String) :
    (registered calls).agents.get name = lastNamed calls name := by
  have hagents : ∀ registry : AgentRegistry,
      (calls.foldl register registry).agents = calls.foldl Keyed.insert registry.agents := by
    induction calls with
    | nil => exact fun _ => rfl
    | cons agent rest ih => exact fun registry => ih (registry.register agent)
  rw [registered, hagents, new]
  have hlast : (calls.foldl (fun agents agent => agents.insert (id agent))
      (.empty : Keyed AgentDefinition.name)).get name = _ :=
    Keyed.get_foldl_insert id calls name
  simpa [lastNamed] using hlast

/-- The default is the name of the first agent that could be selected. -/
theorem defaultName_registered (calls : List AgentDefinition) :
    (registered calls).defaultName = (calls.find? (·.isSelectable)).map (·.name) := by
  induction calls using List.reverseRecOn with
  | nil => rfl
  | append_singleton calls agent ih =>
    rw [registered_concat, register, ih, List.find?_append]
    cases calls.find? (·.isSelectable) with
    | some first => simp
    | none => cases hagent : agent.isSelectable <;> simp [hagent]

theorem mem_listSelectable {registry : AgentRegistry} {agent : AgentDefinition} :
    agent ∈ registry.listSelectable ↔
      agent ∈ registry.agents.records ∧ agent.isSelectable = true := by
  rw [listSelectable, List.mem_insertionSort, List.mem_filter]

theorem mem_of_lastNamed {calls : List AgentDefinition} {name : String} {agent : AgentDefinition}
    (h : lastNamed calls name = some agent) : agent ∈ calls :=
  (List.mem_filter.mp (List.mem_of_getLast? h)).1

/-- An agent that was registered has a last definition. -/
theorem exists_lastNamed {calls : List AgentDefinition} {agent : AgentDefinition}
    (h : agent ∈ calls) : ∃ last, lastNamed calls agent.name = some last := by
  have hmem : agent ∈ calls.filter fun other => other.name = agent.name :=
    List.mem_filter.mpr ⟨h, by simp⟩
  exact Option.isSome_iff_exists.mp (List.getLast?_isSome.mpr (List.ne_nil_of_mem hmem))

/-- What is registered was registered under its name last. -/
theorem lastNamed_of_mem {calls : List AgentDefinition} {agent : AgentDefinition}
    (h : agent ∈ (registered calls).agents.records) : lastNamed calls agent.name = some agent := by
  rw [← get_registered]
  exact Keyed.get_eq_some_iff.mpr ⟨h, rfl⟩

/-! ### The default -/

/-- There is a default exactly when an agent can be selected, and it is one that can. -/
structure DefaultSelectable (registry : AgentRegistry) : Prop where
  none_iff : registry.defaultAgent = none ↔ registry.listSelectable = []
  mem : ∀ agent, registry.defaultAgent = some agent → agent ∈ registry.listSelectable

/-- Nothing could ever be selected. -/
theorem defaultSelectable_of_find?_eq_none {calls : List AgentDefinition}
    (h : calls.find? (·.isSelectable) = none) : (registered calls).DefaultSelectable := by
  have hdefault : (registered calls).defaultAgent = none := by
    rw [defaultAgent, defaultName_registered, h]
    rfl
  have hlist : (registered calls).listSelectable = [] := by
    rw [List.eq_nil_iff_forall_not_mem]
    intro agent hmem
    obtain ⟨hrecord, hselectable⟩ := mem_listSelectable.mp hmem
    exact List.find?_eq_none.mp h agent (mem_of_lastNamed (lastNamed_of_mem hrecord)) hselectable
  exact ⟨iff_of_true hdefault hlist, fun agent hagent => absurd (hdefault.symm.trans hagent) nofun⟩

/-- The default is the last definition under the name of the first that could be selected. -/
theorem defaultAgent_of_find?_eq_some {calls : List AgentDefinition} {first : AgentDefinition}
    (h : calls.find? (·.isSelectable) = some first) :
    (registered calls).defaultAgent = lastNamed calls first.name := by
  rw [defaultAgent, defaultName_registered, h, ← get_registered]
  rfl

/-- After any calls the default can be selected exactly when no call has registered an agent that
can, or the first such agent can still be selected as it was last registered. -/
theorem defaultSelectable_iff (calls : List AgentDefinition) :
    (registered calls).DefaultSelectable ↔
      ∀ first, calls.find? (·.isSelectable) = some first →
        ∃ last, lastNamed calls first.name = some last ∧ last.isSelectable = true := by
  cases hfind : calls.find? (·.isSelectable) with
  | none => exact iff_of_true (defaultSelectable_of_find?_eq_none hfind) nofun
  | some first =>
    obtain ⟨last, hlast⟩ := exists_lastNamed (List.mem_of_find?_eq_some hfind)
    have hdefault : (registered calls).defaultAgent = some last := by
      rw [defaultAgent_of_find?_eq_some hfind, hlast]
    constructor
    · rintro h _ ⟨⟩
      exact ⟨last, hlast, (mem_listSelectable.mp (h.mem last hdefault)).2⟩
    · intro h
      obtain ⟨agent, hagent, hselectable⟩ := h first rfl
      obtain rfl := Option.some.inj (hlast.symm.trans hagent)
      have hrecord : last ∈ (registered calls).agents.records :=
        (Keyed.get_mem ((get_registered calls first.name).trans hlast)).1
      have hmem := mem_listSelectable.mpr ⟨hrecord, hselectable⟩
      refine ⟨iff_of_false (by simp [hdefault]) (List.ne_nil_of_mem hmem), fun agent hagent => ?_⟩
      obtain rfl := Option.some.inj (hdefault.symm.trans hagent)
      exact hmem

/-- One agent, registered again as a hidden one. -/
def hiddenAgain : AgentRegistry :=
  registered [.ofPrimary "a", (AgentDefinition.ofPrimary "a").hide]

/-- The hidden agent remains the default. -/
theorem hiddenAgain_not_selectable :
    hiddenAgain.defaultAgent = some (AgentDefinition.ofPrimary "a").hide ∧
      ¬hiddenAgain.DefaultSelectable := by
  have hdefault : hiddenAgain.defaultAgent = some (AgentDefinition.ofPrimary "a").hide := by decide
  have hlist : hiddenAgain.listSelectable = [] := by decide
  refine ⟨hdefault, fun h => ?_⟩
  rw [h.none_iff.mpr hlist] at hdefault
  cases hdefault

end AgentRegistry

end Behest
