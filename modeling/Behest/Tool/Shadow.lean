import Mathlib.Data.List.Sort
import Mathlib.Data.String.Basic
import Behest.Component.Topology
import Behest.Tool.Scope

/-!
# Shadowed tools

What is visible of a stack of scopes over a base (`behest-runtime/src/tool_scope.rs`): the tool of
a name, and the list of specs that is sent to the model. Scopes are popped from the top only, but
tools may be registered in any scope, and with an explicit name even under one that is not their
own.
-/

namespace Behest

/-- Source: `behest-tool/src/lib.rs:448–450`. -/
def ToolRegistry.registerArc (registry : ToolRegistry) (tool : Tool) : Option Tool × ToolRegistry :=
  (registry.get tool.spec.name,
    ⟨registry.tools.filter (fun t => t.spec.name != tool.spec.name) ++ [tool]⟩)

theorem ToolRegistry.name_of_get {registry : ToolRegistry} {name : String} {tool : Tool}
    (h : registry.get name = some tool) : tool.spec.name = name := by
  simpa using List.find?_some h

namespace ScopedToolRegistry

/-- The tool entered under a name in the layer of a scope. -/
def enterAs (scope : Nat) (name : String) (tool : Tool) (layer : Nat × ScopeLayer) :
    Nat × ScopeLayer :=
  if layer.1 = scope then (layer.1, layer.2.insert name tool) else layer

@[simp] theorem enterAs_fst (scope : Nat) (name : String) (tool : Tool)
    (layer : Nat × ScopeLayer) : (enterAs scope name tool layer).1 = layer.1 := by
  unfold enterAs
  split <;> rfl

theorem map_enterAs_fst (scope : Nat) (name : String) (tool : Tool)
    (layers : List (Nat × ScopeLayer)) :
    (layers.map (enterAs scope name tool)).map Prod.fst = layers.map Prod.fst := by
  rw [List.map_map]
  exact List.map_congr_left fun layer _ => enterAs_fst scope name tool layer

/-- Source: `tool_scope.rs:203–216`. -/
def registerArcInScope (r : ScopedToolRegistry) (scope : Nat) (name : String) (tool : Tool) :
    Except (String × Tool) (Option Tool) × ScopedToolRegistry :=
  match r.layers.find? fun layer => layer.1 == scope with
  | none => (.error (name, tool), r)
  | some layer =>
      (.ok (layer.2.lookup name),
        { r with
          layers := r.layers.map (enterAs scope name tool)
          nodup := (map_enterAs_fst scope name tool r.layers).symm ▸ r.nodup
          fresh := (map_enterAs_fst scope name tool r.layers).symm ▸ r.fresh })

/-- The base tools as the merge starts with them. Source: `tool_scope.rs:242–246`. -/
def baseLayer (base : ToolRegistry) : ScopeLayer :=
  base.specs.foldl (fun merged spec => match base.get spec.name with
    | some tool => merged.insert spec.name tool
    | none => merged) ∅

/-- A scope laid over what is merged already. -/
def overlay (σ : HashOrder) (merged layer : ScopeLayer) : ScopeLayer :=
  (σ.arrange layer.entries).foldl (fun merged entry => merged.insert entry.1 entry.2) merged

/-- The base and over it the scopes, from the bottom. Source: `tool_scope.rs:240–254`. -/
def merged (σ : HashOrder) (r : ScopedToolRegistry) : ScopeLayer :=
  r.layers.foldl (fun merged layer => overlay σ merged layer.2) (baseLayer r.base)

/-- The specs of the merged tools, by the names they carry. Source: `tool_scope.rs:238–263`. -/
def specs (σ : HashOrder) (r : ScopedToolRegistry) : List ToolSpec :=
  ((σ.arrange (merged σ r).entries).map fun entry => entry.2.spec).insertionSort
    fun a b => a.name ≤ b.name

/-- The scopes on the stack, bottom first. -/
def ids (r : ScopedToolRegistry) : List Nat := r.layers.map Prod.fst

/-- What a scope holds under a name. -/
def held (r : ScopedToolRegistry) (id : Nat) (name : String) : Option Tool :=
  (r.layers.find? fun layer => layer.1 == id).bind fun layer => layer.2.lookup name

section Views

variable (r : ScopedToolRegistry) (name : String)

theorem held_of_mem {layer : Nat × ScopeLayer} (h : layer ∈ r.layers) :
    r.held layer.1 name = layer.2.lookup name := by
  cases hfound : r.layers.find? fun other => other.1 == layer.1 with
  | none => simpa using List.find?_eq_none.mp hfound layer h
  | some found =>
    have hid : found.1 = layer.1 := by simpa using List.find?_some hfound
    have heq : found = layer :=
      List.inj_on_of_nodup_map r.nodup (List.mem_of_find?_eq_some hfound) h hid
    rw [held, hfound, heq]
    rfl

theorem held_of_notMem {id : Nat} (h : id ∉ r.ids) : r.held id name = none := by
  have hfound : (r.layers.find? fun layer => layer.1 == id) = none := by
    rw [List.find?_eq_none]
    rintro layer hlayer hid
    exact h (List.mem_map.mpr ⟨layer, hlayer, by simpa using hid⟩)
  rw [held, hfound]
  rfl

theorem findSome?_congr {α β : Type} {f g : α → Option β} {l : List α} (h : ∀ a ∈ l, f a = g a) :
    l.findSome? f = l.findSome? g := by
  induction l with
  | nil => rfl
  | cons a rest ih =>
    rw [List.findSome?_cons, List.findSome?_cons, h a List.mem_cons_self,
      ih fun b hb => h b (List.mem_cons_of_mem _ hb)]

/-- The top scope that holds the name decides, else the base. -/
theorem get_eq_held :
    r.get name = (r.ids.reverse.findSome? fun id => r.held id name).or (r.base.get name) := by
  rw [get, ids, ← List.map_reverse, List.findSome?_map]
  refine congrArg (Option.or · _) (findSome?_congr fun layer hlayer => ?_)
  exact (r.held_of_mem name (List.mem_reverse.mp hlayer)).symm

/-! ### The merged tools -/

theorem lookup_baseLayer (base : ToolRegistry) : (baseLayer base).lookup name = base.get name := by
  have hfold : ∀ (specs : List ToolSpec) (merged : ScopeLayer),
      (specs.foldl (fun merged spec => match base.get spec.name with
        | some tool => merged.insert spec.name tool
        | none => merged) merged).lookup name =
        if name ∈ specs.map (·.name) then (base.get name).or (merged.lookup name)
        else merged.lookup name := by
    intro specs
    induction specs with
    | nil => simp
    | cons spec rest ih =>
      intro merged
      rw [List.foldl_cons, ih]
      by_cases hname : spec.name = name
      · subst hname
        cases hget : base.get spec.name <;> simp
      · cases hget : base.get spec.name <;>
          simp [AList.lookup_insert_ne (Ne.symm hname), Ne.symm hname]
  rw [baseLayer, hfold, AList.lookup_empty, Option.or_none, ite_eq_left_iff]
  intro hnot
  refine (List.find?_eq_none.mpr fun tool htool heq => hnot ?_).symm
  exact List.mem_map.mpr ⟨tool.spec, List.mem_map_of_mem htool, by simpa using heq⟩

theorem lookup_overlay (σ : HashOrder) (merged layer : ScopeLayer) :
    (overlay σ merged layer).lookup name = (layer.lookup name).or (merged.lookup name) := by
  have hfold : ∀ (entries : List (Sigma fun _ : String => Tool)) (merged : ScopeLayer),
      entries.NodupKeys →
        (entries.foldl (fun merged entry => merged.insert entry.1 entry.2) merged).lookup name =
          (entries.dlookup name).or (merged.lookup name) := by
    intro entries
    induction entries with
    | nil => simp
    | cons entry rest ih =>
      intro merged hnodup
      obtain ⟨hentry, hrest⟩ := List.nodupKeys_cons.mp hnodup
      rw [List.foldl_cons, ih _ hrest]
      by_cases hname : entry.1 = name
      · subst hname
        rw [AList.lookup_insert, List.dlookup_eq_none.mpr hentry, List.dlookup_cons_eq]
        rfl
      · rw [AList.lookup_insert_ne (Ne.symm hname), List.dlookup_cons_ne _ _ (Ne.symm hname)]
  have hperm := σ.perm layer.entries
  have hnodup := (List.perm_nodupKeys hperm).mpr layer.nodupKeys
  rw [overlay, hfold _ _ hnodup, List.perm_dlookup name hnodup hperm]
  rfl

/-- The merged map holds the tools that are looked up. -/
theorem lookup_merged (σ : HashOrder) : (merged σ r).lookup name = r.get name := by
  have hfold : ∀ (layers : List (Nat × ScopeLayer)) (merged : ScopeLayer),
      (layers.foldl (fun merged layer => overlay σ merged layer.2) merged).lookup name =
        (layers.reverse.findSome? fun layer => layer.2.lookup name).or (merged.lookup name) := by
    intro layers
    induction layers with
    | nil => simp
    | cons layer rest ih =>
      intro merged
      rw [List.foldl_cons, ih, lookup_overlay, List.reverse_cons, List.findSome?_append,
        Option.or_assoc]
      simp
  rw [merged, hfold, lookup_baseLayer, get]

theorem mem_specs {σ : HashOrder} {r : ScopedToolRegistry} {spec : ToolSpec} :
    spec ∈ r.specs σ ↔ ∃ name tool, r.get name = some tool ∧ tool.spec = spec := by
  rw [specs, List.mem_insertionSort, List.mem_map]
  constructor
  · rintro ⟨⟨name, tool⟩, hentry, rfl⟩
    have hlookup := AList.mem_lookup_iff.mpr ((σ.perm _).mem_iff.mp hentry)
    exact ⟨name, tool, (lookup_merged r name σ) ▸ hlookup, rfl⟩
  · rintro ⟨name, tool, hget, rfl⟩
    rw [← lookup_merged r name σ] at hget
    exact ⟨⟨name, tool⟩, (σ.perm _).mem_iff.mpr (AList.mem_lookup_iff.mp hget), rfl⟩

/-- The specs depend on what is looked up, and the maps' order may only change the order of specs
with one name. -/
theorem specs_perm (σ τ : HashOrder) {r r' : ScopedToolRegistry}
    (h : ∀ name, r.get name = r'.get name) : (r.specs σ).Perm (r'.specs τ) := by
  have hentries : (merged σ r).entries.Perm (merged τ r').entries := by
    refine List.lookup_ext (merged σ r).nodupKeys (merged τ r').nodupKeys fun name tool => ?_
    have hsame := (lookup_merged r name σ).trans ((h name).trans (lookup_merged r' name τ).symm)
    exact iff_of_eq (congrArg (tool ∈ ·) hsame)
  refine (List.perm_insertionSort _ _).trans (.trans ?_ (List.perm_insertionSort _ _).symm)
  exact (((σ.perm _).trans hentries).trans (τ.perm _).symm).map _

theorem specs_sorted (σ : HashOrder) : (r.specs σ).Pairwise fun a b => a.name ≤ b.name := by
  have : Std.Total fun a b : ToolSpec => a.name ≤ b.name := ⟨fun a b => le_total a.name b.name⟩
  have : IsTrans ToolSpec fun a b => a.name ≤ b.name := ⟨fun _ _ _ => le_trans⟩
  exact List.pairwise_insertionSort _ _

end Views

/-! ### What is advertised -/

/-- The visible tools are registered under their own names. -/
def OwnNames (r : ScopedToolRegistry) : Prop :=
  ∀ below id layer above, r.layers = below ++ (id, layer) :: above →
    ∀ name tool, layer.lookup name = some tool → (∀ upper ∈ above, name ∉ upper.2) →
      tool.spec.name = name

/-- The specs are those of the tools that can be called, one for each name and sorted. -/
structure Advertises (r : ScopedToolRegistry) : Prop where
  sorted : ∀ σ, ((r.specs σ).map (·.name)).Pairwise (· < ·)
  name_mem : ∀ σ name, name ∈ (r.specs σ).map (·.name) ↔ (r.get name).isSome
  get_name : ∀ σ, ∀ spec ∈ r.specs σ, ∃ tool, r.get spec.name = some tool ∧ tool.spec = spec

variable {r : ScopedToolRegistry}

/-- A tool is visible when no scope above its own holds the name. -/
theorem get_eq_some_iff {name : String} {tool : Tool} : r.get name = some tool ↔
    (∃ below id layer above, r.layers = below ++ (id, layer) :: above ∧
      layer.lookup name = some tool ∧ ∀ upper ∈ above, name ∉ upper.2) ∨
    ((∀ layer ∈ r.layers, name ∉ layer.2) ∧ r.base.get name = some tool) := by
  rw [get, Option.or_eq_some_iff, List.findSome?_eq_some_iff, List.findSome?_eq_none_iff]
  simp only [AList.lookup_eq_none, List.mem_reverse]
  refine or_congr_left ⟨?_, ?_⟩
  · rintro ⟨above, ⟨id, layer⟩, below, hsplit, hlookup, habove⟩
    refine ⟨below.reverse, id, layer, above.reverse, ?_, hlookup, fun upper hupper =>
      habove upper (List.mem_reverse.mp hupper)⟩
    rw [← List.reverse_reverse r.layers, hsplit]
    simp
  · rintro ⟨below, id, layer, above, hsplit, hlookup, habove⟩
    refine ⟨above.reverse, (id, layer), below.reverse, ?_, hlookup, fun upper hupper =>
      habove upper (List.mem_reverse.mp hupper)⟩
    rw [hsplit]
    simp

theorem ownNames_iff :
    r.OwnNames ↔ ∀ name tool, r.get name = some tool → tool.spec.name = name := by
  constructor
  · intro h name tool hget
    rcases get_eq_some_iff.mp hget with ⟨below, id, layer, above, hsplit, hlookup, habove⟩ |
      ⟨-, hbase⟩
    · exact h below id layer above hsplit name tool hlookup habove
    · exact ToolRegistry.name_of_get hbase
  · intro h below id layer above hsplit name tool hlookup habove
    exact h name tool
      (get_eq_some_iff.mpr (.inl ⟨below, id, layer, above, hsplit, hlookup, habove⟩))

theorem OwnNames.nodup_specs (h : r.OwnNames) (σ : HashOrder) :
    ((r.specs σ).map (·.name)).Nodup := by
  have hown := ownNames_iff.mp h
  have hkeys : ((merged σ r).entries.map fun entry => entry.2.spec.name) = (merged σ r).keys := by
    refine List.map_congr_left fun entry hentry => ?_
    have hlookup := AList.mem_lookup_iff.mpr hentry
    exact hown entry.1 entry.2 (lookup_merged r entry.1 σ ▸ hlookup)
  have hperm : (r.specs σ).Perm ((merged σ r).entries.map fun entry => entry.2.spec) :=
    (List.perm_insertionSort _ _).trans ((σ.perm _).map _)
  rw [(hperm.map _).nodup_iff, List.map_map]
  exact hkeys ▸ (merged σ r).keys_nodup

/-- **What is advertised can be called exactly when the visible tools have their own names.** -/
theorem advertises_iff_ownNames : r.Advertises ↔ r.OwnNames := by
  rw [ownNames_iff]
  constructor
  · intro h name tool hget
    obtain ⟨spec, hspec, rfl⟩ := List.mem_map.mp ((h.name_mem .inserted name).mpr (by simp [hget]))
    obtain ⟨tool', hget', heq⟩ := h.get_name _ spec hspec
    rw [Option.some.inj (hget.symm.trans hget'), heq]
  · intro h
    refine ⟨fun σ => ?_, fun σ name => ?_, fun σ spec hspec => ?_⟩
    · have hsorted := List.pairwise_map.mpr (r.specs_sorted σ)
      have hnodup := (ownNames_iff.mpr h).nodup_specs σ
      exact (hsorted.and hnodup).imp fun hab => lt_of_le_of_ne hab.1 hab.2
    · rw [List.mem_map, Option.isSome_iff_exists]
      constructor
      · rintro ⟨spec, hspec, rfl⟩
        obtain ⟨name, tool, hget, rfl⟩ := mem_specs.mp hspec
        exact ⟨tool, (h name tool hget).symm ▸ hget⟩
      · rintro ⟨tool, hget⟩
        exact ⟨tool.spec, mem_specs.mpr ⟨name, tool, hget, rfl⟩, h name tool hget⟩
    · obtain ⟨name, tool, hget, rfl⟩ := mem_specs.mp hspec
      exact ⟨tool, (h name tool hget).symm ▸ hget, rfl⟩

end ScopedToolRegistry

/-! ### Runs of operations -/

/-- An operation on the scopes. -/
inductive ScopeOp where
  | push
  | register (scope : Nat) (tool : Tool)
  | registerArc (scope : Nat) (name : String) (tool : Tool)
  | pop (id : Nat)

/-- The scope, the name and the tool that an operation registers. -/
def ScopeOp.entry? : ScopeOp → Option (Nat × String × Tool)
  | register scope tool => some (scope, tool.spec.name, tool)
  | registerArc scope name tool => some (scope, name, tool)
  | _ => none

/-- An operation on the registry. -/
inductive ToolChange where
  | inScopes (op : ScopeOp)
  | inBase (tool : Tool)

namespace ScopedToolRegistry

variable (r : ScopedToolRegistry)

def apply : ScopeOp → ScopedToolRegistry
  | .push => r.pushScope.2
  | .register scope tool => (r.registerInScope scope tool).2
  | .registerArc scope name tool => (r.registerArcInScope scope name tool).2
  | .pop id => (r.popScope id).2

def change : ToolChange → ScopedToolRegistry
  | .inScopes op => r.apply op
  | .inBase tool => { r with base := (r.base.registerArc tool).2 }

/-- The operation puts a tool under another name than its own. -/
def Aliases : ToolChange → Prop
  | .inScopes (.registerArc scope name tool) => scope ∈ r.ids ∧ tool.spec.name ≠ name
  | _ => False

/-- A registry without tools, and what is done to it. -/
def built (changes : List ToolChange) : ScopedToolRegistry := changes.foldl change (new ⟨[]⟩)

theorem map_enterAs_of_notMem {scope : Nat} {name : String} {tool : Tool}
    {layers : List (Nat × ScopeLayer)} (h : scope ∉ layers.map Prod.fst) :
    layers.map (enterAs scope name tool) = layers := by
  refine (List.map_congr_left fun layer hlayer => if_neg ?_).trans (List.map_id _)
  rintro rfl
  exact h (List.mem_map_of_mem hlayer)

/-- A registration changes the layer of its scope, if that is there. -/
@[simp] theorem layers_registerArcInScope (scope : Nat) (name : String) (tool : Tool) :
    (r.registerArcInScope scope name tool).2.layers = r.layers.map (enterAs scope name tool) := by
  unfold registerArcInScope
  split
  · next hnone =>
    refine (map_enterAs_of_notMem fun hmem => ?_).symm
    obtain ⟨layer, hlayer, rfl⟩ := List.mem_map.mp hmem
    simpa using List.find?_eq_none.mp hnone layer hlayer
  · rfl

@[simp] theorem base_registerArcInScope (scope : Nat) (name : String) (tool : Tool) :
    (r.registerArcInScope scope name tool).2.base = r.base := by
  unfold registerArcInScope
  split <;> rfl

@[simp] theorem nextId_registerArcInScope (scope : Nat) (name : String) (tool : Tool) :
    (r.registerArcInScope scope name tool).2.nextId = r.nextId := by
  unfold registerArcInScope
  split <;> rfl

/-- A tool is registered under its own name. -/
theorem registerInScope_snd (scope : Nat) (tool : Tool) :
    (r.registerInScope scope tool).2 = (r.registerArcInScope scope tool.spec.name tool).2 := by
  unfold registerInScope registerArcInScope
  cases r.layers.find? fun layer => layer.1 == scope <;> rfl

theorem layers_popScope (id : Nat) : (r.popScope id).2.layers =
    if r.ids.getLast? = some id then r.layers.dropLast else r.layers := by
  rw [popScope, ids, List.getLast?_map]
  split <;> rfl

/-- All tools of the scopes have their own names, visible or not. -/
def AllOwn (r : ScopedToolRegistry) : Prop :=
  ∀ layer ∈ r.layers, ∀ name tool, layer.2.lookup name = some tool → tool.spec.name = name

variable {r}

theorem AllOwn.ownNames (h : r.AllOwn) : r.OwnNames :=
  fun _ id layer _ hsplit name tool hlookup _ => h (id, layer) (by simp [hsplit]) name tool hlookup

theorem AllOwn.registerArcInScope (h : r.AllOwn) {scope : Nat} {name : String} {tool : Tool}
    (hown : scope ∈ r.ids → tool.spec.name = name) :
    (r.registerArcInScope scope name tool).2.AllOwn := by
  intro layer hlayer
  rw [layers_registerArcInScope] at hlayer
  obtain ⟨old, hold, rfl⟩ := List.mem_map.mp hlayer
  unfold enterAs
  split
  · next hscope =>
    intro other found hlookup
    by_cases hother : other = name
    · subst hother
      rw [AList.lookup_insert] at hlookup
      cases hlookup
      exact hown (hscope ▸ List.mem_map_of_mem hold)
    · rw [AList.lookup_insert_ne hother] at hlookup
      exact h old hold other found hlookup
  · exact h old hold

theorem AllOwn.change (h : r.AllOwn) {c : ToolChange} (hc : ¬ r.Aliases c) :
    (r.change c).AllOwn := by
  cases c with
  | inBase tool => exact h
  | inScopes op =>
    cases op with
    | push =>
      intro layer hlayer name tool hlookup
      rcases List.mem_append.mp hlayer with hold | hnew
      · exact h layer hold name tool hlookup
      · rw [List.mem_singleton.mp hnew, AList.lookup_empty] at hlookup
        cases hlookup
    | register scope tool =>
      show (r.registerInScope scope tool).2.AllOwn
      rw [registerInScope_snd]
      exact h.registerArcInScope fun _ => rfl
    | registerArc scope name tool =>
      exact h.registerArcInScope fun hscope => not_not.mp fun hne => hc ⟨hscope, hne⟩
    | pop id =>
      intro layer hlayer
      rw [ScopedToolRegistry.change, apply, layers_popScope] at hlayer
      split at hlayer
      · exact h layer (List.dropLast_subset _ hlayer)
      · exact h layer hlayer

theorem allOwn_built {changes : List ToolChange}
    (h : ∀ done c, done ++ [c] <+: changes → ¬ (built done).Aliases c) :
      (built changes).AllOwn := by
  induction changes using List.reverseRecOn with
  | nil => exact nofun
  | append_singleton init c ih =>
    have hlast := h init c (List.prefix_refl _)
    rw [built, List.foldl_append]
    exact (ih fun done c' hinitial => h done c' (hinitial.trans (List.prefix_append ..))).change
      hlast

/-- **What is advertised can be called** in every state that is reached without putting a tool
under another name than its own, and otherwise exactly in the states where no such tool is
visible. -/
theorem advertises_built (changes : List ToolChange) :
    ((∀ done c, done ++ [c] <+: changes → ¬ (built done).Aliases c) →
      ∀ done, done <+: changes → (built done).Advertises) ∧
    ((built changes).Advertises ↔ (built changes).OwnNames) := by
  refine ⟨fun h done hdone => ?_, advertises_iff_ownNames⟩
  exact advertises_iff_ownNames.mpr
    (allOwn_built fun init c hinit => h init c (hinit.trans hdone)).ownNames

/-- A search tool. -/
def searchTool : Tool := ⟨⟨"search", "", .null, none⟩, true, fun _ arguments => .finished arguments⟩

/-- A tool that is also registered under an alias is advertised twice under its own name. -/
theorem alias_advertisedTwice :
    ¬ (built [.inBase searchTool, .inScopes .push,
      .inScopes (.registerArc 0 "find" searchTool)]).Advertises := by
  intro h
  have hsorted := h.sorted .inserted
  revert hsorted
  decide

end ScopedToolRegistry

end Behest
