import Mathlib.Data.List.AList
import Behest.Tool.Runtime

/-!
# Tool scopes

`behest-runtime/src/tool_scope.rs`: a stack of scopes over the base registry, and the scopes
that concurrent runs push on one stack and drop when they end. A dropped scope leaves the
stack only from its top, so the stack is that of the active runs as long as runs end in the
reverse order of their starts.
-/

namespace Behest

/-- The tools registered in a scope, by name. Source: `tool_scope.rs:78–80`. -/
abbrev ScopeLayer := AList fun _ : String => Tool

/-- A stack of scopes, bottom first; identifiers are given out once.
Source: `tool_scope.rs:83–86, 108–111`. -/
structure ScopedToolRegistry where
  base : ToolRegistry
  layers : List (Nat × ScopeLayer)
  nextId : Nat
  nodup : (layers.map Prod.fst).Nodup
  fresh : ∀ id ∈ layers.map Prod.fst, id < nextId

namespace ScopedToolRegistry

/-- Source: `tool_scope.rs:128–136`. -/
def new (base : ToolRegistry) : ScopedToolRegistry := ⟨base, [], 0, .nil, nofun⟩

/-- Source: `tool_scope.rs:139–151`. -/
def pushScope (r : ScopedToolRegistry) : Nat × ScopedToolRegistry :=
  (r.nextId,
    { base := r.base
      layers := r.layers ++ [(r.nextId, ∅)]
      nextId := r.nextId + 1
      nodup := by
        rw [List.map_append, List.map_singleton, List.nodup_append]
        refine ⟨r.nodup, List.nodup_singleton _, ?_⟩
        intro id hid other hother
        rw [List.mem_singleton.mp hother]
        exact Nat.ne_of_lt (r.fresh id hid)
      fresh := by
        intro id hid
        rw [List.map_append, List.mem_append] at hid
        rcases hid with hid | hid
        · exact Nat.lt_succ_of_lt (r.fresh id hid)
        · simp at hid
          omega })

/-- Only the top scope is popped. Source: `tool_scope.rs:158–167`. -/
def popScope (r : ScopedToolRegistry) (id : Nat) : Bool × ScopedToolRegistry :=
  if r.layers.getLast?.map Prod.fst = some id then
    (true,
      { r with
        layers := r.layers.dropLast
        nodup := r.nodup.sublist ((List.dropLast_sublist _).map _)
        fresh := fun id hid => r.fresh id (((List.dropLast_sublist _).map _).subset hid) })
  else (false, r)

/-- The tool entered in the layer of a scope. -/
def enter (scope : Nat) (tool : Tool) (layer : Nat × ScopeLayer) : Nat × ScopeLayer :=
  if layer.1 = scope then (layer.1, layer.2.insert tool.spec.name tool) else layer

@[simp] theorem enter_fst (scope : Nat) (tool : Tool) (layer : Nat × ScopeLayer) :
    (enter scope tool layer).1 = layer.1 := by
  unfold enter
  split <;> rfl

theorem map_enter_fst (scope : Nat) (tool : Tool) (layers : List (Nat × ScopeLayer)) :
    (layers.map (enter scope tool)).map Prod.fst = layers.map Prod.fst := by
  rw [List.map_map]
  exact List.map_congr_left fun layer _ => enter_fst scope tool layer

/-- The tool is handed back when the scope does not exist. Source: `tool_scope.rs:178–192`. -/
def registerInScope (r : ScopedToolRegistry) (scope : Nat) (tool : Tool) :
    Except Tool (Option Tool) × ScopedToolRegistry :=
  match r.layers.find? fun layer => layer.1 == scope with
  | none => (.error tool, r)
  | some layer =>
      (.ok (layer.2.lookup tool.spec.name),
        { r with
          layers := r.layers.map (enter scope tool)
          nodup := (map_enter_fst scope tool r.layers).symm ▸ r.nodup
          fresh := (map_enter_fst scope tool r.layers).symm ▸ r.fresh })

/-- The tool of a name, from the top scope to the base. Source: `tool_scope.rs:220–230`. -/
def get (r : ScopedToolRegistry) (name : String) : Option Tool :=
  (r.layers.reverse.findSome? fun layer => layer.2.lookup name).or (r.base.get name)

end ScopedToolRegistry

/-- The scope of an active run, with the tools the run has registered. -/
structure RunScope where
  run : Uuid
  id : Nat
  tools : ScopeLayer

/-- A tool that a run has registered, entered among the tools of that run. -/
def RunScope.register (run : Uuid) (tool : Tool) (scope : RunScope) : RunScope :=
  if scope.run = run then { scope with tools := scope.tools.insert tool.spec.name tool } else scope

theorem RunScope.register_run (run : Uuid) (tool : Tool) (scope : RunScope) :
    (scope.register run tool).run = scope.run := by
  unfold RunScope.register
  split <;> rfl

/-- What a run does to the scopes: it pushes a guarded scope, registers a tool in it, and
drops the guard. Source: `agent.rs:284–286`, `tool_scope.rs:327–333, 372–376`. -/
inductive ScopeEvent where
  | started (run : Uuid)
  | registered (run : Uuid) (tool : Tool)
  | ended (run : Uuid)

/-- The shared registry and the runs that are active, in the order of their starts. -/
structure ScopedRuns where
  registry : ScopedToolRegistry
  active : List RunScope

namespace ScopedRuns

/-- The scope of an active run. -/
def scopeOf (s : ScopedRuns) (run : Uuid) : Option RunScope :=
  s.active.find? fun scope => scope.run == run

/-- One event; `none` when a run that is not active registers or ends, or an active one starts.
The guard ignores whether the scope was popped. -/
def step (s : ScopedRuns) : ScopeEvent → Option ScopedRuns
  | .started run =>
      match s.scopeOf run with
      | some _ => none
      | none =>
          let (id, registry) := s.registry.pushScope
          some ⟨registry, s.active ++ [⟨run, id, ∅⟩]⟩
  | .registered run tool =>
      (s.scopeOf run).map fun scope =>
        ⟨(s.registry.registerInScope scope.id tool).2, s.active.map (RunScope.register run tool)⟩
  | .ended run =>
      (s.scopeOf run).map fun scope =>
        ⟨(s.registry.popScope scope.id).2, s.active.filter fun other => other.run != run⟩

/-- A sequence of events. -/
def steps (s : ScopedRuns) (events : List ScopeEvent) : Option ScopedRuns :=
  events.foldlM step s

/-- Above the layers that were there before, the stack holds exactly the scopes of the active
runs, each with what its run registered. -/
def Exact (before : List (Nat × ScopeLayer)) (s : ScopedRuns) : Prop :=
  s.registry.layers = before ++ s.active.map fun scope => (scope.id, scope.tools)

/-- A run that ends is the youngest of the active ones. -/
def EndsYoungest (s : ScopedRuns) : ScopeEvent → Prop
  | .ended run => s.active.getLast?.map RunScope.run = some run
  | _ => True

/-- Every run of a sequence of events ends as the youngest active one. -/
def Nested (s : ScopedRuns) : List ScopeEvent → Prop
  | [] => True
  | event :: rest => ∀ s', s.step event = some s' → s.EndsYoungest event ∧ s'.Nested rest

variable {s s' : ScopedRuns} {before : List (Nat × ScopeLayer)}

/-- Each run is active once. -/
def Distinct (s : ScopedRuns) : Prop := (s.active.map RunScope.run).Nodup

theorem scopeOf_mem {run : Uuid} {scope : RunScope} (h : s.scopeOf run = some scope) :
    scope ∈ s.active ∧ scope.run = run :=
  ⟨List.mem_of_find?_eq_some h, by simpa using List.find?_some h⟩

/-- The scopes of two active runs are the same only when the runs are. -/
theorem id_eq_iff (hs : s.Distinct) (he : s.Exact before) {a b : RunScope} (ha : a ∈ s.active)
    (hb : b ∈ s.active) : a.id = b.id ↔ a.run = b.run := by
  have hids : (s.active.map RunScope.id).Nodup := by
    have hnodup := s.registry.nodup
    rw [he, List.map_append, List.map_map] at hnodup
    exact (List.nodup_append.mp hnodup).2.1
  constructor
  · intro h
    rw [List.inj_on_of_nodup_map hids ha hb h]
  · intro h
    rw [List.inj_on_of_nodup_map hs ha hb h]

theorem distinct_step (hs : s.Distinct) {event : ScopeEvent} (h : s.step event = some s') :
    s'.Distinct := by
  cases event with
  | started run =>
    simp only [step] at h
    split at h
    · cases h
    · next hnone =>
      cases h
      have hnew : ∀ a ∈ s.active, a.run ≠ run := by
        intro a ha hrun
        simpa [hrun] using List.find?_eq_none.mp hnone a ha
      simp only [Distinct, List.map_append, List.map_singleton, List.nodup_append]
      refine ⟨hs, List.nodup_singleton _, ?_⟩
      intro a ha b hb
      obtain ⟨scope, hscope, rfl⟩ := List.mem_map.mp ha
      rw [List.mem_singleton.mp hb]
      exact hnew scope hscope
  | registered run tool =>
    obtain ⟨scope, hscope, rfl⟩ := Option.map_eq_some_iff.mp h
    have hruns : (s.active.map (RunScope.register run tool)).map RunScope.run =
        s.active.map RunScope.run := by
      rw [List.map_map]
      exact List.map_congr_left fun a _ => RunScope.register_run run tool a
    show ((s.active.map (RunScope.register run tool)).map RunScope.run).Nodup
    rw [hruns]
    exact hs
  | ended run =>
    obtain ⟨scope, hscope, rfl⟩ := Option.map_eq_some_iff.mp h
    exact hs.sublist (List.filter_sublist.map _)

theorem exact_started {run : Uuid} (he : s.Exact before) (h : s.step (.started run) = some s') :
    s'.Exact before := by
  simp only [step] at h
  split at h
  · cases h
  · cases h
    simp only [Exact, ScopedToolRegistry.pushScope, List.map_append, List.map_singleton]
    rw [← List.append_assoc, ← he]

theorem exact_registered {run : Uuid} {tool : Tool} (hs : s.Distinct) (he : s.Exact before)
    (h : s.step (.registered run tool) = some s') : s'.Exact before := by
  obtain ⟨scope, hscope, rfl⟩ := Option.map_eq_some_iff.mp h
  obtain ⟨hmem, hrun⟩ := scopeOf_mem hscope
  have hlayer : (scope.id, scope.tools) ∈ s.registry.layers := by
    rw [he, List.mem_append]
    exact .inr (List.mem_map.mpr ⟨scope, hmem, rfl⟩)
  have hfound :
      ∃ layer, s.registry.layers.find? (fun layer => layer.1 == scope.id) = some layer := by
    apply Option.isSome_iff_exists.mp
    rw [List.find?_isSome]
    exact ⟨_, hlayer, by simp⟩
  obtain ⟨layer, hlayer⟩ := hfound
  have hlayers : (s.registry.registerInScope scope.id tool).2.layers =
      s.registry.layers.map (ScopedToolRegistry.enter scope.id tool) := by
    simp only [ScopedToolRegistry.registerInScope, hlayer]
  simp only [Exact, hlayers, List.map_map]
  rw [he, List.map_append, List.map_map]
  congr 1
  · -- the layers below belong to other scopes
    have hnodup := s.registry.nodup
    rw [he, List.map_append, List.nodup_append] at hnodup
    have hother : ∀ below ∈ before, ScopedToolRegistry.enter scope.id tool below = below := by
      intro below hbelow
      apply if_neg
      apply hnodup.2.2 _ (List.mem_map_of_mem hbelow)
      rw [List.map_map]
      exact List.mem_map.mpr ⟨scope, hmem, rfl⟩
    exact (List.map_congr_left hother).trans (List.map_id before)
  · apply List.map_congr_left
    intro a ha
    have hiff := id_eq_iff hs he ha hmem
    rw [hrun] at hiff
    by_cases hid : a.run = run
    · simp [ScopedToolRegistry.enter, RunScope.register, hid, hiff.mpr hid]
    · simp [ScopedToolRegistry.enter, RunScope.register, hid, mt hiff.mp hid]

/-- A run that ends as the youngest takes its scope from the stack, another one leaves it. -/
theorem exact_ended_iff {run : Uuid} (hs : s.Distinct) (he : s.Exact before)
    (h : s.step (.ended run) = some s') :
    s'.Exact before ↔ s.active.getLast?.map RunScope.run = some run := by
  obtain ⟨scope, hscope, rfl⟩ := Option.map_eq_some_iff.mp h
  obtain ⟨hmem, hrun⟩ := scopeOf_mem hscope
  rcases List.eq_nil_or_concat s.active with hnil | ⟨older, youngest, hactive⟩
  · rw [hnil] at hmem
    cases hmem
  rw [List.concat_eq_append] at hactive
  have hyoungest : youngest ∈ s.active := by simp [hactive]
  have hlayers : s.registry.layers = (before ++ older.map fun scope => (scope.id, scope.tools)) ++
      [(youngest.id, youngest.tools)] := by
    rw [he, hactive]
    simp
  have hiff := id_eq_iff hs he hyoungest hmem
  rw [hrun] at hiff
  have hlast : s.active.getLast?.map RunScope.run = some youngest.run := by simp [hactive]
  rw [hlast, Option.some.injEq, ← hiff]
  have htop : (s.registry.layers.getLast?.map Prod.fst) = some youngest.id := by simp [hlayers]
  by_cases hid : youngest.id = scope.id
  · have hpop : (s.registry.popScope scope.id).2.layers = s.registry.layers.dropLast := by
      unfold ScopedToolRegistry.popScope
      rw [if_pos (by rw [htop, hid])]
    have holder : ∀ a ∈ older, (a.run != run) = true := by
      intro a ha
      have hnodup : ((older ++ [youngest]).map RunScope.run).Nodup := hactive ▸ hs
      rw [List.map_append, List.nodup_append] at hnodup
      rw [bne_iff_ne, ← hiff.mp hid]
      exact hnodup.2.2 _ (List.mem_map_of_mem ha) _ (by simp)
    have hrest : s.active.filter (fun other => other.run != run) = older := by
      rw [hactive, List.filter_append, List.filter_eq_self.mpr holder]
      simp [hiff.mp hid]
    simp only [Exact, hpop, hrest, hlayers, List.dropLast_concat, hid]
  · have hpop : (s.registry.popScope scope.id).2.layers = s.registry.layers := by
      unfold ScopedToolRegistry.popScope
      rw [if_neg (by rw [htop]; simpa using hid)]
    simp only [hid, iff_false]
    -- a scope more than there are active runs
    intro hexact
    have hlength := congrArg List.length (hpop.symm.trans hexact)
    have hless : (s.active.filter fun other => other.run != run).length < s.active.length :=
      List.length_filter_lt_length_iff_exists.mpr ⟨scope, hmem, by simp [hrun]⟩
    rw [he] at hlength
    simp only [List.length_append, List.length_map] at hlength
    omega

/-- **An event keeps the stack at the active runs exactly when no older run ends**. -/
theorem exact_step_iff {event : ScopeEvent} (hs : s.Distinct) (he : s.Exact before)
    (h : s.step event = some s') : s'.Exact before ↔ s.EndsYoungest event := by
  cases event with
  | started run => simpa [EndsYoungest] using exact_started he h
  | registered run tool => simpa [EndsYoungest] using exact_registered hs he h
  | ended run => exact exact_ended_iff hs he h

private theorem exact_steps_iff (events : List ScopeEvent) (hs : s.Distinct)
    (he : s.Exact before) :
    (∀ done, done <+: events → ∀ s', s.steps done = some s' → s'.Exact before) ↔
      s.Nested events := by
  induction events generalizing s with
  | nil =>
    constructor
    · intro _
      trivial
    · intro _ done hdone s' hsteps
      rw [List.prefix_nil.mp hdone] at hsteps
      cases hsteps
      exact he
  | cons event rest ih =>
    have hcons : ∀ {t later}, s.step event = some t → s.steps (event :: later) = t.steps later := by
      intro t later ht
      simp [steps, ht]
    constructor
    · intro h t ht
      have hexact : t.Exact before := by
        apply h [event] ⟨rest, rfl⟩
        rw [hcons ht]
        rfl
      refine ⟨(exact_step_iff hs he ht).mp hexact, (ih (distinct_step hs ht) hexact).mp ?_⟩
      intro done hdone s' hsteps
      exact h (event :: done) ((List.prefix_cons_inj event).mpr hdone) s' ((hcons ht).trans hsteps)
    · intro hnested done hdone s' hsteps
      rcases List.prefix_cons_iff.mp hdone with rfl | ⟨later, rfl, hlater⟩
      · cases hsteps
        exact he
      · cases ht : s.step event with
        | none => simp [steps, ht] at hsteps
        | some t =>
          rw [hcons ht] at hsteps
          obtain ⟨hends, hrest⟩ := hnested t ht
          have hexact := (exact_step_iff hs he ht).mpr hends
          exact (ih (distinct_step hs ht) hexact).mpr hrest later hlater s' hsteps

/-- Runs on a registry that may hold scopes already. -/
def start (registry : ScopedToolRegistry) : ScopedRuns := ⟨registry, []⟩

/-- **After every event of an interleaving the stack holds exactly the scopes of the active runs,
above those that were there before, exactly when each run ends as the youngest of them**. -/
theorem exact_iff_nested (registry : ScopedToolRegistry) (events : List ScopeEvent) :
    (∀ done, done <+: events → ∀ s, (start registry).steps done = some s →
      s.Exact registry.layers) ↔ (start registry).Nested events :=
  exact_steps_iff events List.nodup_nil (by simp [Exact, start])

/-- Once no run is active, the tools are those visible before. -/
theorem get_of_idle {registry : ScopedToolRegistry} (hbase : s.registry.base = registry.base)
    (he : s.Exact registry.layers) (hidle : s.active = []) (name : String) :
    s.registry.get name = registry.get name := by
  have hlayers : s.registry.layers = registry.layers := by simpa [Exact, hidle] using he
  rw [ScopedToolRegistry.get, ScopedToolRegistry.get, hlayers, hbase]

/-- Two runs overlap, and the older one ends first. -/
def overlapping (tool : Tool) : List ScopeEvent :=
  [.started 1, .registered 1 tool, .started 2, .ended 1, .ended 2]

/-- Both have ended; the scope of the older one and its tool are still there. -/
theorem overlapping_leaks :
    let tool : Tool := ⟨⟨"search", "", .null, none⟩, true, fun _ arguments => .finished arguments⟩
    let registry := ScopedToolRegistry.new ⟨[]⟩
    ∃ s, (start registry).steps (overlapping tool) = some s ∧ s.active = [] ∧
      (registry.get "search").isNone = true ∧ (s.registry.get "search").isSome = true ∧
      ¬ s.Exact registry.layers := by
  intro tool registry
  refine ⟨_, rfl, rfl, rfl, by decide, ?_⟩
  intro h
  have hlength := congrArg List.length h
  revert hlength
  decide

end ScopedRuns

end Behest
