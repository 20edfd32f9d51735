import Behest.Effect.Crowd
import Behest.Journal.Log

/-!
# Trees of sub-engines

The sub-engines of `behest-core/src/sub_engine.rs` and their fan-out bounds. All engines that
descend from one root share two counters: of the engines that are alive, and of those ever
created. Counters, depths and bounds are 32-bit words, as in the source.
-/

namespace Behest

open Effect

/-- Source: `behest-core/src/sub_engine.rs:168–175`. -/
structure SubagentBounds where
  maxChildDepth : UInt32
  maxLiveChildren : UInt32
  maxTotalDescendants : UInt32

/-- Source: `behest-core/src/sub_engine.rs:189–214`. -/
inductive SubagentError where
  | maxDepthExceeded (max current : UInt32)
  | maxChildrenExceeded (max : UInt32)
  | maxDescendantsExceeded (max current : UInt32)
deriving DecidableEq

/-- Source: `behest-core/src/sub_engine.rs:218–225`. -/
structure SubEngineConfig where
  allowedTools : Option (List String)
  systemPrompt : Option String
  maxTurns : Nat

/-- An engine without the counters it shares. Source: `behest-core/src/sub_engine.rs:232–242`. -/
structure SubEngine where
  journal : Journal
  config : SubEngineConfig
  bounds : SubagentBounds
  depth : UInt32

/-- The counters that the engines of a tree share. -/
structure EngineCounters where
  liveChildren : UInt32
  totalDescendants : UInt32

namespace SubEngine

/-- Source: `behest-core/src/sub_engine.rs:266–275`. -/
def root (journal : Journal) (bounds : SubagentBounds) : SubEngine :=
  ⟨journal, ⟨none, none, 0⟩, bounds, 0⟩

/-- Source: `behest-core/src/sub_engine.rs:328–335`. -/
def canCreateChild (e : SubEngine) (c : EngineCounters) : Bool :=
  decide (e.depth < e.bounds.maxChildDepth) && decide (c.liveChildren < e.bounds.maxLiveChildren) &&
    decide (c.totalDescendants < e.bounds.maxTotalDescendants)

/-- The engine that a creation returns. Source: `behest-core/src/sub_engine.rs:379–388`. -/
def child (e : SubEngine) (config : SubEngineConfig) : SubEngine :=
  ⟨.new, config, e.bounds, e.depth + 1⟩

/-- Source: `behest-core/src/sub_engine.rs:351–389`. -/
def createSubEngine (e : SubEngine) (config : SubEngineConfig) (c : EngineCounters) :
    Except SubagentError SubEngine × EngineCounters :=
  if e.depth ≥ e.bounds.maxChildDepth then
    (.error (.maxDepthExceeded e.bounds.maxChildDepth e.depth), c)
  else if c.liveChildren ≥ e.bounds.maxLiveChildren then
    (.error (.maxChildrenExceeded e.bounds.maxLiveChildren), c)
  else if c.totalDescendants ≥ e.bounds.maxTotalDescendants then
    (.error (.maxDescendantsExceeded e.bounds.maxTotalDescendants c.totalDescendants), c)
  else (.ok (e.child config), ⟨c.liveChildren + 1, c.totalDescendants + 1⟩)

/-- Source: `behest-core/src/sub_engine.rs:423–431`. -/
def drop (e : SubEngine) (c : EngineCounters) : EngineCounters :=
  if e.depth > 0 then { c with liveChildren := c.liveChildren - 1 } else c

/-- A creation succeeds, with both counters raised, or leaves them alone. -/
theorem createSubEngine_cases (e : SubEngine) (config : SubEngineConfig) (c : EngineCounters) :
    (e.canCreateChild c = true ∧ e.createSubEngine config c =
        (.ok (e.child config), ⟨c.liveChildren + 1, c.totalDescendants + 1⟩)) ∨
      (e.canCreateChild c = false ∧ ∃ err, e.createSubEngine config c = (.error err, c)) := by
  rw [createSubEngine]
  split
  · next h => exact .inr ⟨by simp [canCreateChild, UInt32.not_lt.mpr h], _, rfl⟩
  · next hdepth =>
    split
    · next h => exact .inr ⟨by simp [canCreateChild, UInt32.not_lt.mpr h], _, rfl⟩
    · next hlive =>
      split
      · next h => exact .inr ⟨by simp [canCreateChild, UInt32.not_lt.mpr h], _, rfl⟩
      · next htotal =>
        refine .inl ⟨?_, rfl⟩
        simp only [canCreateChild, Bool.and_eq_true, decide_eq_true_eq]
        exact ⟨⟨UInt32.not_le.mp hdepth, UInt32.not_le.mp hlive⟩, UInt32.not_le.mp htotal⟩

theorem canCreateChild_iff (e : SubEngine) (c : EngineCounters) :
    e.canCreateChild c = true ↔ e.depth < e.bounds.maxChildDepth ∧
      c.liveChildren < e.bounds.maxLiveChildren ∧
      c.totalDescendants < e.bounds.maxTotalDescendants := by
  simp only [canCreateChild, Bool.and_eq_true, decide_eq_true_eq, and_assoc]

end SubEngine

/-- An engine with the position of the engine it was created on. -/
structure EngineNode where
  engine : SubEngine
  parent : Option Nat
  live : Bool

/-- The engines ever created in a tree, and their counters. -/
structure EngineTree where
  nodes : List EngineNode
  counters : EngineCounters

/-- What the owner of an engine can do with it. -/
inductive TreeOp where
  | create (i : Nat) (config : SubEngineConfig)
  | drop (i : Nat)

namespace EngineTree

/-- A root alone. -/
def root (journal : Journal) (bounds : SubagentBounds) : EngineTree :=
  ⟨[⟨.root journal bounds, none, true⟩], ⟨0, 0⟩⟩

/-- The live engine at a position. -/
def liveAt (t : EngineTree) (i : Nat) : Option EngineNode := t.nodes[i]?.filter EngineNode.live

/-- One operation. An engine that was dropped is gone: nothing can be done with it. -/
def step (t : EngineTree) : TreeOp → EngineTree
  | .create i config =>
      match t.liveAt i with
      | none => t
      | some n =>
          match n.engine.createSubEngine config t.counters with
          | (.ok child, c) => ⟨t.nodes ++ [⟨child, some i, true⟩], c⟩
          | (.error _, c) => ⟨t.nodes, c⟩
  | .drop i =>
      match t.liveAt i with
      | none => t
      | some n => ⟨t.nodes.set i { n with live := false }, n.engine.drop t.counters⟩

def run (t : EngineTree) (ops : List TreeOp) : EngineTree := ops.foldl step t

/-- The operation is a creation that succeeds. -/
def creates (t : EngineTree) : TreeOp → Bool
  | .create i config =>
      (t.liveAt i).any fun n => (n.engine.createSubEngine config t.counters).1.isOk
  | .drop _ => false

/-- The number of creations that succeed in a history. -/
def creations (t : EngineTree) : List TreeOp → Nat
  | [] => 0
  | op :: rest => (if t.creates op then 1 else 0) + (t.step op).creations rest

/-- The number of live engines other than the root. -/
def liveNonRoot (t : EngineTree) : Nat := t.nodes.countP fun n => n.live && n.parent.isSome

/-- The number of live engines that were created on the engine at a position. -/
def liveChildrenOf (t : EngineTree) (i : Nat) : Nat :=
  t.nodes.countP fun n => n.live && n.parent == some i

/-- What the fan-out bounds promise of a tree after a number of creations. -/
structure Bounded (bounds : SubagentBounds) (created : Nat) (t : EngineTree) : Prop where
  live : t.counters.liveChildren.toNat = t.liveNonRoot
  live_le : t.liveNonRoot ≤ bounds.maxLiveChildren.toNat
  total : t.counters.totalDescendants.toNat = created
  total_le : created ≤ bounds.maxTotalDescendants.toNat
  depth_le : ∀ n ∈ t.nodes, n.engine.depth ≤ bounds.maxChildDepth
  depth_parent : ∀ n ∈ t.nodes, ∀ p, n.parent = some p →
    ∃ m, t.nodes[p]? = some m ∧ n.engine.depth.toNat = m.engine.depth.toNat + 1
  creates : ∀ n ∈ t.nodes, n.live = true → ∀ config,
    ((n.engine.createSubEngine config t.counters).1.isOk = n.engine.canCreateChild t.counters) ∧
      ((n.engine.createSubEngine config t.counters).1.isOk = false →
        (n.engine.createSubEngine config t.counters).2 = t.counters)

theorem liveAt_eq_some {t : EngineTree} {i : Nat} {n : EngineNode} :
    t.liveAt i = some n ↔ t.nodes[i]? = some n ∧ n.live = true := Option.filter_eq_some_iff

/-- An operation changes nothing, adds a child of a live engine, or ends a live engine. -/
theorem step_cases (t : EngineTree) (op : TreeOp) :
    (t.step op = t ∧ t.creates op = false) ∨
      (∃ i n config, t.nodes[i]? = some n ∧ n.live = true ∧
        n.engine.canCreateChild t.counters = true ∧ t.creates op = true ∧
        t.step op = ⟨t.nodes ++ [⟨n.engine.child config, some i, true⟩],
          ⟨t.counters.liveChildren + 1, t.counters.totalDescendants + 1⟩⟩) ∨
      ∃ i n, t.nodes[i]? = some n ∧ n.live = true ∧ t.creates op = false ∧
        t.step op = ⟨t.nodes.set i { n with live := false }, n.engine.drop t.counters⟩ := by
  cases op with
  | create i config =>
    cases hn : t.liveAt i with
    | none => exact .inl ⟨by simp [step, hn], by simp [creates, hn]⟩
    | some n =>
      obtain ⟨hi, hlive⟩ := liveAt_eq_some.mp hn
      rcases n.engine.createSubEngine_cases config t.counters with ⟨hcan, h⟩ | ⟨hcan, err, h⟩
      · exact .inr (.inl ⟨i, n, config, hi, hlive, hcan, by simp [creates, hn, h, Except.isOk,
          Except.toBool], by simp [step, hn, h]⟩)
      · exact .inl ⟨by simp [step, hn, h], by simp [creates, hn, h, Except.isOk, Except.toBool]⟩
  | drop i =>
    cases hn : t.liveAt i with
    | none => exact .inl ⟨by simp [step, hn], rfl⟩
    | some n =>
      obtain ⟨hi, hlive⟩ := liveAt_eq_some.mp hn
      exact .inr (.inr ⟨i, n, hi, hlive, rfl, by simp [step, hn]⟩)

/-! ### What holds of every tree -/

/-- A word below another can be raised without overflow. -/
theorem toNat_raise {x y : UInt32} (h : x < y) : (x + 1).toNat = x.toNat + 1 := by
  have hx := UInt32.lt_iff_toNat_lt.mp h
  have hy := y.toNat_lt
  rw [UInt32.toNat_add, UInt32.toNat_one]
  omega

/-- The facts about the engines of a tree that its owners preserve. -/
structure Grown (bounds : SubagentBounds) (nodes : List EngineNode) : Prop where
  sameBounds : ∀ n ∈ nodes, n.engine.bounds = bounds
  depth_pos : ∀ n ∈ nodes, 0 < n.engine.depth.toNat ↔ n.parent.isSome = true
  depth_le : ∀ n ∈ nodes, n.engine.depth ≤ bounds.maxChildDepth
  depth_parent : ∀ n ∈ nodes, ∀ p, n.parent = some p →
    ∃ m, nodes[p]? = some m ∧ n.engine.depth.toNat = m.engine.depth.toNat + 1

theorem grown_root (journal : Journal) (bounds : SubagentBounds) :
    Grown bounds (root journal bounds).nodes := by
  constructor <;> intro n hn <;> obtain rfl := List.mem_singleton.mp hn
  · rfl
  · exact ⟨fun h => absurd h (Nat.lt_irrefl 0), nofun⟩
  · exact UInt32.zero_le
  · exact nofun

/-- A child of an engine that is not at the greatest depth. -/
theorem Grown.create {bounds : SubagentBounds} {nodes : List EngineNode} (h : Grown bounds nodes)
    {i : Nat} {e : SubEngine} (he : ∃ n, nodes[i]? = some n ∧ n.engine = e)
    (hdepth : e.depth < e.bounds.maxChildDepth) (config : SubEngineConfig) :
    Grown bounds (nodes ++ [⟨e.child config, some i, true⟩]) := by
  obtain ⟨n, hi, rfl⟩ := he
  have hbounds := h.sameBounds n (List.mem_of_getElem? hi)
  have hchild : (n.engine.child config).depth.toNat = n.engine.depth.toNat + 1 :=
    toNat_raise hdepth
  have hlt : n.engine.depth.toNat < bounds.maxChildDepth.toNat := hbounds ▸ hdepth
  have hold {p : Nat} {m : EngineNode} (hp : nodes[p]? = some m) :
      (nodes ++ [⟨n.engine.child config, some i, true⟩])[p]? = some m :=
    List.getElem?_append_left (List.getElem?_eq_some_iff.mp hp).1 ▸ hp
  refine ⟨fun m hm => ?_, fun m hm => ?_, fun m hm => ?_, fun m hm p hp => ?_⟩ <;>
    rcases List.mem_append.mp hm with hm | hm
  · exact h.sameBounds m hm
  · rw [List.mem_singleton.mp hm]
    exact hbounds
  · exact h.depth_pos m hm
  · rw [List.mem_singleton.mp hm]
    exact ⟨fun _ => rfl, fun _ => hchild ▸ Nat.succ_pos _⟩
  · exact h.depth_le m hm
  · rw [List.mem_singleton.mp hm]
    exact UInt32.le_iff_toNat_le.mpr (hchild ▸ hlt)
  · obtain ⟨m', hm', hdepth'⟩ := h.depth_parent m hm p hp
    exact ⟨m', hold hm', hdepth'⟩
  · rw [List.mem_singleton.mp hm] at hp ⊢
    cases hp
    exact ⟨n, hold hi, hchild⟩

/-- Ending an engine leaves the engines where they are. -/
theorem exists_getElem?_drop {nodes : List EngineNode} {i : Nat} {n : EngineNode}
    (hi : nodes[i]? = some n) (p : Nat) (m : EngineNode) (hm : nodes[p]? = some m) :
    ∃ m', (nodes.set i { n with live := false })[p]? = some m' ∧ m'.engine = m.engine := by
  by_cases hpi : i = p
  · subst hpi
    obtain rfl := Option.some.inj (hi.symm.trans hm)
    exact ⟨_, List.getElem?_set_self (List.getElem?_eq_some_iff.mp hi).1, rfl⟩
  · exact ⟨m, (List.getElem?_set_ne hpi).trans hm, rfl⟩

/-- Ending an engine leaves the shape of the tree. -/
theorem Grown.drop {bounds : SubagentBounds} {nodes : List EngineNode} (h : Grown bounds nodes)
    {i : Nat} {n : EngineNode} (hi : nodes[i]? = some n) :
    Grown bounds (nodes.set i { n with live := false }) := by
  have hn := List.mem_of_getElem? hi
  have hlift (m : EngineNode) (p : Nat) (hp : ∃ m', nodes[p]? = some m' ∧
      m.engine.depth.toNat = m'.engine.depth.toNat + 1) :
      ∃ m', (nodes.set i { n with live := false })[p]? = some m' ∧
        m.engine.depth.toNat = m'.engine.depth.toNat + 1 := by
    obtain ⟨m', hm', hdepth⟩ := hp
    obtain ⟨m'', hm'', he⟩ := exists_getElem?_drop hi p m' hm'
    exact ⟨m'', hm'', he ▸ hdepth⟩
  refine ⟨fun m hm => ?_, fun m hm => ?_, fun m hm => ?_, fun m hm p hp => hlift m p ?_⟩ <;>
    rcases List.mem_or_eq_of_mem_set hm with hm | rfl
  · exact h.sameBounds m hm
  · exact h.sameBounds n hn
  · exact h.depth_pos m hm
  · exact h.depth_pos n hn
  · exact h.depth_le m hm
  · exact h.depth_le n hn
  · exact h.depth_parent m hm p hp
  · exact h.depth_parent n hn p hp

/-- The counters count the engines, and stay within the bounds. -/
structure Counted (bounds : SubagentBounds) (t : EngineTree) : Prop where
  grown : Grown bounds t.nodes
  live : t.counters.liveChildren.toNat = t.liveNonRoot
  live_le : t.counters.liveChildren.toNat ≤ bounds.maxLiveChildren.toNat
  total_le : t.counters.totalDescendants.toNat ≤ bounds.maxTotalDescendants.toNat

theorem counted_root (journal : Journal) (bounds : SubagentBounds) :
    Counted bounds (root journal bounds) :=
  ⟨grown_root journal bounds, rfl, Nat.zero_le _, Nat.zero_le _⟩

/-- Dropping a live engine lowers the counter by what the engine counted. -/
theorem toNat_drop {bounds : SubagentBounds} {nodes : List EngineNode} (h : Grown bounds nodes)
    {n : EngineNode} (hn : n ∈ nodes) (c : EngineCounters)
    (hc : n.parent.isSome = true → 0 < c.liveChildren.toNat) :
    (n.engine.drop c).liveChildren.toNat + (if n.parent.isSome then 1 else 0) =
      c.liveChildren.toNat := by
  have hpos := h.depth_pos n hn
  rw [SubEngine.drop]
  split
  · next hdepth =>
    have hsome := hpos.mp (UInt32.lt_iff_toNat_lt.mp hdepth)
    have hle : (1 : UInt32) ≤ c.liveChildren := UInt32.le_iff_toNat_le.mpr (hc hsome)
    rw [if_pos hsome]
    change (c.liveChildren - 1).toNat + 1 = _
    rw [UInt32.toNat_sub_of_le _ _ hle, UInt32.toNat_one, Nat.sub_add_cancel (hc hsome)]
  · next hdepth =>
    rw [if_neg fun hsome => hdepth (UInt32.lt_iff_toNat_lt.mpr (hpos.mpr hsome)), Nat.add_zero]

/-- A live engine below the root is among those counted. -/
theorem liveNonRoot_pos {t : EngineTree} {n : EngineNode} (hn : n ∈ t.nodes)
    (hlive : n.live = true) (hsome : n.parent.isSome = true) : 0 < t.liveNonRoot :=
  List.countP_pos_iff.mpr ⟨n, hn, by rw [hlive, hsome]; rfl⟩

theorem Counted.step {bounds : SubagentBounds} {t : EngineTree} (h : Counted bounds t)
    (op : TreeOp) : Counted bounds (t.step op) := by
  rcases t.step_cases op with ⟨hstep, -⟩ | ⟨i, n, config, hi, hlive, hcan, -, hstep⟩ |
      ⟨i, n, hi, hlive, -, hstep⟩ <;> rw [hstep]
  · exact h
  · obtain ⟨hdepth, hchildren, htotal⟩ := (SubEngine.canCreateChild_iff _ _).mp hcan
    have hbounds := h.grown.sameBounds n (List.mem_of_getElem? hi)
    have hchildren' := UInt32.lt_iff_toNat_lt.mp (hbounds ▸ hchildren)
    have htotal' := UInt32.lt_iff_toNat_lt.mp (hbounds ▸ htotal)
    refine ⟨h.grown.create ⟨n, hi, rfl⟩ hdepth config, ?_, ?_, ?_⟩
    · rw [liveNonRoot, List.countP_append, List.countP_singleton]
      exact (toNat_raise hchildren).trans (congrArg (· + 1) h.live)
    · exact toNat_raise hchildren ▸ hchildren'
    · exact toNat_raise htotal ▸ htotal'
  · have hn := List.mem_of_getElem? hi
    have hdrop := toNat_drop h.grown hn t.counters fun hsome =>
      h.live ▸ liveNonRoot_pos hn hlive hsome
    have hcount := countP_set_add (fun n => n.live && n.parent.isSome) hi { n with live := false }
    refine ⟨h.grown.drop hi, ?_, ?_, ?_⟩
    · have hlive' := h.live
      simp only [liveNonRoot, hlive, Bool.true_and, Bool.false_and, Bool.false_eq_true, if_false,
        Nat.add_zero] at hcount hlive' ⊢
      omega
    · exact Nat.le_trans (hdrop ▸ Nat.le_add_right ..) h.live_le
    · rw [SubEngine.drop]
      split <;> exact h.total_le

theorem counted_run (journal : Journal) (bounds : SubagentBounds) (ops : List TreeOp) :
    Counted bounds ((root journal bounds).run ops) :=
  List.foldlRecOn ops EngineTree.step (counted_root journal bounds) fun _ h op _ => h.step op

/-- The total counts the creations that succeed. -/
theorem total_step (t : EngineTree) (op : TreeOp) :
    (t.step op).counters.totalDescendants.toNat =
      t.counters.totalDescendants.toNat + if t.creates op then 1 else 0 := by
  rcases t.step_cases op with ⟨hstep, hop⟩ | ⟨i, n, config, hi, hlive, hcan, hop, hstep⟩ |
      ⟨i, n, hi, hlive, hop, hstep⟩ <;> rw [hstep, hop]
  · rfl
  · exact toNat_raise ((SubEngine.canCreateChild_iff _ _).mp hcan).2.2
  · rw [SubEngine.drop]
    split <;> rfl

theorem total_run (t : EngineTree) (ops : List TreeOp) :
    (t.run ops).counters.totalDescendants.toNat =
      t.counters.totalDescendants.toNat + t.creations ops := by
  induction ops generalizing t with
  | nil => rfl
  | cons op rest ih =>
    rw [creations, ← Nat.add_assoc, ← total_step]
    exact ih (t.step op)

/-- In every history of creations and drops the fan-out is bounded. -/
theorem bounded_run (journal : Journal) (bounds : SubagentBounds) (ops : List TreeOp) :
    Bounded bounds ((root journal bounds).creations ops) ((root journal bounds).run ops) := by
  have h := counted_run journal bounds ops
  have htotal : _ = 0 + (root journal bounds).creations ops := total_run (root journal bounds) ops
  rw [Nat.zero_add] at htotal
  refine ⟨h.live, h.live ▸ h.live_le, htotal, htotal ▸ h.total_le, h.grown.depth_le,
    h.grown.depth_parent, fun n _ _ config => ?_⟩
  rcases n.engine.createSubEngine_cases config ((root journal bounds).run ops).counters with
    ⟨hcan, hcreate⟩ | ⟨hcan, err, hcreate⟩
  · rw [hcreate, hcan]
    exact ⟨rfl, nofun⟩
  · rw [hcreate, hcan]
    exact ⟨rfl, fun _ => rfl⟩

/-! ### The limit at one level -/

/-- A creation on an engine is refused for its live children only by its own. -/
def PerLevel (bounds : SubagentBounds) (t : EngineTree) (i : Nat) (n : EngineNode) : Prop :=
  ∀ config, (n.engine.createSubEngine config t.counters).1.isOk = true ↔
    t.liveChildrenOf i < bounds.maxLiveChildren.toNat

/-- Below the other limits, an engine of a tree creates a child exactly when the whole tree is
below the limit on live children. -/
theorem isOk_createSubEngine_iff {bounds : SubagentBounds} {t : EngineTree} (h : Counted bounds t)
    {n : EngineNode} (hn : n ∈ t.nodes) (hdepth : n.engine.depth < bounds.maxChildDepth)
    (htotal : t.counters.totalDescendants < bounds.maxTotalDescendants)
    (config : SubEngineConfig) :
    (n.engine.createSubEngine config t.counters).1.isOk = true ↔
      t.liveNonRoot < bounds.maxLiveChildren.toNat := by
  have hok : (n.engine.createSubEngine config t.counters).1.isOk =
      n.engine.canCreateChild t.counters := by
    rcases n.engine.createSubEngine_cases config t.counters with
      ⟨hcan, hcreate⟩ | ⟨hcan, _, hcreate⟩
      <;> rw [hcreate, hcan] <;> rfl
  rw [hok, SubEngine.canCreateChild_iff, h.grown.sameBounds n hn, ← h.live]
  exact ⟨fun hcan => UInt32.lt_iff_toNat_lt.mp hcan.2.1,
    fun hlive => ⟨hdepth, UInt32.lt_iff_toNat_lt.mpr hlive, htotal⟩⟩

theorem liveChildrenOf_le (t : EngineTree) (i : Nat) : t.liveChildrenOf i ≤ t.liveNonRoot := by
  refine List.countP_mono_left fun m _ hm => ?_
  simp only [Bool.and_eq_true, beq_iff_eq] at hm ⊢
  exact ⟨hm.1, hm.2 ▸ rfl⟩

/-- Below the other limits, the limit on live children is that of one level exactly when the
whole tree is below it, or the children of the one engine reach it. -/
theorem perLevel_iff (journal : Journal) (bounds : SubagentBounds) (ops : List TreeOp) (i : Nat)
    (n : EngineNode) (hn : ((root journal bounds).run ops).liveAt i = some n)
    (hdepth : n.engine.depth < bounds.maxChildDepth)
    (htotal : ((root journal bounds).run ops).counters.totalDescendants <
      bounds.maxTotalDescendants) :
    PerLevel bounds ((root journal bounds).run ops) i n ↔
      (((root journal bounds).run ops).liveNonRoot < bounds.maxLiveChildren.toNat ∨
        bounds.maxLiveChildren.toNat ≤ ((root journal bounds).run ops).liveChildrenOf i) := by
  have hchildren := liveChildrenOf_le ((root journal bounds).run ops) i
  have hcreate := isOk_createSubEngine_iff (counted_run journal bounds ops)
    (List.mem_of_getElem? (liveAt_eq_some.mp hn).1) hdepth htotal
  constructor
  · intro h
    have hiff := (hcreate n.engine.config).symm.trans (h n.engine.config)
    omega
  · intro h config
    rw [hcreate config]
    omega

/-- Under the default bounds with one live child, the root still is at its own limit. -/
theorem root_perLevel :
    PerLevel ⟨4, 1, 24⟩ ((root .new ⟨4, 1, 24⟩).run [.create 0 ⟨none, none, 0⟩]) 0
      ⟨.root .new ⟨4, 1, 24⟩, none, true⟩ :=
  (perLevel_iff .new ⟨4, 1, 24⟩ [.create 0 ⟨none, none, 0⟩] 0 _ rfl (by decide) (by decide)).mpr
    (.inr (by decide))

/-- The first child of a root that may have one live child cannot have a child. -/
theorem grandchild_refused :
    ∃ n, ((root .new ⟨4, 1, 24⟩).run [.create 0 ⟨none, none, 0⟩]).liveAt 1 = some n ∧
      n.engine.depth < 4 ∧
      ((root .new ⟨4, 1, 24⟩).run [.create 0 ⟨none, none, 0⟩]).counters.totalDescendants < 24 ∧
      ¬ PerLevel ⟨4, 1, 24⟩ ((root .new ⟨4, 1, 24⟩).run [.create 0 ⟨none, none, 0⟩]) 1 n :=
  ⟨_, rfl, by decide, by decide,
    fun h => absurd ((h ⟨none, none, 0⟩).mpr (by decide)) (by decide)⟩

end EngineTree

end Behest
