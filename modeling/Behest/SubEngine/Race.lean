import Behest.SubEngine.Tree

/-!
# Creations that run at the same time

`create_sub_engine` loads the two shared counters and raises them afterwards. Here each load
and each addition is a step of its own, any number of calls on the engines of one tree take
their steps in any order, and engines are dropped in between.
-/

namespace Behest

open Effect EngineTree

inductive SubEngineOp where
  | createSubEngine (i : Nat) (config : SubEngineConfig)
  | drop (i : Nat)

/-- A call, at what it does next. Source: `behest-core/src/sub_engine.rs:351–389, 423–431`. -/
inductive SubEngineCall where
  /-- It checks the depth and loads the live children. -/
  | loadingLive (i : Nat) (config : SubEngineConfig)
  /-- It loads the total descendants. -/
  | loadingTotal (i : Nat) (e : SubEngine) (config : SubEngineConfig)
  /-- It raises the live children. -/
  | raisingLive (i : Nat) (e : SubEngine) (config : SubEngineConfig)
  /-- It raises the total descendants and returns the engine. -/
  | raisingTotal (i : Nat) (e : SubEngine) (config : SubEngineConfig)
  | created
  | refused (error : SubagentError)
  | dropping (i : Nat)
  | dropped

namespace SubEngineCall

def start : SubEngineOp → SubEngineCall
  | .createSubEngine i config => loadingLive i config
  | .drop i => dropping i

/-- The next step of a call. Nothing can be done with an engine that was dropped. -/
def move (c : SubEngineCall) (t : EngineTree) : Option (SubEngineCall × EngineTree) :=
  match c with
  | loadingLive i config => (t.liveAt i).map fun n =>
      (if n.engine.depth ≥ n.engine.bounds.maxChildDepth then
        refused (.maxDepthExceeded n.engine.bounds.maxChildDepth n.engine.depth)
      else if t.counters.liveChildren ≥ n.engine.bounds.maxLiveChildren then
        refused (.maxChildrenExceeded n.engine.bounds.maxLiveChildren)
      else loadingTotal i n.engine config, t)
  | loadingTotal i e config =>
      some (if t.counters.totalDescendants ≥ e.bounds.maxTotalDescendants then
        refused (.maxDescendantsExceeded e.bounds.maxTotalDescendants t.counters.totalDescendants)
      else raisingLive i e config, t)
  | raisingLive i e config =>
      some (raisingTotal i e config,
        { t with counters := { t.counters with liveChildren := t.counters.liveChildren + 1 } })
  | raisingTotal i e config =>
      some (created, ⟨t.nodes ++ [⟨e.child config, some i, true⟩],
        { t.counters with totalDescendants := t.counters.totalDescendants + 1 }⟩)
  | created | refused _ | dropped => none
  | dropping i => (t.liveAt i).map fun n =>
      (dropped, ⟨t.nodes.set i { n with live := false }, n.engine.drop t.counters⟩)

def isCreated : SubEngineCall → Bool
  | created => true
  | _ => false

def isRaisingTotal : SubEngineCall → Bool
  | raisingTotal _ _ _ => true
  | _ => false

/-- An addition that a call is about to make finds its counter below the limit. -/
def findsRoom (bounds : SubagentBounds) (c : EngineCounters) : SubEngineCall → Bool
  | raisingLive _ _ _ => decide (c.liveChildren < bounds.maxLiveChildren)
  | raisingTotal _ _ _ => decide (c.totalDescendants < bounds.maxTotalDescendants)
  | _ => true

/-- The position and the engine that a call has found fit for a child. -/
def fit : SubEngineCall → Option (Nat × SubEngine)
  | loadingTotal i e _ | raisingLive i e _ | raisingTotal i e _ => some (i, e)
  | _ => none

end SubEngineCall

open SubEngineCall

/-- A creation that no other call disturbs does what it does in one step. -/
theorem EngineTree.alone_createSubEngine (t : EngineTree) (i : Nat) (n : EngineNode)
    (config : SubEngineConfig) (hn : t.liveAt i = some n) :
    Crowd.alone move 4 (start (.createSubEngine i config)) t =
      (match (n.engine.createSubEngine config t.counters).1 with
        | .ok _ => created
        | .error err => refused err, t.step (.create i config)) := by
  by_cases hdepth : n.engine.depth ≥ n.engine.bounds.maxChildDepth
  · simp [Crowd.alone, start, move, hn, step, SubEngine.createSubEngine, hdepth]
  · by_cases hlive : t.counters.liveChildren ≥ n.engine.bounds.maxLiveChildren
    · simp [Crowd.alone, start, move, hn, step, SubEngine.createSubEngine, hdepth, hlive]
    · by_cases htotal : t.counters.totalDescendants ≥ n.engine.bounds.maxTotalDescendants
      · simp [Crowd.alone, start, move, hn, step, SubEngine.createSubEngine, hdepth, hlive, htotal]
      · simp [Crowd.alone, start, move, hn, step, SubEngine.createSubEngine, hdepth, hlive, htotal]

/-- The calls on the engines of a tree. -/
abbrev TreeCrowd := Crowd SubEngineCall EngineTree

namespace TreeCrowd

/-- A root, before any call. -/
def root (journal : Journal) (bounds : SubagentBounds) : TreeCrowd :=
  ⟨[], EngineTree.root journal bounds⟩

/-- No more live engines below the root, and no more creations that succeeded, than allowed. -/
structure WithinBounds (bounds : SubagentBounds) (x : TreeCrowd) : Prop where
  live : x.state.liveNonRoot ≤ bounds.maxLiveChildren.toNat
  total : x.calls.countP isCreated ≤ bounds.maxTotalDescendants.toNat

instance (bounds : SubagentBounds) (x : TreeCrowd) : Decidable (WithinBounds bounds x) :=
  decidable_of_iff (x.state.liveNonRoot ≤ bounds.maxLiveChildren.toNat ∧
    x.calls.countP isCreated ≤ bounds.maxTotalDescendants.toNat)
    ⟨fun h => ⟨h.1, h.2⟩, fun h => ⟨h.live, h.total⟩⟩

/-- An addition finds its counter below the limit it was checked against. -/
def Undisturbed (bounds : SubagentBounds) (x : TreeCrowd) (t : Crowd.Turn SubEngineOp) : Prop :=
  match t with
  | .enter _ => True
  | .advance i => (x.calls[i]?.all (findsRoom bounds x.state.counters)) = true

instance (bounds : SubagentBounds) (x : TreeCrowd) (t : Crowd.Turn SubEngineOp) :
    Decidable (Undisturbed bounds x t) := by
  cases t <;> unfold Undisturbed <;> infer_instance

/-- The live counter is ahead of the engines by the calls between the two additions. -/
structure Counted (bounds : SubagentBounds) (x : TreeCrowd) : Prop where
  grown : Grown bounds x.state.nodes
  fit : ∀ c ∈ x.calls, ∀ i e, c.fit = some (i, e) →
    (∃ n, x.state.nodes[i]? = some n ∧ n.engine = e) ∧ e.depth < e.bounds.maxChildDepth
  live : x.state.counters.liveChildren.toNat =
    x.state.liveNonRoot + x.calls.countP isRaisingTotal
  live_le : x.state.counters.liveChildren.toNat ≤ bounds.maxLiveChildren.toNat
  total : x.state.counters.totalDescendants.toNat = x.calls.countP isCreated
  total_le : x.state.counters.totalDescendants.toNat ≤ bounds.maxTotalDescendants.toNat

theorem counted_root (journal : Journal) (bounds : SubagentBounds) :
    Counted bounds (root journal bounds) :=
  ⟨grown_root journal bounds, nofun, rfl, Nat.zero_le _, rfl, Nat.zero_le _⟩

theorem Counted.withinBounds {bounds : SubagentBounds} {x : TreeCrowd} (h : Counted bounds x) :
    WithinBounds bounds x :=
  ⟨Nat.le_trans (h.live ▸ Nat.le_add_right ..) h.live_le, h.total ▸ h.total_le⟩

variable {bounds : SubagentBounds} {x : TreeCrowd} {i : Nat} {c c' : SubEngineCall}

/-- A step of a call that has nothing to do with the counters. -/
theorem Counted.quiet (h : Counted bounds x) (hi : x.calls[i]? = some c)
    (hcreated : c'.isCreated = c.isCreated) (hraising : c'.isRaisingTotal = c.isRaisingTotal)
    (hfit : ∀ j e, c'.fit = some (j, e) →
      (∃ n, x.state.nodes[j]? = some n ∧ n.engine = e) ∧ e.depth < e.bounds.maxChildDepth) :
    Counted bounds ⟨x.calls.set i c', x.state⟩ := by
  have hcountCreated := countP_set_add isCreated hi c'
  have hcountRaising := countP_set_add isRaisingTotal hi c'
  rw [hcreated] at hcountCreated
  rw [hraising] at hcountRaising
  refine ⟨h.grown, fun d hd j e hde => ?_, ?_, h.live_le, ?_, h.total_le⟩
  · rcases List.mem_or_eq_of_mem_set hd with hd | rfl
    · exact h.fit d hd j e hde
    · exact hfit j e hde
  · exact h.live.trans
      (congrArg (x.state.liveNonRoot + ·) (Nat.add_right_cancel hcountRaising).symm)
  · exact h.total.trans (Nat.add_right_cancel hcountCreated).symm

/-- Calls that are there, and were before a step of another one, stay fit. -/
theorem Counted.fit_set (h : Counted bounds x) (hi : x.calls[i]? = some c)
    {nodes : List EngineNode}
    (hnodes : ∀ (j : Nat) (n : EngineNode), x.state.nodes[j]? = some n →
      ∃ n', nodes[j]? = some n' ∧ n'.engine = n.engine)
    (hfit : c'.fit = c.fit ∨ c'.fit = none) :
    ∀ d ∈ x.calls.set i c', ∀ j e, d.fit = some (j, e) →
      (∃ n, nodes[j]? = some n ∧ n.engine = e) ∧ e.depth < e.bounds.maxChildDepth := by
  intro d hd j e hde
  have hbefore : ∃ b ∈ x.calls, b.fit = some (j, e) := by
    rcases List.mem_or_eq_of_mem_set hd with hd | rfl
    · exact ⟨d, hd, hde⟩
    · rcases hfit with hfit | hfit
      · exact ⟨c, List.mem_of_getElem? hi, hfit ▸ hde⟩
      · rw [hfit] at hde
        cases hde
  obtain ⟨b, hb, hbe⟩ := hbefore
  obtain ⟨⟨n, hn, rfl⟩, hdepth⟩ := h.fit b hb j e hbe
  obtain ⟨n', hn', hengine⟩ := hnodes j n hn
  exact ⟨⟨n', hn', hengine⟩, hdepth⟩

/-- The first addition. -/
theorem Counted.raiseLive (h : Counted bounds x) {j : Nat} {e : SubEngine}
    {config : SubEngineConfig}
    (hi : x.calls[i]? = some (.raisingLive j e config))
    (hroom : x.state.counters.liveChildren < bounds.maxLiveChildren) :
    Counted bounds ⟨x.calls.set i (.raisingTotal j e config),
      { x.state with
        counters :=
          { x.state.counters with liveChildren := x.state.counters.liveChildren + 1 } }⟩ := by
  have hcreated := countP_set_add isCreated hi (.raisingTotal j e config)
  have hraising := countP_set_add isRaisingTotal hi (.raisingTotal j e config)
  simp only [isCreated, isRaisingTotal, Bool.false_eq_true, if_false, if_true, Nat.add_zero]
    at hcreated hraising
  have hraise := toNat_raise hroom
  refine ⟨h.grown, h.fit_set hi (fun j n hn => ⟨n, hn, rfl⟩) (.inl rfl), ?_, ?_, ?_, h.total_le⟩
  · change (x.state.counters.liveChildren + 1).toNat = x.state.liveNonRoot + _
    rw [hraise, hraising, h.live, Nat.add_assoc]
  · exact hraise ▸ hroom
  · exact h.total.trans hcreated.symm

/-- The second addition, with the engine returned. -/
theorem Counted.raiseTotal (h : Counted bounds x) {j : Nat} {e : SubEngine}
    {config : SubEngineConfig} (hi : x.calls[i]? = some (.raisingTotal j e config))
    (hroom : x.state.counters.totalDescendants < bounds.maxTotalDescendants) :
    Counted bounds ⟨x.calls.set i .created, ⟨x.state.nodes ++ [⟨e.child config, some j, true⟩],
      { x.state.counters with totalDescendants := x.state.counters.totalDescendants + 1 }⟩⟩ := by
  have hcreated := countP_set_add isCreated hi .created
  have hraising := countP_set_add isRaisingTotal hi .created
  simp only [isCreated, isRaisingTotal, Bool.false_eq_true, if_false, if_true, Nat.add_zero]
    at hcreated hraising
  have hraise := toNat_raise hroom
  obtain ⟨hengine, hdepth⟩ := h.fit _ (List.mem_of_getElem? hi) j e rfl
  refine ⟨h.grown.create hengine hdepth config,
    h.fit_set hi (fun k n hn => ⟨n, ?_, rfl⟩) (.inr rfl), ?_, h.live_le, ?_, ?_⟩
  · exact List.getElem?_append_left (List.getElem?_eq_some_iff.mp hn).1 ▸ hn
  · have hlive := h.live
    change x.state.counters.liveChildren.toNat = liveNonRoot ⟨x.state.nodes ++ _, _⟩ + _
    rw [liveNonRoot, List.countP_append, List.countP_singleton]
    simp only [liveNonRoot, Bool.true_and, Option.isSome_some, if_true] at hlive ⊢
    omega
  · exact hraise.trans ((congrArg (· + 1) h.total).trans hcreated.symm)
  · exact hraise ▸ hroom

/-- The end of a live engine. -/
theorem Counted.drop (h : Counted bounds x) {j : Nat} {n : EngineNode}
    (hi : x.calls[i]? = some (.dropping j)) (hj : x.state.nodes[j]? = some n)
    (hlive : n.live = true) :
    Counted bounds ⟨x.calls.set i .dropped,
      ⟨x.state.nodes.set j { n with live := false }, n.engine.drop x.state.counters⟩⟩ := by
  have hcreated := countP_set_add isCreated hi .dropped
  have hraising := countP_set_add isRaisingTotal hi .dropped
  simp only [isCreated, isRaisingTotal, Bool.false_eq_true, if_false, Nat.add_zero]
    at hcreated hraising
  have hn := List.mem_of_getElem? hj
  have hpos : n.parent.isSome = true → 0 < x.state.counters.liveChildren.toNat := fun hsome =>
    h.live ▸ Nat.lt_of_lt_of_le (liveNonRoot_pos hn hlive hsome) (Nat.le_add_right ..)
  have hdrop := toNat_drop h.grown hn x.state.counters hpos
  have hcount := countP_set_add (fun n => n.live && n.parent.isSome) hj { n with live := false }
  have htotal : (n.engine.drop x.state.counters).totalDescendants =
      x.state.counters.totalDescendants := by
    rw [SubEngine.drop]
    split <;> rfl
  refine ⟨h.grown.drop hj, h.fit_set hi (exists_getElem?_drop hj) (.inr rfl), ?_, ?_, ?_, ?_⟩
  · have hlive' := h.live
    simp only [liveNonRoot, hlive, Bool.true_and, Bool.false_and, Bool.false_eq_true, if_false,
      Nat.add_zero] at hcount hlive' ⊢
    omega
  · exact Nat.le_trans (hdrop ▸ Nat.le_add_right ..) h.live_le
  · rw [htotal]
    exact h.total.trans hcreated.symm
  · rw [htotal]
    exact h.total_le

/-- A turn that finds its counter below the limit. -/
theorem Counted.step {y : TreeCrowd} {t : Crowd.Turn SubEngineOp} (h : Counted bounds x)
    (ht : Undisturbed bounds x t) (hstep : x.step start move t = some y) : Counted bounds y := by
  rcases Crowd.step_cases hstep with ⟨op, rfl, rfl⟩ | ⟨i, c, c', t', rfl, hi, hmove, rfl⟩
  · have hop : (SubEngineCall.start op).isCreated = false ∧
        (SubEngineCall.start op).isRaisingTotal = false ∧ (SubEngineCall.start op).fit = none := by
      cases op <;> exact ⟨rfl, rfl, rfl⟩
    refine ⟨h.grown, fun c hc j e hce => ?_, ?_, h.live_le, ?_, h.total_le⟩
    · rcases List.mem_append.mp hc with hc | hc
      · exact h.fit c hc j e hce
      · rw [List.mem_singleton.mp hc, hop.2.2] at hce
        cases hce
    · rw [List.countP_append, List.countP_singleton, hop.2.1]
      exact h.live
    · rw [List.countP_append, List.countP_singleton, hop.1]
      exact h.total
  · have hroom : findsRoom bounds x.state.counters c = true := by
      simpa only [Undisturbed, hi, Option.all_some] using ht
    cases c with
    | loadingLive j config =>
      obtain ⟨n, hn, hmove⟩ := Option.map_eq_some_iff.mp hmove
      obtain ⟨rfl, rfl⟩ := Prod.mk.inj hmove
      split
      · exact h.quiet hi rfl rfl nofun
      · next hdepth =>
        split
        · exact h.quiet hi rfl rfl nofun
        · refine h.quiet hi rfl rfl fun k e hke => ?_
          cases hke
          exact ⟨⟨n, (liveAt_eq_some.mp hn).1, rfl⟩, UInt32.not_le.mp hdepth⟩
    | loadingTotal j e config =>
      obtain ⟨rfl, rfl⟩ := Prod.mk.inj (Option.some.inj hmove)
      split
      · exact h.quiet hi rfl rfl nofun
      · exact h.quiet hi rfl rfl fun k e' hke => h.fit _ (List.mem_of_getElem? hi) k e' hke
    | raisingLive j e config =>
      obtain ⟨rfl, rfl⟩ := Prod.mk.inj (Option.some.inj hmove)
      exact h.raiseLive hi (of_decide_eq_true hroom)
    | raisingTotal j e config =>
      obtain ⟨rfl, rfl⟩ := Prod.mk.inj (Option.some.inj hmove)
      exact h.raiseTotal hi (of_decide_eq_true hroom)
    | created => cases hmove
    | refused error => cases hmove
    | dropping j =>
      obtain ⟨n, hn, hmove⟩ := Option.map_eq_some_iff.mp hmove
      obtain ⟨rfl, rfl⟩ := Prod.mk.inj hmove
      exact h.drop hi (liveAt_eq_some.mp hn).1 (liveAt_eq_some.mp hn).2
    | dropped => cases hmove

/-- As long as every addition finds its counter below the limit, the bounds hold. -/
theorem withinBounds_of_undisturbed (journal : Journal) (bounds : SubagentBounds) (x : TreeCrowd)
    (h : LeadsTo (Crowd.step start move) (Undisturbed bounds) (root journal bounds) x) :
    WithinBounds bounds x :=
  (h.invariant (Counted bounds) (counted_root journal bounds)
    fun _ _ _ hx ht hstep => hx.step ht hstep).withinBounds

def unconfigured : SubEngineConfig := ⟨none, none, 0⟩

/-- Two creations one after the other; the second is refused. -/
theorem oneChild_withinBounds :
    ∃ x, LeadsTo (Crowd.step start move) (Undisturbed ⟨4, 1, 24⟩) (root .new ⟨4, 1, 24⟩) x ∧
      x.calls.countP isCreated = 1 ∧ x.calls.length = 2 ∧ WithinBounds ⟨4, 1, 24⟩ x := by
  obtain ⟨x, hx, hcreated, hlength⟩ := exists_leadsTo (Crowd.step start move)
    (Undisturbed ⟨4, 1, 24⟩) (root .new ⟨4, 1, 24⟩)
    ([.enter (.createSubEngine 0 unconfigured), .enter (.createSubEngine 0 unconfigured)] ++
      List.replicate 4 (.advance 0) ++ [.advance 1])
    (fun x => x.calls.countP isCreated = 1 ∧ x.calls.length = 2) (by decide +kernel)
  exact ⟨x, hx, hcreated, hlength, withinBounds_of_undisturbed .new _ x hx⟩

/-- Two creations both load the counters before either raises them. -/
theorem oneChild_exceeded :
    ∃ x, LeadsTo (Crowd.step start move) (fun _ _ => True) (root .new ⟨4, 1, 24⟩) x ∧
      ¬ WithinBounds ⟨4, 1, 24⟩ x :=
  exists_leadsTo (Crowd.step start move) (fun _ _ => True) (root .new ⟨4, 1, 24⟩)
    [.enter (.createSubEngine 0 unconfigured), .enter (.createSubEngine 0 unconfigured),
      .advance 0, .advance 0, .advance 1, .advance 1,
      .advance 0, .advance 0, .advance 1, .advance 1]
    _ (by decide +kernel)

end TreeCrowd

end Behest
