import Behest.Tool.Shadow

/-!
# Scopes that are opened and closed

What is left of a scope when it is popped: the registry is what it was before, but for what was
registered meanwhile in the scopes below. As long as it is open, the top scope that registered a
name decides about it.
-/

namespace Behest

/-- The operation registers a tool in a scope older than the given one. -/
def ScopeOp.isOutward (s : Nat) (op : ScopeOp) : Bool :=
  match op.entry? with
  | some (scope, _) => decide (scope < s)
  | none => false

namespace ScopedToolRegistry

variable (r : ScopedToolRegistry)

def after (ops : List ScopeOp) : ScopedToolRegistry := ops.foldl apply r

/-- What was registered in scopes that were there at the time, the youngest first. -/
def registrations : ScopedToolRegistry → List ScopeOp → List (Nat × String × Tool)
  | _, [] => []
  | r, op :: rest =>
      registrations (r.apply op) rest ++ (op.entry?.filter fun entry => entry.1 ∈ r.ids).toList

/-- What a scope registered last under a name, or held before. -/
def lastIn (ops : List ScopeOp) (id : Nat) (name : String) : Option Tool :=
  (((r.registrations ops).find? fun entry => entry.1 == id && entry.2.1 == name).map (·.2.2)).or
    (r.held id name)

/-- The registry with what the operations register in the scopes that are there. -/
def outerAfter (ops : List ScopeOp) : ScopedToolRegistry :=
  r.after (ops.filter fun op => op.isOutward r.nextId)

/-- The operations inside a scope of their own, which is popped in the end. -/
def enclosed (ops : List ScopeOp) : Bool × ScopedToolRegistry :=
  (r.pushScope.2.after ops).popScope r.pushScope.1

/-- The tools are what they were, and the specs too; only specs with one name may come in another
order. -/
structure Restores (before after : ScopedToolRegistry) : Prop where
  get : ∀ name, after.get name = before.get name
  specs_perm : ∀ σ τ, (after.specs σ).Perm (before.specs τ)
  specs_eq : before.OwnNames → ∀ σ τ, after.specs σ = before.specs τ

@[simp] theorem after_nil : r.after [] = r := rfl

@[simp] theorem after_cons (op : ScopeOp) (rest : List ScopeOp) :
    r.after (op :: rest) = (r.apply op).after rest := rfl

theorem after_snoc (init : List ScopeOp) (op : ScopeOp) :
    r.after (init ++ [op]) = (r.after init).apply op := by
  rw [after, List.foldl_append]
  rfl

theorem apply_of_entry {op : ScopeOp} {scope : Nat} {name : String} {tool : Tool}
    (h : op.entry? = some (scope, name, tool)) :
    r.apply op = (r.registerArcInScope scope name tool).2 := by
  cases op with
  | push => cases h
  | pop id => cases h
  | registerArc scope name tool =>
    cases h
    rfl
  | register scope tool =>
    cases h
    exact r.registerInScope_snd scope tool

theorem ids_registerArcInScope (scope : Nat) (name : String) (tool : Tool) :
    (r.registerArcInScope scope name tool).2.ids = r.ids := by
  rw [ids, layers_registerArcInScope, map_enterAs_fst]
  rfl

theorem ids_pushScope : r.pushScope.2.ids = r.ids ++ [r.nextId] := List.map_append

theorem ids_popScope (id : Nat) :
    (r.popScope id).2.ids = if r.ids.getLast? = some id then r.ids.dropLast else r.ids := by
  rw [ids, layers_popScope]
  split
  · exact List.map_dropLast
  · rfl

/-! ### What the scopes hold -/

theorem held_registerArcInScope (scope : Nat) (name : String) (tool : Tool) (id : Nat)
    (other : String) : (r.registerArcInScope scope name tool).2.held id other =
      if scope ∈ r.ids ∧ scope = id ∧ name = other then some tool else r.held id other := by
  by_cases hid : id ∈ r.ids
  · obtain ⟨layer, hlayer, rfl⟩ := List.mem_map.mp hid
    have hentered :
      enterAs scope name tool layer ∈ (r.registerArcInScope scope name tool).2.layers :=
      (r.layers_registerArcInScope scope name tool) ▸ List.mem_map_of_mem hlayer
    have hheld := held_of_mem _ other hentered
    rw [enterAs_fst] at hheld
    rw [hheld, r.held_of_mem other hlayer]
    by_cases hscope : layer.1 = scope
    · subst hscope
      by_cases hname : name = other
      · subst hname
        simp [enterAs, hid]
      · simp [enterAs, hname, AList.lookup_insert_ne (Ne.symm hname)]
    · simp [enterAs, hscope, Ne.symm hscope]
  · have hid' : id ∉ (r.registerArcInScope scope name tool).2.ids := by
      rwa [ids_registerArcInScope]
    rw [held_of_notMem _ other hid', r.held_of_notMem other hid, if_neg]
    rintro ⟨hscope, rfl, -⟩
    exact hid hscope

theorem held_pushScope (id : Nat) (name : String) : r.pushScope.2.held id name =
    r.held id name := by
  by_cases hid : id ∈ r.ids
  · obtain ⟨layer, hlayer, rfl⟩ := List.mem_map.mp hid
    have hkept : layer ∈ r.pushScope.2.layers := List.mem_append_left _ hlayer
    rw [held_of_mem _ name hkept, r.held_of_mem name hlayer]
  · rw [r.held_of_notMem name hid]
    by_cases hnew : id = r.nextId
    · have hlayer : (r.nextId, ∅) ∈ r.pushScope.2.layers := List.mem_append_right _ (by simp)
      have hheld := held_of_mem _ name hlayer
      rw [hnew, hheld, AList.lookup_empty]
    · refine held_of_notMem _ name ?_
      rw [ids_pushScope, List.mem_append, List.mem_singleton]
      exact not_or.mpr ⟨hid, hnew⟩

theorem held_popScope {id popped : Nat} (h : id ∈ (r.popScope popped).2.ids) (name : String) :
    (r.popScope popped).2.held id name = r.held id name := by
  obtain ⟨layer, hlayer, rfl⟩ := List.mem_map.mp h
  have hkept : layer ∈ r.layers := by
    rw [layers_popScope] at hlayer
    split at hlayer
    · exact List.dropLast_subset _ hlayer
    · exact hlayer
  rw [held_of_mem _ name hlayer, r.held_of_mem name hkept]

theorem op_cases (op : ScopeOp) : op = .push ∨ (∃ id, op = .pop id) ∨
    ∃ scope name tool, op.entry? = some (scope, name, tool) := by
  cases op with
  | push => exact .inl rfl
  | pop id => exact .inr (.inl ⟨id, rfl⟩)
  | register scope tool => exact .inr (.inr ⟨scope, tool.spec.name, tool, rfl⟩)
  | registerArc scope name tool => exact .inr (.inr ⟨scope, name, tool, rfl⟩)

/-- An operation opens the next scope, or none. -/
theorem apply_ids (op : ScopeOp) : r.nextId ≤ (r.apply op).nextId ∧
    ∀ id ∈ (r.apply op).ids, id ∈ r.ids ∨ id = r.nextId := by
  rcases op_cases op with rfl | ⟨popped, rfl⟩ | ⟨scope, name, tool, h⟩
  · refine ⟨Nat.le_succ _, fun id hid => ?_⟩
    rw [apply, ids_pushScope, List.mem_append, List.mem_singleton] at hid
    exact hid
  · rw [apply]
    refine ⟨?_, fun id hid => .inl ?_⟩
    · unfold popScope
      split <;> exact Nat.le_refl _
    · rw [ids_popScope] at hid
      split at hid
      · exact List.dropLast_subset _ hid
      · exact hid
  · rw [r.apply_of_entry h, nextId_registerArcInScope, ids_registerArcInScope]
    exact ⟨Nat.le_refl _, fun id hid => .inl hid⟩

/-- A scope that is there was there before, or is new. -/
theorem mem_ids_after {ops : List ScopeOp} {id : Nat} (h : id ∈ (r.after ops).ids) :
    id ∈ r.ids ∨ r.nextId ≤ id := by
  induction ops generalizing r with
  | nil => exact .inl h
  | cons op rest ih =>
    obtain ⟨hnext, hids⟩ := r.apply_ids op
    rcases ih (r.apply op) h with hid | hid
    · exact (hids id hid).imp_right fun heq => Nat.le_of_eq heq.symm
    · exact .inr (hnext.trans hid)

/-- What a scope holds after an operation, unless it is popped. -/
theorem held_apply {op : ScopeOp} {rest : List ScopeOp} {id : Nat}
    (h : id ∈ ((r.apply op).after rest).ids) (name : String) :
    (r.apply op).held id name =
      (((op.entry?.filter fun entry => entry.1 ∈ r.ids).toList.find? fun entry =>
        entry.1 == id && entry.2.1 == name).map (·.2.2)).or (r.held id name) := by
  rcases op_cases op with rfl | ⟨popped, rfl⟩ | ⟨scope, other, tool, hentry⟩
  · exact r.held_pushScope id name
  · by_cases hid : id ∈ (r.popScope popped).2.ids
    · exact r.held_popScope hid name
    · -- a scope that was popped does not come back
      have hnew := ((r.apply (.pop popped)).mem_ids_after h).resolve_left hid
      have hold : id ∉ r.ids := fun hmem =>
        absurd (r.fresh id hmem) (Nat.not_lt.mpr ((r.apply_ids (.pop popped)).1.trans hnew))
      rw [show (r.apply (.pop popped)).held id name = none from held_of_notMem _ name hid,
        r.held_of_notMem name hold]
      rfl
  · rw [r.apply_of_entry hentry, held_registerArcInScope, hentry]
    by_cases hscope : scope ∈ r.ids
    · by_cases hsame : scope = id ∧ other = name
      · obtain ⟨rfl, rfl⟩ := hsame
        simp [Option.filter, hscope]
      · simp [Option.filter, hscope, hsame]
    · simp [Option.filter, hscope]

/-- A scope that is open holds what was registered in it last. -/
theorem held_after {ops : List ScopeOp} {id : Nat} (h : id ∈ (r.after ops).ids) (name : String) :
    (r.after ops).held id name = r.lastIn ops id name := by
  induction ops generalizing r with
  | nil => rfl
  | cons op rest ih =>
    rw [after_cons, ih (r.apply op) h, lastIn, lastIn, registrations, List.find?_append,
      r.held_apply h, Option.map_or, Option.or_assoc]

theorem base_apply (op : ScopeOp) : (r.apply op).base = r.base := by
  rcases op_cases op with rfl | ⟨popped, rfl⟩ | ⟨scope, name, tool, h⟩
  · rfl
  · rw [apply, popScope]
    split <;> rfl
  · rw [r.apply_of_entry h, base_registerArcInScope]

theorem base_after (ops : List ScopeOp) : (r.after ops).base = r.base := by
  induction ops generalizing r with
  | nil => rfl
  | cons op rest ih => exact (ih (r.apply op)).trans (r.base_apply op)

/-- The tool of the top scope that registered the name, or else the tool of the base. -/
theorem get_after (ops : List ScopeOp) (name : String) : (r.after ops).get name =
    ((r.after ops).ids.reverse.findSome? fun id => r.lastIn ops id name).or (r.base.get name) := by
  rw [get_eq_held, base_after]
  refine congrArg (Option.or · _) (findSome?_congr fun id hid => ?_)
  exact r.held_after (List.mem_reverse.mp hid) name

/-! ### A scope of its own -/

/-- While a scope is open, the scopes below are as if only they had been registered in. -/
structure Encloses (s : Nat) (outer r : ScopedToolRegistry) : Prop where
  base : r.base = outer.base
  below : ∀ id ∈ outer.ids, id < s
  next : s < r.nextId
  above : s ∈ r.ids → ∃ layer inner, r.layers = outer.layers ++ (s, layer) :: inner ∧
    ∀ other ∈ inner, s < other.1

namespace Encloses

variable {r} {outer : ScopedToolRegistry} {s : Nat}

theorem start : Encloses r.nextId r r.pushScope.2 where
  base := rfl
  below := r.fresh
  next := Nat.lt_succ_self _
  above _ := ⟨∅, [], rfl, nofun⟩

theorem push (h : Encloses s outer r) : Encloses s outer r.pushScope.2 where
  base := h.base
  below := h.below
  next := Nat.lt_succ_of_lt h.next
  above hs := by
    rw [ids_pushScope, List.mem_append, List.mem_singleton] at hs
    obtain ⟨layer, inner, hlayers, hinner⟩ := h.above (hs.resolve_right (Nat.ne_of_lt h.next))
    refine ⟨layer, inner ++ [(r.nextId, ∅)], ?_, fun other hother => ?_⟩
    · show r.layers ++ [(r.nextId, ∅)] = _
      rw [hlayers, List.append_assoc, List.cons_append]
    · rcases List.mem_append.mp hother with hold | hnew
      · exact hinner other hold
      · rw [List.mem_singleton.mp hnew]
        exact h.next

/-- A registration in an older scope changes the scopes below, another one what is above. -/
theorem register (h : Encloses s outer r) (scope : Nat) (name : String) (tool : Tool) :
    Encloses s (if scope < s then (outer.registerArcInScope scope name tool).2 else outer)
      (r.registerArcInScope scope name tool).2 := by
  have houter : (if scope < s then (outer.registerArcInScope scope name tool).2 else outer).layers =
      outer.layers.map (enterAs scope name tool) := by
    split
    · exact outer.layers_registerArcInScope scope name tool
    · next hscope =>
      exact (map_enterAs_of_notMem fun hmem => hscope (h.below scope hmem)).symm
  have hids : (if scope < s then (outer.registerArcInScope scope name tool).2 else outer).ids =
      outer.ids := by
    split
    · exact outer.ids_registerArcInScope scope name tool
    · rfl
  refine ⟨?_, hids ▸ h.below, ?_, fun hs => ?_⟩
  · rw [base_registerArcInScope, h.base]
    split
    · exact (outer.base_registerArcInScope scope name tool).symm
    · rfl
  · exact (r.nextId_registerArcInScope scope name tool).symm ▸ h.next
  · rw [ids_registerArcInScope] at hs
    obtain ⟨layer, inner, hlayers, hinner⟩ := h.above hs
    refine ⟨(enterAs scope name tool (s, layer)).2, inner.map (enterAs scope name tool), ?_, ?_⟩
    · rw [layers_registerArcInScope, hlayers, houter, List.map_append, List.map_cons]
      exact congrArg (_ ++ · :: _) (Prod.ext (enterAs_fst scope name tool (s, layer)) rfl)
    · intro other hother
      obtain ⟨old, hold, rfl⟩ := List.mem_map.mp hother
      rw [enterAs_fst]
      exact hinner old hold

theorem pop (h : Encloses s outer r) (id : Nat) : Encloses s outer (r.popScope id).2 := by
  have hbase : (r.popScope id).2.base = r.base := r.base_apply (.pop id)
  refine ⟨hbase.trans h.base, h.below, h.next.trans_le (r.apply_ids (.pop id)).1, fun hs => ?_⟩
  rw [ids_popScope] at hs
  rw [layers_popScope]
  split at hs
  · obtain ⟨layer, inner, hlayers, hinner⟩ := h.above (List.dropLast_subset _ hs)
    rcases List.eq_nil_or_concat inner with rfl | ⟨init, last, rfl⟩
    · -- the scope itself was on top
      rw [ids, hlayers, List.map_append, List.map_singleton, List.dropLast_concat] at hs
      exact absurd (h.below s hs) (Nat.lt_irrefl s)
    · rw [List.concat_eq_append] at hlayers hinner
      refine ⟨layer, init, ?_, fun other hother => hinner other (List.mem_append_left _ hother)⟩
      rw [if_pos ‹_›, hlayers, ← List.cons_append, ← List.append_assoc, List.dropLast_concat]
  · rw [if_neg ‹_›]
    exact h.above hs

theorem apply (h : Encloses s outer r) (op : ScopeOp) :
    Encloses s (if op.isOutward s then outer.apply op else outer) (r.apply op) := by
  rcases op_cases op with rfl | ⟨popped, rfl⟩ | ⟨scope, name, tool, hentry⟩
  · exact h.push
  · exact h.pop popped
  · rw [ScopeOp.isOutward, hentry, r.apply_of_entry hentry, outer.apply_of_entry hentry]
    simpa using h.register scope name tool

theorem after (ops : List ScopeOp) :
    Encloses r.nextId (r.outerAfter ops) (r.pushScope.2.after ops) := by
  induction ops using List.reverseRecOn with
  | nil => exact .start
  | append_singleton init op ih =>
    have hstep := ih.apply op
    rw [after_snoc, outerAfter, List.filter_append]
    by_cases hout : op.isOutward r.nextId = true
    · rw [if_pos hout] at hstep
      rw [List.filter_cons_of_pos hout, List.filter_nil, after_snoc]
      exact hstep
    · rw [if_neg hout] at hstep
      rw [List.filter_cons_of_neg hout, List.filter_nil, List.append_nil]
      exact hstep

/-- When the scope is popped, the scopes below are left. -/
theorem popped (h : Encloses s outer r) (hpop : (r.popScope s).1 = true) :
    (r.popScope s).2.layers = outer.layers ∧ (r.popScope s).2.base = outer.base := by
  have htop : r.ids.getLast? = some s := by
    rw [ids, List.getLast?_map]
    unfold popScope at hpop
    split at hpop
    · assumption
    · cases hpop
  refine ⟨?_, (r.base_apply (.pop s)).trans h.base⟩
  obtain ⟨layer, inner, hlayers, hinner⟩ := h.above (List.mem_of_getLast? htop)
  rw [layers_popScope, if_pos htop, hlayers]
  rcases List.eq_nil_or_concat inner with rfl | ⟨init, last, rfl⟩
  · rw [List.dropLast_concat]
  · -- a scope above would be the top
    rw [ids, hlayers, List.concat_eq_append, ← List.cons_append, ← List.append_assoc,
      List.map_append, List.map_singleton, List.getLast?_concat, Option.some.injEq] at htop
    have hlast := hinner last (by simp)
    exact absurd htop (Nat.ne_of_gt hlast)

end Encloses

theorem restores_of_layers {r r' : ScopedToolRegistry} (hlayers : r'.layers = r.layers)
    (hbase : r'.base = r.base) : Restores r r' := by
  have hget : ∀ name, r'.get name = r.get name := fun name => by
    rw [ScopedToolRegistry.get, ScopedToolRegistry.get, hlayers, hbase]
  refine ⟨hget, fun σ τ => specs_perm σ τ hget, fun hown σ τ => ?_⟩
  refine (specs_perm σ τ hget).eq_of_pairwise (fun a b ha hb hab hba => ?_)
    (r'.specs_sorted σ) (r.specs_sorted τ)
  have ha' := (specs_perm σ τ hget).mem_iff.mp ha
  exact List.inj_on_of_nodup_map (hown.nodup_specs τ) ha' hb (le_antisymm hab hba)

/-- **A scope that is pushed and popped restores what it shadowed**: afterwards the registry is as
if only the scopes below had been registered in, so that it is what it was when none of them was.
While the scope is open, the top scope with a registration of a name decides about it. A pop of
another scope than the top, and a registration in a scope that is not there, change nothing. -/
theorem enclosed_restores (r : ScopedToolRegistry) (ops : List ScopeOp)
    (hpop : (r.enclosed ops).1 = true) :
    Restores (r.outerAfter ops) (r.enclosed ops).2 ∧
    ((∀ op ∈ ops, op.isOutward r.nextId = false) → Restores r (r.enclosed ops).2) ∧
    (∀ done, done <+: ops → ∀ name, (r.pushScope.2.after done).get name =
      ((r.pushScope.2.after done).ids.reverse.findSome? fun id =>
        r.pushScope.2.lastIn done id name).or (r.base.get name)) ∧
    ∀ now : ScopedToolRegistry,
      (∀ id, now.ids.getLast? ≠ some id → now.popScope id = (false, now)) ∧
      ∀ scope, scope ∉ now.ids → ∀ name tool,
        now.registerInScope scope tool = (.error tool, now) ∧
        now.registerArcInScope scope name tool = (.error (name, tool), now) := by
  obtain ⟨hlayers, hbase⟩ := (Encloses.after (r := r) ops).popped hpop
  have hrestored : Restores (r.outerAfter ops) (r.enclosed ops).2 :=
    restores_of_layers hlayers hbase
  refine ⟨hrestored, fun hinner => ?_, fun done _ name => ?_, fun now => ⟨fun id hid => ?_,
    fun scope hscope name tool => ?_⟩⟩
  · have houter : r.outerAfter ops = r := by
      rw [outerAfter, List.filter_eq_nil_iff.mpr fun op hop => by simp [hinner op hop]]
      rfl
    rwa [houter] at hrestored
  · exact r.pushScope.2.get_after done name
  · rw [ids, List.getLast?_map] at hid
    exact if_neg hid
  · have hnone : (now.layers.find? fun layer => layer.1 == scope) = none := by
      refine List.find?_eq_none.mpr fun layer hlayer hid => hscope ?_
      exact List.mem_map.mpr ⟨layer, hlayer, by simpa using hid⟩
    rw [registerInScope, registerArcInScope, hnone]
    exact ⟨rfl, rfl⟩

theorem search_restored : Restores (new ⟨[]⟩) ((new ⟨[]⟩).enclosed [.register 0 searchTool]).2 :=
  (enclosed_restores (new ⟨[]⟩) [.register 0 searchTool] (by decide)).2.1 (by decide)

/-- A tool that is registered in an outer scope meanwhile stays. -/
theorem outward_registration_stays :
    let outer := (new ⟨[]⟩).pushScope.2
    (outer.enclosed [.register 0 searchTool]).1 = true ∧
      ¬ Restores outer (outer.enclosed [.register 0 searchTool]).2 := by
  intro outer
  refine ⟨by decide, fun h => ?_⟩
  have hget := congrArg Option.isSome (h.get "search")
  revert hget
  decide

end ScopedToolRegistry

end Behest
