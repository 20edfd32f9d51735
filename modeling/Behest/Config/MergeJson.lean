import Behest.Json.Path

/-!
# The merge of configurations, path by path

`merge_json` lays one value over another (`behest/src/config/loader.rs`). What stands at a path
afterwards is what the base has there, the union of two objects, or what the overlay has there.
-/

namespace Behest

namespace Value

/-- The overlay has nothing at the path and only extends the objects that the path goes through. -/
def LeavesAlone (base overlay : Value) (p : List PathStep) : Prop :=
  overlay.get? p = none ∧ ∀ q, q <+: p → q ≠ p → (overlay.get? q).isSome →
    overlay.ObjectAt q ∧ base.ObjectAt q

/-- The overlay has a value at the path, and both are objects as far as the path goes. -/
def BothObjects (base overlay : Value) (p : List PathStep) : Prop :=
  (overlay.get? p).isSome ∧ ∀ q, q <+: p → base.ObjectAt q ∧ overlay.ObjectAt q

/-- What stands at a path after a merge, case by case. -/
structure MergedAt (base overlay result : Value) (p : List PathStep) : Prop where
  kept : LeavesAlone base overlay p → result.get? p = base.get? p
  joined : BothObjects base overlay p → ∃ b o fields,
    base.get? p = some (object b) ∧ overlay.get? p = some (object o) ∧
      result.get? p = some (object fields) ∧
        ∀ k, k ∈ fields.map Prod.fst ↔ k ∈ b.map Prod.fst ∨ k ∈ o.map Prod.fst
  replaced : ¬LeavesAlone base overlay p → ¬BothObjects base overlay p →
    result.get? p = overlay.get? p

/-- The prefixes of a path are the root and those of the rest, one step further. -/
theorem forall_prefix_cons {α : Type} {P : List α → Prop} {a : α} {l : List α} :
    (∀ q, q <+: a :: l → P q) ↔ P [] ∧ ∀ q, q <+: l → P (a :: q) := by
  simp only [List.prefix_cons_iff]
  constructor
  · intro h
    exact ⟨h [] (.inl rfl), fun q hq => h (a :: q) (.inr ⟨q, rfl, hq⟩)⟩
  · rintro ⟨hnil, hcons⟩ q (rfl | ⟨t, rfl, ht⟩)
    · exact hnil
    · exact hcons t ht

/-! ### One step down -/

section Step

variable {base overlay : List (String × Value)} {step : PathStep} {old value : Value}

/-- Below two objects only the two entries matter. -/
theorem leavesAlone_cons_iff (hbase : (object base).child step = some old)
    (hoverlay : (object overlay).child step = some value) (rest : List PathStep) :
    LeavesAlone (object base) (object overlay) (step :: rest) ↔ LeavesAlone old value rest := by
  unfold LeavesAlone
  rw [forall_prefix_cons]
  simp only [get?_cons_of_child hoverlay, objectAt_cons_of_child hbase,
    objectAt_cons_of_child hoverlay, objectAt_nil_object, ne_eq, List.cons.injEq, true_and,
    implies_true]

theorem bothObjects_cons_iff (hbase : (object base).child step = some old)
    (hoverlay : (object overlay).child step = some value) (rest : List PathStep) :
    BothObjects (object base) (object overlay) (step :: rest) ↔ BothObjects old value rest := by
  unfold BothObjects
  rw [forall_prefix_cons]
  simp only [get?_cons_of_child hoverlay, objectAt_cons_of_child hbase,
    objectAt_cons_of_child hoverlay, objectAt_nil_object, true_and]

/-- An overlay that has nothing one step down leaves alone what is there. -/
theorem leavesAlone_of_no_child (hoverlay : (object overlay).child step = none)
    (rest : List PathStep) : LeavesAlone (object base) (object overlay) (step :: rest) := by
  refine ⟨get?_cons_of_no_child hoverlay rest, forall_prefix_cons.mpr ⟨?_, ?_⟩⟩
  · intro _ _
    exact ⟨objectAt_nil_object overlay, objectAt_nil_object base⟩
  · intro q _ _ hsome
    rw [get?_cons_of_no_child hoverlay] at hsome
    cases hsome

end Step

/-! ### Any path -/

/-- What is left alone lies below two objects. -/
theorem objects_of_leavesAlone {base overlay : Value} {p : List PathStep}
    (h : LeavesAlone base overlay p) : overlay.ObjectAt [] ∧ base.ObjectAt [] := by
  cases p with
  | nil => cases h.1
  | cons step rest => exact h.2 [] List.nil_prefix (List.cons_ne_nil step rest).symm rfl

/-- A value that the base does not have is not left alone. -/
theorem not_leavesAlone_of_child {base overlay : Value} {step : PathStep} {value : Value}
    (hbase : base.child step = none) (hoverlay : overlay.child step = some value)
    (rest : List PathStep) : ¬LeavesAlone base overlay (step :: rest) := by
  intro h
  have hsome : (overlay.get? [step]).isSome := by
    rw [get?_cons_of_child hoverlay]
    rfl
  by_cases hrest : rest = []
  · subst hrest
    rw [h.1] at hsome
    cases hsome
  · have hprefix : [step] <+: step :: rest := List.cons_prefix_cons.mpr ⟨rfl, List.nil_prefix⟩
    have hobject := (h.2 [step] hprefix (by simpa using Ne.symm hrest) hsome).2
    rw [ObjectAt, get?_cons_of_no_child hbase] at hobject
    obtain ⟨fields, hfields⟩ := hobject
    cases hfields

/-- A merge that is not of two objects. -/
theorem mergedAt_of_not_objects {base overlay : Value}
    (h : ¬(overlay.ObjectAt [] ∧ base.ObjectAt [])) (p : List PathStep) :
    MergedAt base overlay (base.merge overlay) p := by
  have hmerge : base.merge overlay = overlay := by
    rw [objectAt_nil_iff, objectAt_nil_iff, not_and_or, Bool.not_eq_true, Bool.not_eq_true] at h
    rcases h with h | h
    · exact merge_of_overlay h base
    · exact merge_of_not_object h overlay
  rw [hmerge]
  exact ⟨fun hleaves => absurd (objects_of_leavesAlone hleaves) h,
    fun hboth => absurd (hboth.2 [] List.nil_prefix).symm h, fun _ _ => rfl⟩

/-- Two objects at the end of the path. -/
theorem mergedAt_nil {base overlay : List (String × Value)} (hunique : (object overlay).Unique) :
    MergedAt (object base) (object overlay) ((object base).merge (object overlay)) [] := by
  have hboth : BothObjects (object base) (object overlay) [] := by
    refine ⟨rfl, fun q hq => ?_⟩
    rw [List.prefix_nil.mp hq]
    exact ⟨objectAt_nil_object base, objectAt_nil_object overlay⟩
  refine ⟨fun hleaves => absurd hleaves.1 nofun, fun _ => ?_, fun _ h => absurd hboth h⟩
  refine ⟨base, overlay, mergeFields base overlay, rfl, rfl, ?_, fun k => ?_⟩
  · rw [get?_nil, merge]
  · exact mem_keys_mergeFields hunique.1 k

/-- One step down from two objects. -/
theorem mergedAt_cons {base overlay : List (String × Value)} (hunique : (object overlay).Unique)
    (step : PathStep) {rest : List PathStep}
    (ih : ∀ old value : Value, value.Unique → MergedAt old value (old.merge value) rest) :
    MergedAt (object base) (object overlay) ((object base).merge (object overlay))
      (step :: rest) := by
  have hchild : ((object base).merge (object overlay)).child step =
      mergeEntry ((object base).child step) ((object overlay).child step) :=
    child_merge hunique step
  cases hoverlay : (object overlay).child step with
  | none =>
    rw [hoverlay] at hchild
    refine ⟨fun _ => ?_, fun hboth => ?_, fun h => absurd (leavesAlone_of_no_child hoverlay rest) h⟩
    · rw [get?, get?, hchild, mergeEntry]
    · rw [BothObjects, get?_cons_of_no_child hoverlay] at hboth
      cases hboth.1
  | some value =>
    cases hbase : (object base).child step with
    | none =>
      rw [hoverlay, hbase] at hchild
      refine ⟨fun h => absurd h (not_leavesAlone_of_child hbase hoverlay rest), fun hboth => ?_,
        fun _ _ => ?_⟩
      · obtain ⟨fields, hfields⟩ := (hboth.2 _ List.prefix_rfl).1
        rw [get?_cons_of_no_child hbase] at hfields
        cases hfields
      · rw [get?, get?, hchild, hoverlay, mergeEntry]
    | some old =>
      rw [hoverlay, hbase, mergeEntry] at hchild
      obtain ⟨kept, joined, replaced⟩ := ih old value (hunique.child hoverlay)
      rw [← leavesAlone_cons_iff hbase hoverlay, ← bothObjects_cons_iff hbase hoverlay,
        ← get?_cons_of_child hchild, ← get?_cons_of_child hoverlay] at replaced
      rw [← leavesAlone_cons_iff hbase hoverlay, ← get?_cons_of_child hchild,
        ← get?_cons_of_child hbase] at kept
      rw [← bothObjects_cons_iff hbase hoverlay] at joined
      simp only [← get?_cons_of_child hchild, ← get?_cons_of_child hbase,
        ← get?_cons_of_child hoverlay] at joined
      exact ⟨kept, joined, replaced⟩

theorem mergedAt_merge {base overlay : Value} (hunique : overlay.Unique) (p : List PathStep) :
    MergedAt base overlay (base.merge overlay) p := by
  induction p generalizing base overlay with
  | nil =>
    by_cases hobjects : overlay.ObjectAt [] ∧ base.ObjectAt []
    · obtain ⟨⟨fields, hfields⟩, ⟨old, hold⟩⟩ := hobjects
      obtain rfl := Option.some.inj hfields
      obtain rfl := Option.some.inj hold
      exact mergedAt_nil hunique
    · exact mergedAt_of_not_objects hobjects []
  | cons step rest ih =>
    by_cases hobjects : overlay.ObjectAt [] ∧ base.ObjectAt []
    · obtain ⟨⟨fields, hfields⟩, ⟨old, hold⟩⟩ := hobjects
      obtain rfl := Option.some.inj hfields
      obtain rfl := Option.some.inj hold
      exact mergedAt_cons hunique step fun _ _ hvalue => ih hvalue
    · exact mergedAt_of_not_objects hobjects (step :: rest)

end Value

/-- Source: `config/loader.rs:257–273`. -/
def mergeJson (base overlay : Document) : Document :=
  ⟨base.value.merge overlay.value, base.unique.merge overlay.unique⟩

/-- What a merge leaves at a path: what the base has there, the union of two objects, or what the
overlay has. The same overlay a second time changes nothing. -/
theorem mergeJson_at (base overlay : Document) :
    (∀ p, Value.MergedAt base.value overlay.value (mergeJson base overlay).value p) ∧
      mergeJson (mergeJson base overlay) overlay = mergeJson base overlay := by
  constructor
  · intro p
    exact Value.mergedAt_merge overlay.unique p
  · simp only [mergeJson, Document.mk.injEq]
    exact Value.merge_merge_self base.unique overlay.unique

end Behest
