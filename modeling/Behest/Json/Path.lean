import Behest.Json.Merge

/-!
# Paths into JSON values

Paths of keys and indices, what stands at a path, and how a merge of two values is seen along
paths: entry by entry, as long as both values are objects.
-/

namespace Behest

/-- A step into an object or into an array. -/
inductive PathStep where
  | key (k : String)
  | index (i : Nat)
deriving DecidableEq

namespace Value

/-- The value one step down. -/
def child : Value → PathStep → Option Value
  | object fields, .key k => fields.lookup k
  | array items, .index i => items[i]?
  | _, _ => none

/-- The value at a path. -/
def get? (v : Value) : List PathStep → Option Value
  | [] => some v
  | step :: rest => (v.child step).bind fun w => w.get? rest

/-- There is an object at a path. -/
def ObjectAt (v : Value) (p : List PathStep) : Prop := ∃ fields, v.get? p = some (object fields)

@[simp] theorem get?_nil (v : Value) : v.get? [] = some v := rfl

theorem get?_cons_of_child {v w : Value} {step : PathStep} (h : v.child step = some w)
    (rest : List PathStep) : v.get? (step :: rest) = w.get? rest := by
  rw [get?, h, Option.bind_some]

theorem get?_cons_of_no_child {v : Value} {step : PathStep} (h : v.child step = none)
    (rest : List PathStep) : v.get? (step :: rest) = none := by
  rw [get?, h, Option.bind_none]

theorem ObjectAt.isSome {v : Value} {p : List PathStep} (h : v.ObjectAt p) :
    (v.get? p).isSome := by
  obtain ⟨fields, h⟩ := h
  rw [h]
  rfl

theorem objectAt_cons_of_child {v w : Value} {step : PathStep} (h : v.child step = some w)
    (rest : List PathStep) : v.ObjectAt (step :: rest) ↔ w.ObjectAt rest := by
  rw [ObjectAt, ObjectAt, get?_cons_of_child h]

theorem objectAt_nil_object (fields : List (String × Value)) : (object fields).ObjectAt [] :=
  ⟨fields, rfl⟩

theorem objectAt_nil_iff {v : Value} : v.ObjectAt [] ↔ v.isObject = true := by
  cases v <;> simp [ObjectAt, isObject]

theorem mem_keys_iff {fields : List (String × Value)} {k : String} :
    k ∈ fields.map Prod.fst ↔ (fields.lookup k).isSome := by
  induction fields with
  | nil => simp
  | cons field rest ih =>
    obtain ⟨l, w⟩ := field
    by_cases h : k = l
    · subst h
      simp
    · rw [lookup_cons_of_ne h, ← ih]
      simp [h]

/-! ### Merges keep keys apart -/

theorem uniqueFields_iff {fields : List (String × Value)} :
    UniqueFields fields ↔ ∀ field ∈ fields, field.2.Unique := by
  induction fields with
  | nil => simp [UniqueFields]
  | cons field rest ih =>
    obtain ⟨k, v⟩ := field
    simp [UniqueFields, ih]

theorem UniqueFields.put {fields : List (String × Value)} (h : UniqueFields fields) (key : String)
    {value : Value} (hvalue : value.Unique) : UniqueFields (put fields key value) := by
  rw [uniqueFields_iff] at h ⊢
  intro field hmem
  obtain ⟨old, hold, rfl⟩ := List.mem_map.mp hmem
  split
  · exact hvalue
  · exact h old hold

theorem UniqueFields.concat {fields : List (String × Value)} (h : UniqueFields fields)
    (key : String) {value : Value} (hvalue : value.Unique) :
    UniqueFields (fields ++ [(key, value)]) := by
  rw [uniqueFields_iff] at h ⊢
  intro field hmem
  rcases List.mem_append.mp hmem with hmem | hmem
  · exact h field hmem
  · obtain rfl := List.mem_singleton.mp hmem
    exact hvalue

mutual

theorem Unique.merge : ∀ {base overlay : Value}, base.Unique → overlay.Unique →
    (base.merge overlay).Unique
  | object base, object overlay, hbase, hoverlay =>
    ⟨nodup_mergeFields base overlay hbase.1, UniqueFields.merge hbase.2 hoverlay.2⟩
  | object _, null, _, h | object _, bool _, _, h | object _, number _, _, h
  | object _, string _, _, h | object _, array _, _, h => h
  | null, _, _, h | bool _, _, _, h | number _, _, _, h | string _, _, _, h
  | array _, _, _, h => by rwa [merge_of_not_object rfl]

theorem UniqueFields.merge : ∀ {base overlay : List (String × Value)}, UniqueFields base →
    UniqueFields overlay → UniqueFields (mergeFields base overlay)
  | _, [], hbase, _ => by rwa [mergeFields]
  | base, (key, value) :: rest, hbase, hoverlay => by
    rw [mergeFields]
    cases hkey : base.lookup key with
    | none => exact UniqueFields.merge (hbase.concat key hoverlay.1) hoverlay.2
    | some old =>
      have hold : old.Unique := hbase.of_lookup hkey
      exact UniqueFields.merge (hbase.put key (Unique.merge hold hoverlay.1)) hoverlay.2

end

/-! ### A merge a second time -/

theorem put_lookup_self {fields : List (String × Value)} (hkeys : (fields.map Prod.fst).Nodup)
    {key : String} {value : Value} (h : fields.lookup key = some value) :
    put fields key value = fields := by
  unfold put
  induction fields with
  | nil => rfl
  | cons field rest ih =>
    obtain ⟨l, w⟩ := field
    rw [List.map_cons, List.nodup_cons] at hkeys
    rw [List.map_cons]
    by_cases hl : l = key
    · subst hl
      rw [List.lookup_cons_self] at h
      obtain rfl := Option.some.inj h
      have hrest : ∀ field ∈ rest, field.1 ≠ l := fun field hmem heq =>
        hkeys.1 (List.mem_map.mpr ⟨field, hmem, heq⟩)
      rw [if_pos rfl, List.map_congr_left fun field hmem => if_neg (hrest field hmem),
        List.map_id']
    · rw [lookup_cons_of_ne (Ne.symm hl)] at h
      rw [if_neg hl, ih hkeys.2 h]

/-- Entries that are taken over already change nothing. -/
theorem mergeFields_absorb {result overlay : List (String × Value)}
    (hkeys : (result.map Prod.fst).Nodup)
    (h : ∀ field ∈ overlay, ∃ value, result.lookup field.1 = some value ∧
      value.merge field.2 = value) :
    mergeFields result overlay = result := by
  induction overlay with
  | nil => rw [mergeFields]
  | cons field rest ih =>
    obtain ⟨value, hvalue, hmerge⟩ := h field (.head _)
    rw [mergeFields, hvalue]
    dsimp only
    rw [hmerge, put_lookup_self hkeys hvalue]
    exact ih fun field hmem => h field (.tail _ hmem)

theorem lookup_of_mem {fields : List (String × Value)} (hkeys : (fields.map Prod.fst).Nodup)
    {key : String} {value : Value} (h : (key, value) ∈ fields) :
    fields.lookup key = some value := by
  induction fields with
  | nil => cases h
  | cons field rest ih =>
    rw [List.map_cons, List.nodup_cons] at hkeys
    rcases List.mem_cons.mp h with rfl | hrest
    · exact List.lookup_cons_self
    · have hne : key ≠ field.1 := fun heq =>
        hkeys.1 (heq ▸ List.mem_map.mpr ⟨(key, value), hrest, rfl⟩)
      rw [← ih hkeys.2 hrest]
      exact lookup_cons_of_ne hne _ _

mutual

/-- The second merge with the same overlay has no effect. -/
theorem merge_merge_self : ∀ {base overlay : Value}, base.Unique → overlay.Unique →
    (base.merge overlay).merge overlay = base.merge overlay
  | base, object overlay, hbase, hoverlay => by
    have hentry := merge_merge_entries hoverlay.2
    have hself : ∀ field ∈ overlay, field.2.merge field.2 = field.2 := by
      intro field hmem
      have hnull : null.merge field.2 = field.2 := merge_of_not_object rfl field.2
      calc field.2.merge field.2
        _ = (null.merge field.2).merge field.2 := by rw [hnull]
        _ = null.merge field.2 := hentry field hmem null trivial
        _ = field.2 := hnull
    cases hobject : base.isObject with
    | false =>
      rw [merge_of_not_object hobject, merge, mergeFields_absorb hoverlay.1]
      intro field hmem
      exact ⟨field.2, lookup_of_mem hoverlay.1 hmem, hself field hmem⟩
    | true =>
      obtain ⟨fields, hfields⟩ := objectAt_nil_iff.mpr hobject
      obtain rfl := Option.some.inj hfields
      rw [merge, merge, mergeFields_absorb (nodup_mergeFields fields overlay hbase.1)]
      intro field hmem
      rw [lookup_mergeFields fields overlay hoverlay.1, lookup_of_mem hoverlay.1 hmem]
      cases hkey : fields.lookup field.1 with
      | none => exact ⟨field.2, rfl, hself field hmem⟩
      | some old => exact ⟨_, rfl, hentry field hmem old (hbase.2.of_lookup hkey)⟩
  | _, null, _, _ | _, bool _, _, _ | _, number _, _, _ | _, string _, _, _
  | _, array _, _, _ => by rw [merge_of_overlay rfl, merge_of_overlay rfl]

theorem merge_merge_entries : ∀ {overlay : List (String × Value)}, UniqueFields overlay →
    ∀ field ∈ overlay, ∀ base : Value, base.Unique →
      (base.merge field.2).merge field.2 = base.merge field.2
  | (_, _) :: _, h, field, hmem, base, hbase => by
    rcases List.mem_cons.mp hmem with rfl | hmem
    · exact merge_merge_self hbase h.1
    · exact merge_merge_entries h.2 field hmem base hbase

end

/-! ### A merge along a path -/

/-- One step into a merge of two objects. -/
theorem child_merge {base overlay : List (String × Value)} (h : (object overlay).Unique)
    (step : PathStep) : ((object base).merge (object overlay)).child step =
      mergeEntry ((object base).child step) ((object overlay).child step) := by
  rw [merge]
  cases step with
  | key k => exact lookup_mergeFields base overlay h.1 k
  | index i => rfl

/-- The keys of two merged objects are the keys of both. -/
theorem mem_keys_mergeFields {base overlay : List (String × Value)}
    (h : (overlay.map Prod.fst).Nodup) (k : String) :
    k ∈ (mergeFields base overlay).map Prod.fst ↔
      k ∈ base.map Prod.fst ∨ k ∈ overlay.map Prod.fst := by
  rw [mem_keys_iff, mem_keys_iff, mem_keys_iff, lookup_mergeFields base overlay h]
  cases base.lookup k <;> cases overlay.lookup k <;> simp

theorem Unique.child {v w : Value} (h : v.Unique) {step : PathStep}
    (hchild : v.child step = some w) : w.Unique := by
  cases v with
  | object fields =>
    cases step with
    | key k => exact h.2.of_lookup hchild
    | index i => cases hchild
  | array items =>
    cases step with
    | key k => cases hchild
    | index i => exact h.of_mem w (List.mem_of_getElem? hchild)
  | _ => cases hchild

end Value

end Behest
