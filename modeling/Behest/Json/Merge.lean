import Mathlib.Data.List.Nodup
import Behest.Core.Value

/-!
# Merging JSON values

One value laid over another: objects are merged key by key, everything else is replaced. A
text function applied to every string of a value, but not to its keys, commutes with it.
-/

namespace Behest

namespace Value

/-- The value under a key that is there already. -/
def put (fields : List (String × Value)) (key : String) (value : Value) : List (String × Value) :=
  fields.map fun field => if field.1 = key then (key, value) else field

mutual

/-- An overlay over a base. -/
def merge : Value → Value → Value
  | object base, object overlay => object (mergeFields base overlay)
  | _, overlay => overlay

/-- The entries of an overlay, one after the other, over those of a base. -/
def mergeFields : List (String × Value) → List (String × Value) → List (String × Value)
  | base, [] => base
  | base, (key, value) :: rest =>
      match base.lookup key with
      | some old => mergeFields (put base key (merge old value)) rest
      | none => mergeFields (base ++ [(key, value)]) rest

end

mutual

/-- A text function applied to every string. -/
def mapStrings (f : String → String) : Value → Value
  | null => null
  | bool b => bool b
  | number literal => number literal
  | string s => string (f s)
  | array items => array (mapStringsItems f items)
  | object fields => object (mapStringsFields f fields)

def mapStringsItems (f : String → String) : List Value → List Value
  | [] => []
  | v :: rest => mapStrings f v :: mapStringsItems f rest

def mapStringsFields (f : String → String) : List (String × Value) → List (String × Value)
  | [] => []
  | (k, v) :: rest => (k, mapStrings f v) :: mapStringsFields f rest

end

mutual

/-- Every object has each of its keys once. -/
def Unique : Value → Prop
  | array items => UniqueItems items
  | object fields => (fields.map Prod.fst).Nodup ∧ UniqueFields fields
  | _ => True

def UniqueItems : List Value → Prop
  | [] => True
  | v :: rest => Unique v ∧ UniqueItems rest

def UniqueFields : List (String × Value) → Prop
  | [] => True
  | (_, v) :: rest => Unique v ∧ UniqueFields rest

end

theorem UniqueItems.of_mem : ∀ {items : List Value}, UniqueItems items →
    ∀ v ∈ items, v.Unique
  | v :: _, h, w, hw => by
    rcases List.mem_cons.mp hw with rfl | hw
    · exact h.1
    · exact UniqueItems.of_mem h.2 w hw

theorem UniqueFields.of_lookup : ∀ {fields : List (String × Value)}, UniqueFields fields →
    ∀ {k : String} {v : Value}, fields.lookup k = some v → v.Unique
  | (l, w) :: rest, h, k, v, hv => by
    rw [List.lookup_cons] at hv
    split at hv
    · cases hv
      exact h.1
    · exact UniqueFields.of_lookup h.2 hv

theorem lookup_cons_of_ne {k l : String} (h : k ≠ l) (v : Value) (rest : List (String × Value)) :
    ((l, v) :: rest).lookup k = rest.lookup k := by
  rw [List.lookup_cons, beq_eq_false_iff_ne.mpr h]

theorem lookup_put (fields : List (String × Value)) (key : String) (value : Value) (k : String) :
    (put fields key value).lookup k =
      if k = key then (fields.lookup key).map fun _ => value else fields.lookup k := by
  unfold put
  induction fields with
  | nil => simp
  | cons field rest ih =>
    obtain ⟨l, w⟩ := field
    rw [List.map_cons]
    by_cases hl : l = key
    · subst hl
      by_cases hk : k = l
      · subst hk
        simp
      · rw [if_neg hk] at ih
        rw [if_pos rfl, if_neg hk, lookup_cons_of_ne hk, lookup_cons_of_ne hk, ih]
    · rw [if_neg hl]
      by_cases hk : k = l
      · subst hk
        simp [hl]
      · rw [lookup_cons_of_ne hk, lookup_cons_of_ne hk, lookup_cons_of_ne (Ne.symm hl), ih]

/-- An overlay over a base where either may be missing. -/
@[simp] def mergeEntry : Option Value → Option Value → Option Value
  | base, none => base
  | none, some value => some value
  | some old, some value => some (merge old value)

/-- What stands under a key after a merge of objects. -/
theorem lookup_mergeFields (base overlay : List (String × Value))
    (hunique : (overlay.map Prod.fst).Nodup) (k : String) :
    (mergeFields base overlay).lookup k = mergeEntry (base.lookup k) (overlay.lookup k) := by
  induction overlay generalizing base with
  | nil => simp [mergeFields]
  | cons field rest ih =>
    obtain ⟨l, w⟩ := field
    rw [List.map_cons, List.nodup_cons] at hunique
    obtain ⟨hl, hrest⟩ := hunique
    have hnone : rest.lookup l = none := by
      rw [List.lookup_eq_none_iff]
      intro field hfield
      rw [bne_iff_ne]
      exact fun h => hl (List.mem_map.mpr ⟨field, hfield, h.symm⟩)
    by_cases hk : k = l
    · subst hk
      rw [mergeFields]
      cases hbase : base.lookup k with
      | none => simp [ih _ hrest, hnone, List.lookup_append, hbase]
      | some old => simp [ih _ hrest, hnone, lookup_put, hbase]
    · rw [mergeFields, lookup_cons_of_ne hk]
      cases base.lookup l with
      | none => simp [ih _ hrest, List.lookup_append, lookup_cons_of_ne hk]
      | some old => simp [ih _ hrest, lookup_put, hk]

theorem keys_put (fields : List (String × Value)) (key : String) (value : Value) :
    (put fields key value).map Prod.fst = fields.map Prod.fst := by
  rw [put, List.map_map]
  refine List.map_congr_left fun field _ => ?_
  rw [Function.comp_apply]
  split <;> simp_all

/-- Distinct keys stay distinct when entries are merged. -/
theorem nodup_mergeFields (base overlay : List (String × Value))
    (h : (base.map Prod.fst).Nodup) : ((mergeFields base overlay).map Prod.fst).Nodup := by
  induction overlay generalizing base with
  | nil => simpa [mergeFields] using h
  | cons field rest ih =>
    obtain ⟨k, v⟩ := field
    rw [mergeFields]
    cases hk : base.lookup k with
    | some old => exact ih _ (by rw [keys_put]; exact h)
    | none =>
      refine ih _ ?_
      rw [List.lookup_eq_none_iff] at hk
      rw [List.map_append, List.nodup_append]
      refine ⟨h, List.nodup_singleton _, fun l hl k' hk' => ?_⟩
      obtain ⟨field, hfield, rfl⟩ := List.mem_map.mp hl
      rw [List.map_singleton, List.mem_singleton] at hk'
      rw [hk']
      exact (bne_iff_ne.mp (hk field hfield)).symm

theorem lookup_mapStringsFields (f : String → String) (fields : List (String × Value))
    (k : String) :
    (mapStringsFields f fields).lookup k = (fields.lookup k).map (mapStrings f) := by
  induction fields with
  | nil => rfl
  | cons field rest ih =>
    obtain ⟨l, w⟩ := field
    rw [mapStringsFields, List.lookup_cons, List.lookup_cons, ih]
    split <;> rfl

theorem keys_mapStringsFields (f : String → String) (fields : List (String × Value)) :
    (mapStringsFields f fields).map Prod.fst = fields.map Prod.fst := by
  induction fields with
  | nil => rfl
  | cons field rest ih => simp [mapStringsFields, ih]

mutual

theorem Unique.mapStrings (f : String → String) : ∀ {v : Value}, v.Unique →
    (v.mapStrings f).Unique
  | null, _ | bool _, _ | number _, _ | string _, _ => trivial
  | array _, h => UniqueItems.mapStrings f h
  | object fields, h => ⟨by rw [keys_mapStringsFields]; exact h.1, UniqueFields.mapStrings f h.2⟩

theorem UniqueItems.mapStrings (f : String → String) : ∀ {items : List Value},
    UniqueItems items → UniqueItems (mapStringsItems f items)
  | [], _ => trivial
  | _ :: _, h => ⟨Unique.mapStrings f h.1, UniqueItems.mapStrings f h.2⟩

theorem UniqueFields.mapStrings (f : String → String) : ∀ {fields : List (String × Value)},
    UniqueFields fields → UniqueFields (mapStringsFields f fields)
  | [], _ => trivial
  | (_, _) :: _, h => ⟨Unique.mapStrings f h.1, UniqueFields.mapStrings f h.2⟩

end

theorem mapStringsFields_put (f : String → String) (fields : List (String × Value)) (key : String)
    (value : Value) : mapStringsFields f (put fields key value) =
      put (mapStringsFields f fields) key (value.mapStrings f) := by
  unfold put
  induction fields with
  | nil => rfl
  | cons field rest ih =>
    obtain ⟨l, w⟩ := field
    by_cases hl : l = key <;> simp [hl, mapStringsFields, ih]

theorem mapStringsFields_append (f : String → String) (fields rest : List (String × Value)) :
    mapStringsFields f (fields ++ rest) = mapStringsFields f fields ++ mapStringsFields f rest := by
  induction fields with
  | nil => rfl
  | cons field fields ih =>
    obtain ⟨l, w⟩ := field
    simp [mapStringsFields, ih]

mutual

/-- It is the same to map the strings before or after a merge. -/
theorem mapStrings_merge (f : String → String) : ∀ base overlay : Value,
    (base.merge overlay).mapStrings f = (base.mapStrings f).merge (overlay.mapStrings f)
  | object base, object overlay => by
    simp only [merge, mapStrings, mapStringsFields_merge]
  | object _, null | object _, bool _ | object _, number _ | object _, string _
  | object _, array _ => rfl
  | null, overlay | bool _, overlay | number _, overlay | string _, overlay
  | array _, overlay => by simp [merge, mapStrings]

theorem mapStringsFields_merge (f : String → String) : ∀ base overlay : List (String × Value),
    mapStringsFields f (mergeFields base overlay) =
      mergeFields (mapStringsFields f base) (mapStringsFields f overlay)
  | base, [] => by simp [mergeFields, mapStringsFields]
  | base, (key, value) :: rest => by
    rw [mapStringsFields, mergeFields, mergeFields, lookup_mapStringsFields]
    cases base.lookup key with
    | none =>
      simp only [Option.map_none]
      rw [mapStringsFields_merge f _ rest, mapStringsFields_append]
      rfl
    | some old =>
      simp only [Option.map_some]
      rw [mapStringsFields_merge f _ rest, mapStringsFields_put, mapStrings_merge f old value]

end

/-- Only two objects are merged. -/
theorem merge_of_not_object {base : Value} (h : base.isObject = false) (overlay : Value) :
    base.merge overlay = overlay := by
  cases base with
  | object fields => cases h
  | null | bool _ | number _ | string _ | array _ => simp [merge]

theorem merge_of_overlay {overlay : Value} (h : overlay.isObject = false) (base : Value) :
    base.merge overlay = overlay := by
  cases base <;> cases overlay <;> first | rfl | cases h

theorem merge_eq_null {base overlay : Value} (h : base.merge overlay = null) : overlay = null := by
  cases base <;> cases overlay <;> first | rfl | cases h

end Value

/-- A value as a parser gives it: the maps of `serde_json` hold a key once. -/
structure Document where
  value : Value
  unique : value.Unique

def Document.mapStrings (f : String → String) (d : Document) : Document :=
  ⟨d.value.mapStrings f, d.unique.mapStrings f⟩

end Behest
