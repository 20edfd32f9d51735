import Mathlib.Data.List.Perm.Basic
import Mathlib.Data.String.Basic
import Behest.Json.Path
import Behest.Runtime.DoomLoop
import Behest.Search.StableSort

/-!
# Arguments up to the order of keys

Two calls count as one when their arguments are the same after sorting the keys of every object.
That is so exactly when one can be had from the other by reordering the entries of objects.
-/

namespace Behest

/-! ### Equality up to order -/

mutual

/-- The same value up to the order of the entries of objects, at every depth. -/
inductive SameUpToKeys : Value → Value → Prop
  | null : SameUpToKeys .null .null
  | bool (b : Bool) : SameUpToKeys (.bool b) (.bool b)
  | number (literal : String) : SameUpToKeys (.number literal) (.number literal)
  | string (s : String) : SameUpToKeys (.string s) (.string s)
  | array {items others : List Value} : SameItems items others →
      SameUpToKeys (.array items) (.array others)
  | object {fields others reordered : List (String × Value)} : reordered.Perm others →
      SameEntries fields reordered → SameUpToKeys (.object fields) (.object others)

/-- Items in the same order. -/
inductive SameItems : List Value → List Value → Prop
  | nil : SameItems [] []
  | cons {v w : Value} {rest others : List Value} : SameUpToKeys v w → SameItems rest others →
      SameItems (v :: rest) (w :: others)

/-- Entries with the same keys in the same order. -/
inductive SameEntries : List (String × Value) → List (String × Value) → Prop
  | nil : SameEntries [] []
  | cons (k : String) {v w : Value} {rest others : List (String × Value)} : SameUpToKeys v w →
      SameEntries rest others → SameEntries ((k, v) :: rest) ((k, w) :: others)

end

namespace ToolCallFingerprint

open Value

/-! ### Sorted entries -/

/-- The entries of an object in the order of their keys. -/
def sortKeys (fields : List (String × Value)) : List (String × Value) :=
  fields.insertionSort fun a b => a.1 ≤ b.1

theorem sortKeys_perm (fields : List (String × Value)) : (sortKeys fields).Perm fields :=
  List.perm_insertionSort _ fields

theorem pairwise_sortKeys (fields : List (String × Value)) :
    (sortKeys fields).Pairwise fun a b => a.1 ≤ b.1 :=
  pairwise_insertionSort_key fields

theorem sortKeys_eq_of_perm {fields others : List (String × Value)} (h : fields.Perm others)
    (hkeys : (others.map Prod.fst).Nodup) : sortKeys fields = sortKeys others := by
  have hperm : (sortKeys fields).Perm (sortKeys others) :=
    (sortKeys_perm fields).trans (h.trans (sortKeys_perm others).symm)
  refine eq_of_perm_of_sorted hperm ?_ (pairwise_sortKeys fields) (pairwise_sortKeys others)
  exact ((sortKeys_perm others).map Prod.fst).nodup_iff.mpr hkeys

theorem canonicalizeFields_eq_map (fields : List (String × Value)) :
    canonicalizeFields fields = fields.map fun field => (field.1, canonicalize field.2) := by
  induction fields with
  | nil => rfl
  | cons field rest ih =>
    obtain ⟨k, v⟩ := field
    rw [canonicalizeFields, ih, List.map_cons]

theorem canonicalize_object (fields : List (String × Value)) :
    canonicalize (.object fields) = .object (sortKeys (canonicalizeFields fields)) := by
  rw [canonicalize, sortKeys]

theorem keys_canonicalizeFields (fields : List (String × Value)) :
    (canonicalizeFields fields).map Prod.fst = fields.map Prod.fst := by
  rw [canonicalizeFields_eq_map, List.map_map]
  rfl

theorem canonicalizeFields_perm {fields others : List (String × Value)} (h : fields.Perm others) :
    (canonicalizeFields fields).Perm (canonicalizeFields others) := by
  rw [canonicalizeFields_eq_map, canonicalizeFields_eq_map]
  exact h.map _

/-- A reordering of canonical entries comes from a reordering of the entries. -/
theorem exists_reordered {canonical fields : List (String × Value)}
    (h : canonical.Perm (canonicalizeFields fields)) :
    ∃ reordered, reordered.Perm fields ∧ canonical = canonicalizeFields reordered := by
  rw [canonicalizeFields_eq_map] at h
  have hcomp := congrFun (congrFun
    (List.eq_map_comp_perm fun field : String × Value => (field.1, canonicalize field.2))
      canonical) fields
  obtain ⟨reordered, heq, hperm⟩ := hcomp.mpr h
  exact ⟨reordered, hperm, by rw [heq, canonicalizeFields_eq_map]⟩

/-- Entries are the same as their canonical forms when their values are. -/
theorem sameEntries_of_forall {fields : List (String × Value)}
    (h : ∀ field ∈ fields, SameUpToKeys (canonicalize field.2) field.2) :
    SameEntries (canonicalizeFields fields) fields := by
  induction fields with
  | nil => exact .nil
  | cons field rest ih =>
    obtain ⟨k, v⟩ := field
    exact .cons k (h (k, v) (.head _)) (ih fun field hmem => h field (.tail _ hmem))

/-! ### Canonical values and order -/

mutual

/-- Sorting the keys leaves the value the same up to their order. -/
theorem canonicalize_same : ∀ v : Value, SameUpToKeys (canonicalize v) v
  | .null => .null
  | .bool b => .bool b
  | .number literal => .number literal
  | .string s => .string s
  | .array items => .array (canonicalizeItems_same items)
  | .object fields => by
    obtain ⟨reordered, hperm, heq⟩ := exists_reordered (sortKeys_perm (canonicalizeFields fields))
    rw [canonicalize_object, heq]
    refine .object hperm (sameEntries_of_forall fun field hmem => ?_)
    exact canonicalizeFields_same fields field (hperm.mem_iff.mp hmem)

theorem canonicalizeItems_same : ∀ items : List Value, SameItems (canonicalizeItems items) items
  | [] => .nil
  | v :: rest => .cons (canonicalize_same v) (canonicalizeItems_same rest)

theorem canonicalizeFields_same : ∀ fields : List (String × Value), ∀ field ∈ fields,
    SameUpToKeys (canonicalize field.2) field.2
  | (_, v) :: rest, field, hmem => by
    rcases List.mem_cons.mp hmem with rfl | hmem
    · exact canonicalize_same v
    · exact canonicalizeFields_same rest field hmem

end

mutual

/-- Values with the same canonical form are the same up to the order of keys. -/
theorem same_of_canonicalize_eq : ∀ {a b : Value}, canonicalize a = canonicalize b →
    SameUpToKeys a b
  | .null, b, h => by
    cases b <;> cases h
    exact .null
  | .bool x, b, h => by
    cases b <;> cases h
    exact .bool x
  | .number literal, b, h => by
    cases b <;> cases h
    exact .number literal
  | .string s, b, h => by
    cases b <;> cases h
    exact .string s
  | .array items, b, h => by
    cases b with
    | array others => exact .array (sameItems_of_canonicalize_eq (Value.array.inj h))
    | _ => cases h
  | .object fields, b, h => by
    cases b with
    | object others =>
      rw [canonicalize_object, canonicalize_object] at h
      have hsorted := Value.object.inj h
      have hperm : (canonicalizeFields fields).Perm (canonicalizeFields others) :=
        (sortKeys_perm _).symm.trans (hsorted ▸ sortKeys_perm _)
      obtain ⟨reordered, hreordered, heq⟩ := exists_reordered hperm
      exact .object hreordered (sameEntries_of_canonicalize_eq heq)
    | _ => cases h

theorem sameItems_of_canonicalize_eq : ∀ {items others : List Value},
    canonicalizeItems items = canonicalizeItems others → SameItems items others
  | [], [], _ => .nil
  | _ :: _, _ :: _, h =>
    .cons (same_of_canonicalize_eq (List.cons.inj h).1)
      (sameItems_of_canonicalize_eq (List.cons.inj h).2)

theorem sameEntries_of_canonicalize_eq : ∀ {fields others : List (String × Value)},
    canonicalizeFields fields = canonicalizeFields others → SameEntries fields others
  | [], [], _ => .nil
  | (k, v) :: rest, (l, w) :: others, h => by
    obtain ⟨hfield, hrest⟩ := List.cons.inj h
    obtain ⟨rfl, hvalue⟩ := Prod.mk.inj hfield
    exact .cons k (same_of_canonicalize_eq hvalue) (sameEntries_of_canonicalize_eq hrest)

end

theorem uniqueFields_of_perm {fields others : List (String × Value)} (hperm : fields.Perm others)
    (h : UniqueFields others) : UniqueFields fields := by
  rw [uniqueFields_iff] at h ⊢
  exact fun field hmem => h field (hperm.mem_iff.mp hmem)

mutual

/-- Distinct keys make the canonical form independent of their order. -/
theorem canonicalize_eq_of_same : ∀ {a b : Value}, SameUpToKeys a b → b.Unique →
    canonicalize a = canonicalize b
  | _, _, .null, _ | _, _, .bool _, _ | _, _, .number _, _ | _, _, .string _, _ => rfl
  | _, _, .array hitems, h => congrArg Value.array (canonicalizeItems_eq_of_same hitems h)
  | .object fields, .object others, .object hperm hentries, h => by
    have heq := canonicalizeFields_eq_of_same hentries (uniqueFields_of_perm hperm h.2)
    have hkeys : ((canonicalizeFields others).map Prod.fst).Nodup := by
      rw [keys_canonicalizeFields]
      exact h.1
    rw [canonicalize_object, canonicalize_object, heq,
      sortKeys_eq_of_perm (canonicalizeFields_perm hperm) hkeys]

theorem canonicalizeItems_eq_of_same : ∀ {items others : List Value}, SameItems items others →
    UniqueItems others → canonicalizeItems items = canonicalizeItems others
  | _, _, .nil, _ => rfl
  | _, _, .cons hv hrest, h => by
    rw [canonicalizeItems, canonicalizeItems, canonicalize_eq_of_same hv h.1,
      canonicalizeItems_eq_of_same hrest h.2]

theorem canonicalizeFields_eq_of_same : ∀ {fields others : List (String × Value)},
    SameEntries fields others → UniqueFields others →
    canonicalizeFields fields = canonicalizeFields others
  | _, _, .nil, _ => rfl
  | _, _, .cons k hv hrest, h => by
    rw [canonicalizeFields, canonicalizeFields, canonicalize_eq_of_same hv h.1,
      canonicalizeFields_eq_of_same hrest h.2]

end

/-- Canonical forms are equal exactly when the values are the same up to the order of keys, and a
canonical form is its own. -/
theorem canonicalize_eq_iff (a b : Document) :
    (canonicalize a.value = canonicalize b.value ↔ SameUpToKeys a.value b.value) ∧
      canonicalize (canonicalize a.value) = canonicalize a.value :=
  ⟨⟨same_of_canonicalize_eq, fun h => canonicalize_eq_of_same h b.unique⟩,
    canonicalize_eq_of_same (canonicalize_same a.value) a.unique⟩

end ToolCallFingerprint

end Behest
