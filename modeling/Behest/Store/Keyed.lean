import Mathlib.Data.List.Induction
import Mathlib.Data.List.Nodup

/-!
# Maps of records under their own keys

A hash map whose values carry their key: at most one record for each key. The order of the
records is the order in which the map is read, about which nothing is said.
-/

/-- The records of a map, each under the key it carries. -/
structure Keyed {α κ : Type} (key : α → κ) where
  records : List α
  nodup : (records.map key).Nodup

namespace Keyed

variable {α κ : Type} {key : α → κ}

def empty : Keyed key := ⟨[], .nil⟩

/-- The records that pass a test. -/
def retain (m : Keyed key) (p : α → Bool) : Keyed key where
  records := m.records.filter p
  nodup := m.nodup.sublist (List.filter_sublist.map key)

@[simp] theorem records_retain (m : Keyed key) (p : α → Bool) :
    (m.retain p).records = m.records.filter p := rfl

/-- What passed a test passes it again. -/
theorem retain_retain_self (m : Keyed key) (p : α → Bool) :
    (m.retain p).retain p = m.retain p := by
  unfold retain
  congr 1
  rw [List.filter_filter]
  simp only [Bool.and_self]

variable [DecidableEq κ]

/-- The record under a key. -/
def get (m : Keyed key) (k : κ) : Option α := m.records.find? fun a => key a == k

/-- The map without a key. -/
def remove (m : Keyed key) (k : κ) : Keyed key := m.retain fun a => key a != k

/-- A record replaces the one under its key. -/
def insert (m : Keyed key) (a : α) : Keyed key where
  records := (m.remove (key a)).records ++ [a]
  nodup := by
    rw [List.map_append, List.map_singleton, List.nodup_append]
    refine ⟨(m.remove (key a)).nodup, List.nodup_singleton _, ?_⟩
    intro k hk k' hk'
    obtain ⟨b, hb, rfl⟩ := List.mem_map.mp hk
    rw [List.mem_singleton.mp hk']
    simpa [remove] using (List.mem_filter.mp hb).2

theorem get_mem {m : Keyed key} {k : κ} {a : α} (h : m.get k = some a) :
    a ∈ m.records ∧ key a = k :=
  ⟨List.mem_of_find?_eq_some h, by simpa using List.find?_some h⟩

/-- A map holds exactly the records it is found to hold. -/
theorem get_eq_some_iff {m : Keyed key} {k : κ} {a : α} :
    m.get k = some a ↔ a ∈ m.records ∧ key a = k := by
  refine ⟨get_mem, fun ⟨ha, hk⟩ => ?_⟩
  cases h : m.get k with
  | none =>
    have hnone := List.find?_eq_none.mp h a ha
    simp [hk] at hnone
  | some b =>
    obtain ⟨hb, hbk⟩ := get_mem h
    rw [List.inj_on_of_nodup_map m.nodup hb ha (hbk.trans hk.symm)]

theorem mem_insert {m : Keyed key} {a b : α} :
    b ∈ (m.insert a).records ↔ b ∈ m.records ∧ key b ≠ key a ∨ b = a := by
  simp [insert, remove]

theorem get_insert (m : Keyed key) (a : α) (k : κ) :
    (m.insert a).get k = if key a = k then some a else m.get k := by
  ext b
  rw [get_eq_some_iff, mem_insert]
  split
  · next h =>
    subst h
    simp only [Option.some.injEq]
    constructor
    · rintro ⟨⟨-, hne⟩ | rfl, hb⟩
      · exact absurd hb hne
      · rfl
    · rintro rfl
      exact ⟨.inr rfl, rfl⟩
  · next h =>
    rw [get_eq_some_iff]
    constructor
    · rintro ⟨⟨hb, -⟩ | rfl, hk⟩
      · exact ⟨hb, hk⟩
      · exact absurd hk h
    · rintro ⟨hb, rfl⟩
      exact ⟨.inl ⟨hb, Ne.symm h⟩, rfl⟩

/-- Inserting one after the other, the last one with a key stays. -/
theorem get_foldl_insert {β : Type} (f : β → α)
    (l : List β) (k : κ) :
    (l.foldl (fun m b => m.insert (f b)) (empty : Keyed key)).get k =
      ((l.filter fun b => key (f b) = k).getLast?).map f := by
  induction l using List.reverseRecOn with
  | nil => rfl
  | append_singleton init last ih =>
    rw [List.foldl_append, List.filter_append, List.foldl_cons, List.foldl_nil, get_insert, ih]
    by_cases h : key (f last) = k <;> simp [h]

theorem get_remove_of_ne (m : Keyed key) {k k' : κ} (h : k' ≠ k) :
    (m.remove k).get k' = m.get k' := by
  ext b
  rw [get_eq_some_iff, get_eq_some_iff, remove, records_retain, List.mem_filter]
  constructor
  · rintro ⟨⟨hb, -⟩, hk⟩
    exact ⟨hb, hk⟩
  · rintro ⟨hb, rfl⟩
    exact ⟨⟨hb, by simpa using h⟩, rfl⟩

/-- The records under a key are the one that is found there. -/
theorem filter_key_eq (m : Keyed key) (k : κ) :
    (m.records.filter fun a => key a == k) = (m.get k).toList := by
  obtain ⟨records, hnodup⟩ := m
  unfold get
  induction records with
  | nil => rfl
  | cons a rest ih =>
    obtain ⟨ha, hrest⟩ := List.nodup_cons.mp hnodup
    by_cases hk : key a = k
    · have hnone : (rest.filter fun b => key b == k) = [] := by
        refine List.filter_eq_nil_iff.mpr fun b hb hbk => ha ?_
        exact List.mem_map.mpr ⟨b, hb, (eq_of_beq hbk).trans hk.symm⟩
      simp [hk, hnone]
    · simpa [hk] using ih hrest

/-- Without a key, the record there counts no longer. -/
theorem countP_remove_add (m : Keyed key) (k : κ) (p : α → Bool) :
    (m.remove k).records.countP p + (m.get k).toList.countP p = m.records.countP p := by
  rw [← filter_key_eq, remove, records_retain, Nat.add_comm]
  exact (List.countP_eq_countP_filter_add m.records p fun a => key a == k).symm

@[simp] theorem get_remove_self (m : Keyed key) (k : κ) : (m.remove k).get k = none := by
  unfold get remove
  rw [List.find?_eq_none]
  intro a ha
  simpa using (List.mem_filter.mp ha).2

end Keyed
