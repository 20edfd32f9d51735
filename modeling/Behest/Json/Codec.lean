import Mathlib.Algebra.GroupWithZero.Nat
import Mathlib.Data.List.Basic
import Mathlib.Logic.Equiv.Defs
import Behest.Json.Merge
import Behest.Store.Keyed

/-!
# Codecs

A type with the JSON value that each of its values is written as, the values it is read from,
and what becomes of a value when a text function is applied to the strings of its JSON. What is
written is read again. The codecs of records are put together from those of their fields, in
the way of a derived `Serialize` and `Deserialize`.
-/

namespace Behest

/-- The number that a literal of decimal digits stands for. -/
def decimal (literal : String) : Option Nat :=
  if literal.toList ≠ [] ∧ literal.toList.all Char.isDigit then
    some (Nat.ofDigitChars 10 literal.toList 0)
  else none

theorem decimal_toString (n : Nat) : decimal (toString n) = some n := by
  have hdigits : (toString n).toList = Nat.toDigits 10 n := Nat.toList_repr
  unfold decimal
  rw [hdigits, Nat.ofDigitChars_ten_toDigits, if_pos]
  refine ⟨Nat.toDigits_ne_nil, List.all_eq_true.mpr fun c hc => ?_⟩
  exact Nat.isDigit_of_mem_toDigits (by omega) (by omega) hc

/-- How a type is written and read; `f` is applied to strings. -/
structure Codec (f : String → String) (α : Type) where
  write : α → Value
  read : Value → Option α
  resolve : α → α
  read_write : ∀ a, read (write a) = some a
  mapStrings_write : ∀ a, (write a).mapStrings f = write (resolve a)

namespace Codec

variable {f : String → String} {α β : Type}

def bool : Codec f Bool where
  write := .bool
  read
    | .bool b => some b
    | _ => none
  resolve := id
  read_write _ := rfl
  mapStrings_write _ := rfl

/-- An unsigned integer of 64 bits. Signs, fractions and exponents are refused. -/
def u64 : Codec f UInt64 where
  write n := .number (toString n.toNat)
  read
    | .number literal => (decimal literal).bind fun n =>
        if n < 2 ^ 64 then some (UInt64.ofNat n) else none
    | _ => none
  resolve := id
  read_write n := by
    simp only [decimal_toString, Option.bind_some]
    rw [if_pos n.toNat_lt, UInt64.ofNat_toNat]
  mapStrings_write _ := rfl

def string : Codec f String where
  write := .string
  read
    | .string s => some s
    | _ => none
  resolve := f
  read_write _ := rfl
  mapStrings_write _ := rfl

/-- A JSON value as it is. -/
def any : Codec f Value where
  write := id
  read := some
  resolve := Value.mapStrings f
  read_write _ := rfl
  mapStrings_write _ := rfl

/-- A variant without fields: its name, or an object with nothing under its name. -/
def variant (name : α → String) (ofName : String → Option α)
    (hname : ∀ a, ofName (name a) = some a) (hf : ∀ a, f (name a) = name a) : Codec f α where
  write a := .string (name a)
  read
    | .string s => ofName s
    | .object [(s, .null)] => ofName s
    | _ => none
  resolve := id
  read_write := hname
  mapStrings_write a := by simp [Value.mapStrings, hf]

/-- Nothing is written as `null`, which nothing else is written as. -/
def nullable (c : Codec f α) (hnull : ∀ a, c.write a ≠ .null) : Codec f (Option α) where
  write
    | none => .null
    | some a => c.write a
  read
    | .null => some none
    | v => (c.read v).map some
  resolve := Option.map c.resolve
  read_write a := by
    cases a with
    | none => rfl
    | some a =>
      have hread := c.read_write a
      have hnot := hnull a
      cases hv : c.write a <;> simp_all
  mapStrings_write a := by
    cases a with
    | none => rfl
    | some a => exact c.mapStrings_write a

theorem read_nullable {c : Codec f α} {hnull : ∀ a, c.write a ≠ .null} {v : Value}
    (h : v ≠ .null) : (c.nullable hnull).read v = (c.read v).map some := by
  cases v with
  | null => exact absurd rfl h
  | bool _ | number _ | string _ | array _ | object _ => rfl

/-- The items of an array, one by one. -/
def list (c : Codec f α) : Codec f (List α) where
  write as := .array (as.map c.write)
  read
    | .array items => items.mapM c.read
    | _ => none
  resolve := List.map c.resolve
  read_write as := by
    induction as with
    | nil => rfl
    | cons a rest ih =>
      simp only [List.map_cons, List.mapM_cons, c.read_write] at ih ⊢
      simp [ih]
  mapStrings_write as := by
    simp only [Value.mapStrings, Value.array.injEq]
    induction as with
    | nil => rfl
    | cons a rest ih => simp [Value.mapStringsItems, c.mapStrings_write, ih]

end Codec

/-- Values under distinct names. -/
abbrev Dict (α : Type) := Keyed (Prod.fst : String × α → String)

namespace Dict

variable {α β : Type}

def mapValues (g : α → β) (m : Dict α) : Dict β where
  records := m.records.map fun entry => (entry.1, g entry.2)
  nodup := by simpa [Function.comp_def] using m.nodup

/-- The value under a name. -/
def value (m : Dict α) (k : String) : Option α := (m.get k).map (·.2)

/-- The entries of an object are inserted one by one. -/
def ofEntries (read : Value → Option α) (m : Dict α) (entries : List (String × Value)) :
    Option (Dict α) :=
  entries.foldlM (fun m entry => (read entry.2).map fun a => m.insert (entry.1, a)) m

/-- Distinct entries that are inserted are all there, in their order. -/
theorem ofEntries_map {read : Value → Option α} {write : α → Value}
    (hread : ∀ a, read (write a) = some a) (l : List (String × α))
    (h : (l.map Prod.fst).Nodup) :
    ofEntries read .empty (l.map fun entry => (entry.1, write entry.2)) = some ⟨l, h⟩ := by
  induction l using List.reverseRecOn with
  | nil => rfl
  | append_singleton init last ih =>
    rw [List.map_append, List.nodup_append] at h
    obtain ⟨hinit, -, hlast⟩ := h
    unfold ofEntries at ih ⊢
    rw [List.map_append, List.foldlM_append, ih hinit]
    simp only [List.map_cons, List.map_nil, List.foldlM_cons, List.foldlM_nil, hread,
      Option.map_some, Option.bind_eq_bind, Option.bind_some]
    have hkept : (init.filter fun entry => entry.1 != last.1) = init := by
      rw [List.filter_eq_self]
      intro entry hentry
      simpa using hlast _ (List.mem_map_of_mem hentry) last.1 (by simp)
    simp [Keyed.insert, Keyed.remove, Keyed.retain, hkept]

/-- What stands under a name after the entries of an object were inserted. -/
theorem value_ofEntries {read : Value → Option α} {m m' : Dict α}
    {entries : List (String × Value)} (hunique : (entries.map Prod.fst).Nodup)
    (h : ofEntries read m entries = some m') (k : String) :
    m'.value k = match entries.lookup k with
      | some v => read v
      | none => m.value k := by
  induction entries generalizing m with
  | nil =>
    cases h
    rfl
  | cons entry rest ih =>
    obtain ⟨l, v⟩ := entry
    rw [List.map_cons, List.nodup_cons] at hunique
    obtain ⟨hl, hrest⟩ := hunique
    unfold ofEntries at h ih
    rw [List.foldlM_cons] at h
    cases hv : read v with
    | none => simp [hv] at h
    | some a =>
      simp only [hv, Option.map_some, Option.bind_eq_bind, Option.bind_some] at h
      rw [ih hrest h]
      by_cases hk : k = l
      · subst hk
        have hnone : rest.lookup k = none := by
          rw [List.lookup_eq_none_iff]
          intro entry hentry
          rw [bne_iff_ne]
          exact fun h => hl (List.mem_map.mpr ⟨entry, hentry, h.symm⟩)
        simp [hnone, hv, value, Keyed.get_insert]
      · rw [Value.lookup_cons_of_ne hk]
        simp [value, Keyed.get_insert, Ne.symm hk]

/-- The entries of an object that was read were all read. -/
theorem exists_read {read : Value → Option α} {m m' : Dict α} {entries : List (String × Value)}
    (h : ofEntries read m entries = some m') {k : String} {v : Value}
    (hk : entries.lookup k = some v) : ∃ a, read v = some a := by
  induction entries generalizing m with
  | nil => cases hk
  | cons entry rest ih =>
    obtain ⟨l, w⟩ := entry
    unfold ofEntries at h ih
    rw [List.foldlM_cons] at h
    cases hw : read w with
    | none => simp [hw] at h
    | some a =>
      simp only [hw, Option.map_some, Option.bind_eq_bind, Option.bind_some] at h
      by_cases hkl : k = l
      · subst hkl
        rw [List.lookup_cons_self] at hk
        cases hk
        exact ⟨a, hw⟩
      · rw [Value.lookup_cons_of_ne hkl] at hk
        exact ih h hk

theorem lookup_map (write : α → Value) (m : Dict α) (k : String) :
    (m.records.map fun entry => (entry.1, write entry.2)).lookup k = (m.value k).map write := by
  unfold value Keyed.get
  induction m.records with
  | nil => rfl
  | cons entry rest ih =>
    obtain ⟨l, a⟩ := entry
    by_cases hk : k = l
    · subst hk
      simp
    · rw [List.map_cons, Value.lookup_cons_of_ne hk, ih,
        List.find?_cons_of_neg (by simpa using Ne.symm hk)]

@[simp] theorem value_empty (k : String) : Dict.value (α := α) .empty k = none := rfl

theorem value_mapValues (g : α → β) (m : Dict α) (k : String) :
    (m.mapValues g).value k = (m.value k).map g := by
  unfold value Keyed.get mapValues
  rw [List.find?_map]
  simp [Function.comp_def]

end Dict

namespace Codec

variable {f : String → String} {α β : Type}

/-- An object with any keys. The keys are left alone by `resolve`. -/
def dict (c : Codec f α) : Codec f (Dict α) where
  write m := .object (m.records.map fun entry => (entry.1, c.write entry.2))
  read
    | .object entries => Dict.ofEntries c.read .empty entries
    | _ => none
  resolve := Dict.mapValues c.resolve
  read_write m := Dict.ofEntries_map c.read_write m.records m.nodup
  mapStrings_write m := by
    simp only [Value.mapStrings, Dict.mapValues, Value.object.injEq, List.map_map]
    induction m.records with
    | nil => rfl
    | cons entry rest ih => simp [Value.mapStringsFields, c.mapStrings_write, ih]

/-- The fields of a record: how they are written as the entries of an object, and read from an
object or, one after the other, from an array. -/
structure Fields (f : String → String) (α : Type) where
  keys : List String
  write : α → List (String × Value)
  readObject : List (String × Value) → Option α
  readArray : List Value → Option α
  resolve : α → α
  readObject_write : ∀ a entries, (∀ k ∈ keys, entries.lookup k = (write a).lookup k) →
    readObject entries = some a
  mapStrings_write : ∀ a, Value.mapStringsFields f (write a) = write (resolve a)

namespace Fields

/-- No fields. -/
def done : Fields f Unit where
  keys := []
  write _ := []
  readObject _ := some ()
  readArray
    | [] => some ()
    | _ :: _ => none
  resolve := id
  readObject_write _ _ _ := rfl
  mapStrings_write _ := rfl

@[simp] theorem keys_done : (done (f := f)).keys = [] := rfl

/-- A field before others. One that is missing has its default, if there is one. -/
def field (key : String) (dflt : Option α) (c : Codec f α) (rest : Fields f β)
    (hkey : key ∉ rest.keys := by simp) : Fields f (α × β) where
  keys := key :: rest.keys
  write r := (key, c.write r.1) :: rest.write r.2
  readObject entries :=
    (match entries.lookup key with
      | some v => c.read v
      | none => dflt).bind fun a => (rest.readObject entries).map (a, ·)
  readArray
    | [] => dflt.bind fun a => (rest.readArray []).map (a, ·)
    | v :: items => (c.read v).bind fun a => (rest.readArray items).map (a, ·)
  resolve r := (c.resolve r.1, rest.resolve r.2)
  readObject_write r entries h := by
    have hhead : entries.lookup key = some (c.write r.1) := by
      rw [h key (List.mem_cons_self ..), List.lookup_cons_self]
    have htail : rest.readObject entries = some r.2 := rest.readObject_write r.2 entries
      fun k hk => by
        rw [h k (List.mem_cons_of_mem _ hk), Value.lookup_cons_of_ne]
        rintro rfl
        exact hkey hk
    simp [hhead, htail, c.read_write]
  mapStrings_write r := by
    simp only [Value.mapStringsFields, c.mapStrings_write, rest.mapStrings_write]

variable {key : String} {dflt : Option α} {c : Codec f α} {rest : Fields f β}
  {hkey : key ∉ rest.keys}

@[simp] theorem keys_field : (field key dflt c rest hkey).keys = key :: rest.keys := rfl

theorem write_field (r : α × β) :
    (field key dflt c rest hkey).write r = (key, c.write r.1) :: rest.write r.2 := rfl

theorem readObject_field {entries : List (String × Value)} {r : α × β}
    (h : (field key dflt c rest hkey).readObject entries = some r) :
    (match entries.lookup key with
      | some v => c.read v
      | none => dflt) = some r.1 ∧ rest.readObject entries = some r.2 := by
  obtain ⟨a, ha, h⟩ := Option.bind_eq_some_iff.mp h
  obtain ⟨b, hb, rfl⟩ := Option.map_eq_some_iff.mp h
  exact ⟨ha, hb⟩

end Fields

/-- A record, from its fields. Unknown keys are passed over. -/
def record (fields : Fields f α) (e : α ≃ β) : Codec f β where
  write b := .object (fields.write (e.symm b))
  read
    | .object entries => (fields.readObject entries).map e
    | .array items => (fields.readArray items).map e
    | _ => none
  resolve b := e (fields.resolve (e.symm b))
  read_write b := by simp [fields.readObject_write (e.symm b) _ fun _ _ => rfl]
  mapStrings_write b := by simp [Value.mapStrings, fields.mapStrings_write]

end Codec

end Behest
