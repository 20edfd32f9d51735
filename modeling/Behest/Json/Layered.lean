import Behest.Json.Codec

/-!
# Layers at a path

A configuration is read from layers of JSON, each merged over what the ones before it left. At
a path to a single setting a layer is silent, or has a value there, or only makes the default
appear; and what is read after a merge has at that path what the layer says there, applied to
what was there before.
-/

namespace Behest

/-- What a layer says at a path. -/
inductive Said where
  /-- The layer leaves the path alone. -/
  | silent
  /-- The layer has what encloses the path, but not the path. -/
  | fills (dflt : Option Value)
  /-- The layer decides what is there, if anything. -/
  | sets (setting : Option Value)
deriving DecidableEq

namespace Said

/-- What is at a path after a layer, from what was there before. -/
def act : Said → Option Value → Option Value
  | silent, before => before
  | fills dflt, before => before.or dflt
  | sets setting, _ => setting

end Said

/-- The settings of the values of a type, each at its path, and what a layer says about them. -/
structure Layered {f : String → String} {α : Type} (c : Codec f α) where
  setting : α → List String → Option Value
  word : Value → List String → Said
  setting_read : ∀ {v b}, v.Unique → c.read v = some b → ∀ p,
    setting b p = (word v p).act none
  setting_merge : ∀ {a v b}, v.Unique → c.read ((c.write a).merge v) = some b → ∀ p,
    setting b p = (word v p).act (setting a p)
  setting_resolve : ∀ a p, setting (c.resolve a) p = (setting a p).map (Value.mapStrings f)

namespace Layered

variable {f : String → String} {α β : Type}

/-- A default that is absent wherever a value can be without a setting. -/
def Total {c : Codec f α} (L : Layered c) (dflt : Option α) : Prop :=
  ∀ d, dflt = some d → ∀ a p, L.setting a p = none → L.setting d p = none

/-- All values have settings at the same paths. -/
def Rigid {c : Codec f α} (L : Layered c) : Prop :=
  ∀ a b p, L.setting a p = none → L.setting b p = none

theorem Rigid.total {c : Codec f α} {L : Layered c} (h : L.Rigid) (dflt : Option α) :
    L.Total dflt := fun d _ a p hset => h a d p hset

/-- A single setting, which is never an object. -/
def single (c : Codec f α) (hwrite : ∀ a, (c.write a).isObject = false) : Layered c where
  setting a
    | [] => some (c.write a)
    | _ :: _ => none
  word v
    | [] => .sets ((c.read v).map c.write)
    | _ :: _ => .silent
  setting_read hv h p := by
    cases p with
    | nil => simp [Said.act, h]
    | cons _ _ => rfl
  setting_merge hv h p := by
    rw [Value.merge_of_not_object (hwrite _)] at h
    cases p with
    | nil => simp [Said.act, h]
    | cons _ _ => rfl
  setting_resolve a p := by
    cases p with
    | nil => simp [c.mapStrings_write]
    | cons _ _ => rfl

theorem single_rigid (c : Codec f α) (hwrite : ∀ a, (c.write a).isObject = false) :
    (single c hwrite).Rigid := by
  intro a b p h
  cases p with
  | nil => cases h
  | cons _ _ => rfl

/-- A section that may be missing. -/
def nullable {c : Codec f α} (L : Layered c) (hnull : ∀ a, c.write a ≠ .null) :
    Layered (c.nullable hnull) where
  setting
    | none, _ => none
    | some a, p => L.setting a p
  word v p := if v = .null then .sets none else L.word v p
  setting_read {v b} hv h p := by
    by_cases hnot : v = .null
    · subst hnot
      cases h
      rfl
    · rw [Codec.read_nullable hnot, Option.map_eq_some_iff] at h
      obtain ⟨a, ha, rfl⟩ := h
      rw [if_neg hnot]
      exact L.setting_read hv ha p
  setting_merge {a v b} hv h p := by
    by_cases hnot : v = .null
    · subst hnot
      rw [Value.merge_of_overlay rfl] at h
      cases h
      rfl
    · rw [if_neg hnot]
      have hmerged : ((c.nullable hnull).write a).merge v ≠ .null := by
        intro hnull'
        rcases Value.merge_eq_null hnull' with rfl
        exact hnot rfl
      rw [Codec.read_nullable hmerged, Option.map_eq_some_iff] at h
      obtain ⟨b, hb, rfl⟩ := h
      cases a with
      | none => exact L.setting_read hv (by rwa [Value.merge_of_not_object rfl] at hb) p
      | some a => exact L.setting_merge hv hb p
  setting_resolve a p := by
    cases a with
    | none => rfl
    | some a => exact L.setting_resolve a p

theorem nullable_total {c : Codec f α} (L : Layered c) (hnull : ∀ a, c.write a ≠ .null) :
    (L.nullable hnull).Total (some none) := by
  intro d hd a p _
  cases hd
  rfl

/-- Sections of one kind under names. -/
def dict {c : Codec f α} (L : Layered c) : Layered c.dict where
  setting m
    | [] => none
    | k :: q => (m.value k).bind fun a => L.setting a q
  word
    | .object entries, k :: q => match entries.lookup k with
        | some v => L.word v q
        | none => .silent
    | _, _ => .silent
  setting_read {v b} hv h p := by
    cases v with
    | object entries =>
      cases p with
      | nil => rfl
      | cons k q =>
        simp only [Dict.value_ofEntries hv.1 h]
        cases hk : entries.lookup k with
        | none => rfl
        | some v =>
          obtain ⟨a, ha⟩ := Dict.exists_read h hk
          simp only [ha, Option.bind_some]
          exact L.setting_read (hv.2.of_lookup hk) ha q
    | null | bool _ | number _ | string _ | array _ => cases h
  setting_merge {a v b} hv h p := by
    cases v with
    | object entries =>
      simp only [Codec.dict, Value.merge] at h
      cases p with
      | nil => rfl
      | cons k q =>
        have hbase : ((a.records.map fun entry => (entry.1, c.write entry.2)).map Prod.fst).Nodup :=
          by simpa [Function.comp_def] using a.nodup
        have hvalue := Dict.value_ofEntries (Value.nodup_mergeFields _ entries hbase) h k
        have hread := fun w => Dict.exists_read (v := w) h (k := k)
        simp only [Value.lookup_mergeFields _ entries hv.1, Dict.lookup_map] at hvalue hread
        simp only [hvalue]
        cases hk : entries.lookup k with
        | none =>
          -- The layer has no such name: what was there is read as it was written.
          cases a.value k with
          | none => rfl
          | some x => simp [c.read_write, Said.act]
        | some v =>
          cases ha : a.value k with
          | none =>
            obtain ⟨y, hy⟩ := hread v (by simp [hk, ha])
            simp only [Option.map_none, Value.mergeEntry, hy, Option.bind_some, Option.bind_none]
            exact L.setting_read (hv.2.of_lookup hk) hy q
          | some x =>
            obtain ⟨y, hy⟩ := hread ((c.write x).merge v) (by simp [hk, ha])
            simp only [Option.map_some, Value.mergeEntry, hy, Option.bind_some]
            exact L.setting_merge (hv.2.of_lookup hk) hy q
    | null | bool _ | number _ | string _ | array _ =>
      rw [Value.merge_of_overlay rfl] at h
      cases h
  setting_resolve a p := by
    cases p with
    | nil => rfl
    | cons k q =>
      simp only [Codec.dict, Dict.value_mapValues]
      cases a.value k with
      | none => rfl
      | some a => exact L.setting_resolve a q

/-- The settings of the fields of a record, and what the entries of a layer say about them. -/
structure Fields {f : String → String} {α : Type} (F : Codec.Fields f α) where
  setting : α → List String → Option Value
  word : List (String × Value) → List String → Said
  setting_read : ∀ {entries b}, Value.UniqueFields entries → F.readObject entries = some b → ∀ p,
    setting b p = (word entries p).act none
  setting_merge : ∀ {a entries merged b}, Value.UniqueFields entries →
    (∀ k ∈ F.keys,
      merged.lookup k = Value.mergeEntry ((F.write a).lookup k) (entries.lookup k)) →
    F.readObject merged = some b → ∀ p, setting b p = (word entries p).act (setting a p)
  setting_resolve : ∀ a p, setting (F.resolve a) p = (setting a p).map (Value.mapStrings f)

namespace Fields

def done : Fields (Codec.Fields.done (f := f)) where
  setting _ _ := none
  word _ _ := .silent
  setting_read _ _ _ := rfl
  setting_merge _ _ _ _ := rfl
  setting_resolve _ _ := rfl

/-- What the entries of a layer say at a path in one field. -/
def wordAt {c : Codec f α} (L : Layered c) (dflt : Option α) (entry : Option Value)
    (p : List String) : Said :=
  match entry, dflt with
  | some v, _ => L.word v p
  | none, some d => .fills (L.setting d p)
  | none, none => .silent

def field {key : String} {dflt : Option α} {c : Codec f α} {rest : Codec.Fields f β}
    {hkey : key ∉ rest.keys} (L : Layered c) (R : Fields rest) (htotal : L.Total dflt) :
    Fields (.field key dflt c rest hkey) where
  setting r
    | [] => none
    | k :: q => if k = key then L.setting r.1 q else R.setting r.2 (k :: q)
  word entries
    | [] => .silent
    | k :: q => if k = key then wordAt L dflt (entries.lookup key) q else R.word entries (k :: q)
  setting_read {entries b} hv h p := by
    obtain ⟨hhead, htail⟩ := Codec.Fields.readObject_field h
    cases p with
    | nil => rfl
    | cons k q =>
      dsimp only
      split
      · cases hentry : entries.lookup key with
        | some v =>
          rw [hentry] at hhead
          exact L.setting_read (hv.of_lookup hentry) hhead q
        | none =>
          rw [hentry] at hhead
          dsimp only at hhead
          simp [wordAt, hhead, Said.act]
      · exact R.setting_read hv htail (k :: q)
  setting_merge {a entries merged b} hv hmerged h p := by
    obtain ⟨hhead, htail⟩ := Codec.Fields.readObject_field h
    cases p with
    | nil => rfl
    | cons k q =>
      have hkey' := hmerged key (List.mem_cons_self ..)
      rw [Codec.Fields.write_field, List.lookup_cons_self] at hkey'
      dsimp only
      split
      · rw [hkey'] at hhead
        cases hentry : entries.lookup key with
        | some v =>
          rw [hentry] at hhead
          exact L.setting_merge (hv.of_lookup hentry) hhead q
        | none =>
          -- The field is read as it was written; its default is present only if it is.
          rw [hentry] at hhead
          have hsame : b.1 = a.1 := by simpa [c.read_write, eq_comm] using hhead
          rw [hsame]
          cases dflt with
          | none => rfl
          | some d =>
            cases hset : L.setting a.1 q with
            | some _ => rfl
            | none => simp [wordAt, Said.act, htotal d rfl a.1 q hset]
      · refine R.setting_merge hv (fun l hl => ?_) htail (k :: q)
        rw [hmerged l (List.mem_cons_of_mem _ hl), Codec.Fields.write_field,
          Value.lookup_cons_of_ne]
        rintro rfl
        exact hkey hl
  setting_resolve a p := by
    cases p with
    | nil => rfl
    | cons k q =>
      simp only [Codec.Fields.field]
      split
      · exact L.setting_resolve a.1 q
      · exact R.setting_resolve a.2 (k :: q)

/-- All records have settings at the same paths. -/
def Rigid {F : Codec.Fields f α} (R : Fields F) : Prop :=
  ∀ a b p, R.setting a p = none → R.setting b p = none

theorem done_rigid : (done (f := f)).Rigid := fun _ _ _ _ => rfl

theorem field_rigid {key : String} {dflt : Option α} {c : Codec f α} {rest : Codec.Fields f β}
    {hkey : key ∉ rest.keys} {L : Layered c} {R : Fields rest} (htotal : L.Total dflt)
    (hL : L.Rigid) (hR : R.Rigid) :
    (field L R htotal : Fields (.field key dflt c rest hkey)).Rigid := by
  intro a b p h
  cases p with
  | nil => rfl
  | cons k q =>
    simp only [field] at h ⊢
    split
    · next hk => exact hL a.1 b.1 q (by rwa [if_pos hk] at h)
    · next hk => exact hR a.2 b.2 (k :: q) (by rwa [if_neg hk] at h)

end Fields

/-- A record. A layer that has an array in its place decides all of it. -/
def record {F : Codec.Fields f α} (R : Fields F) (e : α ≃ β) : Layered (Codec.record F e) where
  setting b p := R.setting (e.symm b) p
  word
    | .object entries, p => R.word entries p
    | v, p => .sets (((Codec.record F e).read v).bind fun b => R.setting (e.symm b) p)
  setting_read {v b} hv h p := by
    cases v with
    | object entries =>
      obtain ⟨a, ha, rfl⟩ := Option.map_eq_some_iff.mp h
      rw [Equiv.symm_apply_apply]
      exact R.setting_read hv.2 ha p
    | null | bool _ | number _ | string _ | array _ => simp [Said.act, h]
  setting_merge {a v b} hv h p := by
    cases v with
    | object entries =>
      simp only [Codec.record, Value.merge] at h
      obtain ⟨b, hb, rfl⟩ := Option.map_eq_some_iff.mp h
      rw [Equiv.symm_apply_apply]
      exact R.setting_merge hv.2 (fun k _ => Value.lookup_mergeFields _ entries hv.1 k) hb p
    | null | bool _ | number _ | string _ | array _ =>
      rw [Value.merge_of_overlay rfl] at h
      simp [Said.act, h]
  setting_resolve b p := by
    simp only [Codec.record, Equiv.symm_apply_apply]
    exact R.setting_resolve (e.symm b) p

theorem record_rigid {F : Codec.Fields f α} {R : Fields F} (h : R.Rigid) (e : α ≃ β) :
    (record R e).Rigid := fun a b p hset => h (e.symm a) (e.symm b) p hset

end Layered

/-! ### Sections

Codecs together with the settings at their paths, for records whose fields are single settings or
sections of their own. -/

/-- A codec with the settings of its values. -/
structure Section (f : String → String) (α : Type) where
  codec : Codec f α
  layers : Layered codec

/-- The fields of a record, with their settings. -/
structure Settings (f : String → String) (α : Type) where
  fields : Codec.Fields f α
  layers : Layered.Fields fields

namespace Settings

variable {f : String → String} {α β : Type}

def done : Settings f Unit := ⟨.done, .done⟩

@[simp] theorem keys_done : (done (f := f)).fields.keys = [] := rfl

/-- A field that is a section. -/
def nested (key : String) (dflt : Option α) (s : Section f α) (htotal : s.layers.Total dflt)
    (rest : Settings f β) (hkey : key ∉ rest.fields.keys := by simp) :
    Settings f (α × β) :=
  ⟨.field key dflt s.codec rest.fields hkey, .field s.layers rest.layers htotal⟩

@[simp] theorem keys_nested (key : String) (dflt : Option α) (s : Section f α)
    (htotal : s.layers.Total dflt) (rest : Settings f β) (hkey : key ∉ rest.fields.keys) :
    (nested key dflt s htotal rest hkey).fields.keys = key :: rest.fields.keys := rfl

/-- A field that is a single setting. -/
def setting (key : String) (dflt : Option α) (c : Codec f α) (rest : Settings f β)
    (hkey : key ∉ rest.fields.keys := by simp)
    (hwrite : ∀ a, (c.write a).isObject = false := by intro a; cases a <;> rfl) :
    Settings f (α × β) :=
  nested key dflt ⟨c, .single c hwrite⟩ ((Layered.single_rigid c hwrite).total dflt) rest hkey

@[simp] theorem keys_setting (key : String) (dflt : Option α) (c : Codec f α)
    (rest : Settings f β) (hkey : key ∉ rest.fields.keys)
    (hwrite : ∀ a, (c.write a).isObject = false) :
    (setting key dflt c rest hkey hwrite).fields.keys = key :: rest.fields.keys := rfl

theorem nested_rigid {key : String} {dflt : Option α} {s : Section f α} {rest : Settings f β}
    {htotal : s.layers.Total dflt} {hkey : key ∉ rest.fields.keys}
    (hs : s.layers.Rigid) (h : rest.layers.Rigid) :
    (nested key dflt s htotal rest hkey).layers.Rigid :=
  Layered.Fields.field_rigid htotal hs h

theorem setting_rigid {key : String} {dflt : Option α} {c : Codec f α} {rest : Settings f β}
    {hkey : key ∉ rest.fields.keys} {hwrite : ∀ a, (c.write a).isObject = false}
    (h : rest.layers.Rigid) : (setting key dflt c rest hkey hwrite).layers.Rigid :=
  nested_rigid (Layered.single_rigid c hwrite) h

end Settings

namespace Section

variable {f : String → String} {α β : Type}

def record (s : Settings f α) (e : α ≃ β) : Section f β :=
  ⟨.record s.fields e, .record s.layers e⟩

/-- A record that may be missing. -/
def nullable (s : Section f α) (hnull : ∀ a, s.codec.write a ≠ .null := by intro a; nofun) :
    Section f (Option α) :=
  ⟨s.codec.nullable hnull, s.layers.nullable hnull⟩

def dict (s : Section f α) : Section f (Dict α) := ⟨s.codec.dict, s.layers.dict⟩

theorem nullable_total (s : Section f α) (hnull : ∀ a, s.codec.write a ≠ .null) :
    (s.nullable hnull).layers.Total (some none) := s.layers.nullable_total hnull

theorem dict_total (s : Section f α) : s.dict.layers.Total (some .empty) := by
  intro d hd m p _
  cases hd
  cases p <;> rfl

end Section

end Behest
