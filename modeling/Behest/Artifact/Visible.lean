import Behest.Artifact.ObjectStore

/-!
# Artifacts appear and disappear at once

Two objects make up an artifact, and its metadata decides whether it is there: a put shows it when
it writes the metadata, a delete hides it when it removes the metadata. As long as an identifier
is put once, each call does what the store in memory does at one moment, whatever the order of
the steps; and the bytes of an artifact that is there are missing only when a delete has begun.
-/

namespace Behest

open Effect

namespace ObjectArtifactStore

/-! ### Locations -/

theorem artifactPath_inj {r s : ArtifactId} (h : artifactPath r.val = artifactPath s.val) :
    r = s := by
  have hlist := congrArg String.toList h
  simp only [artifactPath, String.toList_append, List.append_cancel_left_eq] at hlist
  exact Subtype.ext (display_inj r.property s.property (String.toList_inj.mp hlist))

theorem metadataPath_inj {r s : ArtifactId} (h : metadataPath r.val = metadataPath s.val) :
    r = s := by
  have hlist := congrArg String.toList h
  simp only [metadataPath, String.toList_append, List.append_assoc, List.append_cancel_left_eq]
    at hlist
  exact Subtype.ext (display_inj r.property s.property
    (String.toList_inj.mp (List.append_cancel_right hlist)))

theorem underMetadata_metadataPath (id : Uuid) : underMetadata (metadataPath id) = true := by
  rw [underMetadata, metadataPath, String.toList_append, String.toList_append, List.append_assoc]
  exact List.isPrefixOf_iff_prefix.mpr (List.prefix_append _ _)

theorem underMetadata_artifactPath (id : Uuid) : underMetadata (artifactPath id) = false := by
  rw [underMetadata, artifactPath, String.toList_append]
  rfl

theorem artifactPath_ne_metadataPath (r s : Uuid) : artifactPath r ≠ metadataPath s := by
  intro h
  have hunder := underMetadata_artifactPath r
  rw [h, underMetadata_metadataPath] at hunder
  cases hunder

/-! ### What a step does to the objects -/

variable {format : ArtifactFormat} {backend : Backend}

/-- What a step of a call does to the objects. -/
inductive Alters (objects : Objects) (c : Call) : Objects → Prop
  | nothing : Alters objects c objects
  | putData {a : WideArtifact} (hc : c = ⟨.put a, .putData⟩) :
      Alters objects c (Function.update objects (artifactPath a.val.id) (some a.val.data))
  | putMetadata {a : WideArtifact} {bytes : List UInt8} (hc : c = ⟨.put a, .putMetadata bytes⟩) :
      Alters objects c (Function.update objects (metadataPath a.val.id) (some bytes))
  | deleteData {id : ArtifactId} (hc : c = ⟨.delete id, .deleteData⟩) :
      Alters objects c (Function.update objects (artifactPath id.val) none)
  | deleteMetadata {id : ArtifactId} (hc : c = ⟨.delete id, .deleteMetadata⟩) :
      Alters objects c (Function.update objects (metadataPath id.val) none)

variable {objects objects' : Objects} {c : Call} {p : Phase} {i : Nat}

theorem alters_of_proceed (h : proceed format backend objects c = some (objects', p)) :
    Alters objects c objects' := by
  obtain ⟨op, q⟩ := c
  simp only [proceed] at h
  split at h
  · cases h
    exact .nothing
  · cases op with
    | put a =>
      cases q with
      | putData =>
        simp only [proceedPut] at h
        split at h <;> cases h <;> exact .putData rfl
      | putMetadata bytes =>
        cases h
        exact .putMetadata rfl
      | _ => cases h
    | delete id =>
      cases q with
      | deleteData =>
        cases h
        exact .deleteData rfl
      | deleteMetadata =>
        cases h
        exact .deleteMetadata rfl
      | _ => cases h
    | get id | listBySession sessionId =>
      obtain ⟨_, -, hp⟩ := Option.map_eq_some_iff.mp h
      cases hp
      exact .nothing

/-! ### The steps of the store -/

variable {x y z : ObjectArtifactStore} {t : Turn}

variable (format backend) in
/-- How a call goes on in a turn, and the objects then. -/
inductive Moves (x : ObjectArtifactStore) (i : Nat) (c : Call) : Turn → Phase → Objects → Prop
  | proceeds {p : Phase} {objects : Objects}
      (h : proceed format backend x.objects c = some (objects, p)) :
      Moves x i c (.proceed i) p objects
  | refused {error : String} {p : Phase} (h : refuse backend c error = some p) :
      Moves x i c (.refuse i error) p x.objects
  | lost {error : String} {p q : Phase} {objects : Objects}
      (h : refuse backend c error = some p)
      (hdone : proceed format backend x.objects c = some (objects, q)) :
      Moves x i c (.lose i error) p objects
  | listed {locations : List String} {p : Phase} (h : list c locations = some p) :
      Moves x i c (.list i locations) p x.objects

theorem step_cases (h : step format backend x t = some y) :
    (∃ op, t = .enter op ∧ y = { x with calls := x.calls ++ [start op] }) ∨
    (∃ i c p, x.calls[i]? = some c ∧ Moves format backend x i c t p y.objects ∧
      y.calls = x.calls.set i ⟨c.operation, p⟩) ∨
    t = .crash ∧ y = { x with calls := x.calls.map kill } := by
  cases t with
  | enter op =>
    cases h
    exact .inl ⟨op, rfl, rfl⟩
  | proceed i =>
    simp only [step, Option.bind_eq_bind, Option.bind_eq_some_iff, Option.some.injEq] at h
    obtain ⟨c, hc, ⟨objects, p⟩, hp, rfl⟩ := h
    exact .inr (.inl ⟨i, c, p, hc, .proceeds hp, rfl⟩)
  | refuse i error =>
    simp only [step, Option.bind_eq_bind, Option.bind_eq_some_iff, Option.some.injEq] at h
    obtain ⟨c, hc, p, hp, rfl⟩ := h
    exact .inr (.inl ⟨i, c, p, hc, .refused hp, rfl⟩)
  | lose i error =>
    simp only [step, Option.bind_eq_bind, Option.bind_eq_some_iff, Option.some.injEq] at h
    obtain ⟨c, hc, ⟨objects, q⟩, hdone, p, hp, rfl⟩ := h
    exact .inr (.inl ⟨i, c, p, hc, .lost hp hdone, rfl⟩)
  | list i locations =>
    simp only [step, Option.bind_eq_bind, Option.bind_eq_some_iff, Option.some.injEq] at h
    obtain ⟨c, hc, p, hp, rfl⟩ := h
    exact .inr (.inl ⟨i, c, p, hc, .listed hp, rfl⟩)
  | crash =>
    cases h
    exact .inr (.inr ⟨rfl, rfl⟩)

theorem Moves.alters (h : Moves format backend x i c t p objects) :
    Alters x.objects c objects := by
  cases h with
  | proceeds h | lost _ h => exact alters_of_proceed h
  | refused | listed => exact .nothing

theorem kill_operation (c : Call) : (kill c).operation = c.operation := by
  obtain ⟨op, q⟩ := c
  cases q <;> rfl

/-- Calls stay, with their operations. -/
theorem exists_call_of_step (h : step format backend x t = some y) (hc : c ∈ x.calls) :
    ∃ e ∈ y.calls, e.operation = c.operation := by
  rcases step_cases h with ⟨op, rfl, rfl⟩ | ⟨i, e, p, he, -, hcalls⟩ | ⟨rfl, rfl⟩
  · exact ⟨c, List.mem_append_left _ hc, rfl⟩
  · obtain ⟨k, hk⟩ := List.mem_iff_getElem?.mp hc
    rw [hcalls]
    by_cases hki : k = i
    · subst hki
      obtain rfl : c = e := Option.some.inj (hk.symm.trans he)
      exact ⟨_, List.mem_of_getElem? (List.getElem?_set_self (List.getElem?_eq_some_iff.mp hk).1),
        rfl⟩
    · exact ⟨c, List.mem_of_getElem? ((List.getElem?_set_ne (Ne.symm hki)).trans hk), rfl⟩
  · exact ⟨kill c, List.mem_map_of_mem hc, kill_operation c⟩

/-- A call was there before, with its operation, or has entered. -/
theorem call_of_step (h : step format backend x t = some y) (hc : c ∈ y.calls) :
    (∃ e ∈ x.calls, e.operation = c.operation) ∨ ∃ op, t = .enter op ∧ c.operation = op := by
  rcases step_cases h with ⟨op, rfl, rfl⟩ | ⟨i, e, p, he, -, hcalls⟩ | ⟨rfl, rfl⟩
  · rcases List.mem_append.mp hc with hc | hc
    · exact .inl ⟨c, hc, rfl⟩
    · rw [List.mem_singleton.mp hc]
      exact .inr ⟨op, rfl, by cases op <;> rfl⟩
  · rw [hcalls] at hc
    rcases List.mem_or_eq_of_mem_set hc with hc | rfl
    · exact .inl ⟨c, hc, rfl⟩
    · exact .inl ⟨e, List.mem_of_getElem? he, rfl⟩
  · obtain ⟨e, he, rfl⟩ := List.mem_map.mp hc
    exact .inl ⟨e, he, (kill_operation e).symm⟩

/-! ### What has been put -/

/-- A put of the artifact has entered. -/
def Put (x : ObjectArtifactStore) (a : WideArtifact) : Prop :=
  ∃ c ∈ x.calls, c.operation = .put a

/-- A delete of the identifier has entered. -/
def Deleted (x : ObjectArtifactStore) (id : ArtifactId) : Prop :=
  ∃ c ∈ x.calls, c.operation = .delete id

theorem Put.step {a : WideArtifact} (h : Put x a) (hstep : step format backend x t = some y) :
    Put y a := by
  obtain ⟨c, hc, hop⟩ := h
  obtain ⟨e, he, hoperation⟩ := exists_call_of_step hstep hc
  exact ⟨e, he, hoperation.trans hop⟩

theorem Deleted.step {id : ArtifactId} (h : Deleted x id)
    (hstep : step format backend x t = some y) : Deleted y id := by
  obtain ⟨c, hc, hop⟩ := h
  obtain ⟨e, he, hoperation⟩ := exists_call_of_step hstep hc
  exact ⟨e, he, hoperation.trans hop⟩

/-- The identifier that a call puts. -/
def Call.putting (c : Call) : Option Uuid :=
  match c.operation with
  | .put a => some a.val.id
  | _ => none

/-- An identifier is put once. -/
def FreshPut (x : ObjectArtifactStore) : Turn → Prop
  | .enter (.put a) => ∀ c ∈ x.calls, c.putting ≠ some a.val.id
  | _ => True

instance (x : ObjectArtifactStore) (t : Turn) : Decidable (FreshPut x t) := by
  unfold FreshPut
  split <;> infer_instance

/-- The artifact was put under the session. -/
def Stored (x : ObjectArtifactStore) (sessionId : Uuid) (m : Artifact) : Prop :=
  ∃ a, Put x a ∧ a.val = m ∧ m.sessionId = some sessionId

/-- An object of the artifact is there, unless a delete of it has entered. -/
def Kept (x : ObjectArtifactStore) (id : ArtifactId) (location : String) : Prop :=
  Deleted x id ∨ (x.objects location).isSome

variable (format) in
/-- What a call that is under way knows. -/
def Call.Sound (c : Call) (x : ObjectArtifactStore) : Prop :=
  match c.operation, c.phase with
  | .put a, .putMetadata bytes =>
      format.toVec a.val = .ok bytes ∧ Kept x a.id (artifactPath a.val.id)
  | .put a, .answering (.ok _) | .put a, .returned (.ok _) => Kept x a.id (metadataPath a.val.id)
  | .get id, .getData m => ∃ a, Put x a ∧ a.id = id ∧ a.val = m
  | .listBySession sessionId, .readEntries left found =>
      (∀ l ∈ left, underMetadata l = true) ∧ ∀ m ∈ found, Stored x sessionId m
  | .listBySession sessionId, .answering (.ok (.listed found))
  | .listBySession sessionId, .returned (.ok (.listed found)) => ∀ m ∈ found, Stored x sessionId m
  | _, _ => True

variable (format) in
/-- Identifiers were put once; every object is one of an artifact that was put; metadata without
bytes is what a delete has left; and the calls know what they know. -/
structure Sound (x : ObjectArtifactStore) : Prop where
  unique : ∀ a b, Put x a → Put x b → a.id = b.id → a = b
  owned : ∀ location bytes, x.objects location = some bytes →
    (∃ a, Put x a ∧ location = artifactPath a.val.id ∧ bytes = a.val.data) ∨
      ∃ a, Put x a ∧ location = metadataPath a.val.id ∧ format.toVec a.val = .ok bytes
  complete : ∀ id : ArtifactId, (x.objects (metadataPath id.val)).isSome →
    Kept x id (artifactPath id.val)
  calls : ∀ c ∈ x.calls, c.Sound format x

theorem sound_new : Sound format new where
  unique := by
    rintro a b ⟨c, hc, -⟩
    cases hc
  owned := by
    rintro location bytes ⟨⟩
  complete := by
    rintro id ⟨⟩
  calls := by
    rintro c ⟨⟩

/-- The metadata that is there is that of an artifact that was put. -/
theorem Sound.metadata (h : Sound format x) {id : ArtifactId} {bytes : List UInt8}
    (hbytes : x.objects (metadataPath id.val) = some bytes) :
    ∃ a, Put x a ∧ a.id = id ∧ format.toVec a.val = .ok bytes := by
  rcases h.owned _ _ hbytes with ⟨a, -, hlocation, -⟩ | ⟨a, ha, hlocation, hvec⟩
  · exact absurd hlocation.symm (artifactPath_ne_metadataPath _ _)
  · exact ⟨a, ha, (metadataPath_inj (s := a.id) hlocation).symm, hvec⟩

/-- The bytes that are there are those of an artifact that was put. -/
theorem Sound.data (h : Sound format x) {id : ArtifactId} {bytes : List UInt8}
    (hbytes : x.objects (artifactPath id.val) = some bytes) :
    ∃ a, Put x a ∧ a.id = id ∧ bytes = a.val.data := by
  rcases h.owned _ _ hbytes with ⟨a, ha, hlocation, hdata⟩ | ⟨a, -, hlocation, -⟩
  · exact ⟨a, ha, (artifactPath_inj (s := a.id) hlocation).symm, hdata⟩
  · exact absurd hlocation (artifactPath_ne_metadataPath _ _)

/-- What is read of metadata is an artifact that was put. -/
theorem eq_of_fromSlice {a : WideArtifact} {bytes : List UInt8} {m : Artifact}
    (hvec : format.toVec a.val = .ok bytes) (hslice : format.fromSlice bytes = .ok m) :
    a.val = m := by
  rw [format.roundTrip _ _ hvec, Except.ok.injEq] at hslice
  exact hslice

/-! ### A step -/

/-- Only a delete removes an object of an artifact. -/
theorem Alters.keeps (h : Alters objects c objects') {id : ArtifactId} {location : String}
    (hlocation : location = artifactPath id.val ∨ location = metadataPath id.val)
    (hid : c.operation ≠ .delete id) (hsome : (objects location).isSome) :
    (objects' location).isSome := by
  have hwrite : ∀ l bytes, (Function.update objects l (some bytes) location).isSome := by
    intro l bytes
    by_cases hl : location = l
    · rw [hl, Function.update_self]
      rfl
    · rwa [Function.update_of_ne hl]
  cases h with
  | nothing => exact hsome
  | putData | putMetadata => exact hwrite _ _
  | @deleteData id' hc =>
    subst hc
    have hne : location ≠ artifactPath id'.val := by
      rintro rfl
      rcases hlocation with hpath | hpath
      · exact hid (congrArg ArtifactOperation.delete (artifactPath_inj hpath))
      · exact artifactPath_ne_metadataPath _ _ hpath
    rwa [Function.update_of_ne hne]
  | @deleteMetadata id' hc =>
    subst hc
    have hne : location ≠ metadataPath id'.val := by
      rintro rfl
      rcases hlocation with hpath | hpath
      · exact artifactPath_ne_metadataPath _ _ hpath.symm
      · exact hid (congrArg ArtifactOperation.delete (metadataPath_inj hpath))
    rwa [Function.update_of_ne hne]

theorem Kept.step {id : ArtifactId} {location : String} (h : Kept x id location)
    (hlocation : location = artifactPath id.val ∨ location = metadataPath id.val)
    (hstep : step format backend x t = some y) : Kept y id location := by
  rcases h with hdeleted | hsome
  · exact .inl (hdeleted.step hstep)
  · have hstep' := step_cases hstep
    rcases hstep' with ⟨op, -, rfl⟩ | ⟨i, c, p, hc, hmoves, hcalls⟩ | ⟨-, rfl⟩
    · exact .inr hsome
    · by_cases hid : c.operation = .delete id
      · exact .inl (Deleted.step ⟨c, List.mem_of_getElem? hc, hid⟩ hstep)
      · exact .inr (hmoves.alters.keeps hlocation hid hsome)
    · exact .inr hsome

theorem Stored.step {sessionId : Uuid} {m : Artifact} (h : Stored x sessionId m)
    (hstep : step format backend x t = some y) : Stored y sessionId m := by
  obtain ⟨a, ha, hm, hsession⟩ := h
  exact ⟨a, ha.step hstep, hm, hsession⟩

/-- What a call knows stays known. -/
theorem Call.Sound.step (h : c.Sound format x) (hstep : step format backend x t = some y) :
    c.Sound format y := by
  obtain ⟨op, q⟩ := c
  cases op with
  | put a =>
    cases q with
    | putMetadata bytes => exact ⟨h.1, h.2.step (.inl rfl) hstep⟩
    | answering outcome | returned outcome =>
      cases outcome with
      | error => exact True.intro
      | ok answer => exact (show Kept x a.id _ from h).step (.inr rfl) hstep
    | _ => exact True.intro
  | get id =>
    cases q with
    | getData m =>
      obtain ⟨a, ha, hid, hm⟩ := h
      exact ⟨a, ha.step hstep, hid, hm⟩
    | _ => exact True.intro
  | delete id => cases q <;> exact True.intro
  | listBySession sessionId =>
    cases q with
    | readEntries left found => exact ⟨h.1, fun m hm => (h.2 m hm).step hstep⟩
    | answering outcome | returned outcome =>
      rcases outcome with e | (_ | _ | _ | found)
      all_goals first
      | exact True.intro
      | exact fun m hm => Stored.step (h m hm) hstep
    | _ => exact True.intro

/-- A request that fails. -/
theorem Call.Sound.refuse {error : String} (hc : c.Sound format x)
    (h : refuse backend c error = some p) : Call.Sound format ⟨c.operation, p⟩ x := by
  obtain ⟨op, q⟩ := c
  cases op with
  | listBySession sessionId =>
    cases q with
    | readEntries left found =>
      cases left with
      | nil => cases h
      | cons location left =>
        cases h
        exact ⟨fun l hl => hc.1 l (.tail _ hl), hc.2⟩
    | _ => cases h <;> exact True.intro
  | _ =>
    cases q with
    | readEntries left found => cases left <;> cases h
    | _ => cases h <;> exact True.intro

theorem Sound.proceedList (h : Sound format x) {sessionId : Uuid} {q : Phase}
    (hc : Call.Sound format ⟨.listBySession sessionId, q⟩ x)
    (hstep : proceedList format x.objects sessionId q = some p) :
    Call.Sound format ⟨.listBySession sessionId, p⟩ x := by
  cases q with
  | readEntries left found =>
    obtain ⟨hleft, hfound⟩ := hc
    cases left with
    | nil =>
      cases hstep
      exact hfound
    | cons location left =>
      have hrest : ∀ l ∈ left, underMetadata l = true := fun l hl => hleft l (.tail _ hl)
      simp only [ObjectArtifactStore.proceedList] at hstep
      split at hstep
      · next m hm =>
        cases hstep
        obtain ⟨bytes, hbytes, hslice⟩ := Option.map_eq_some_iff.mp hm
        refine ⟨hrest, fun e he => ?_⟩
        split at he
        · next hsession =>
          rcases List.mem_append.mp he with he | he
          · exact hfound e he
          · rw [List.mem_singleton.mp he]
            rcases h.owned _ _ hbytes with ⟨a, -, hlocation, -⟩ | ⟨a, ha, -, hvec⟩
            · have hunder := hleft location (.head _)
              rw [hlocation, underMetadata_artifactPath] at hunder
              cases hunder
            · exact ⟨a, ha, eq_of_fromSlice hvec hslice, hsession⟩
        · exact hfound e he
      · cases hstep
        exact ⟨hrest, hfound⟩
  | _ => cases hstep

/-- A call that goes on knows what it knows. -/
theorem Moves.sound (hx : Sound format x) (hc : c.Sound format x)
    (hstep : step format backend x t = some y)
    (h : Moves format backend x i c t p y.objects) : Call.Sound format ⟨c.operation, p⟩ y := by
  generalize hobjects : y.objects = objects at h
  cases h with
  | refused h | lost h => exact (hc.refuse h).step hstep
  | @listed locations _ h =>
    obtain ⟨op, q⟩ := c
    cases op with
    | listBySession sessionId =>
      cases q with
      | listObjects =>
        simp only [list] at h
        split at h
        · next hall =>
          cases h
          refine ⟨List.all_eq_true.mp hall, ?_⟩
          rintro m ⟨⟩
        · cases h
      | _ => cases h
    | _ => cases q <;> cases h
  | proceeds h =>
    obtain ⟨op, q⟩ := c
    simp only [proceed] at h
    split at h
    · next outcome =>
      cases h
      have hreturned : Call.Sound format ⟨op, .returned outcome⟩ x := by
        cases op with
        | put => cases outcome <;> exact hc
        | listBySession => rcases outcome with e | (_ | _ | _ | found) <;> exact hc
        | _ => exact True.intro
      exact hreturned.step hstep
    · cases op with
      | put a =>
        cases q with
        | putData =>
          simp only [proceedPut] at h
          split at h
          · next bytes hvec =>
            cases h
            refine ⟨hvec, .inr ?_⟩
            rw [hobjects, Function.update_self]
            rfl
          · cases h
            exact True.intro
        | putMetadata bytes =>
          cases h
          refine .inr ?_
          rw [hobjects, Function.update_self]
          rfl
        | _ => cases h
      | get id =>
        obtain ⟨_, hget, hp⟩ := Option.map_eq_some_iff.mp h
        cases hp
        cases q with
        | getMetadata =>
          simp only [proceedGet] at hget
          split at hget
          · cases hget
            exact True.intro
          · next bytes hbytes =>
            split at hget
            · next m hslice =>
              cases hget
              obtain ⟨a, ha, hid, hvec⟩ := hx.metadata hbytes
              exact ⟨a, ha.step hstep, hid, eq_of_fromSlice hvec hslice⟩
            · cases hget
              exact True.intro
        | getData m =>
          simp only [proceedGet] at hget
          split at hget <;> cases hget <;> exact True.intro
        | _ => cases hget
      | delete id =>
        cases q <;> cases h <;> exact True.intro
      | listBySession sessionId =>
        obtain ⟨_, hlist, hp⟩ := Option.map_eq_some_iff.mp h
        cases hp
        exact (hx.proceedList hc hlist).step hstep

theorem put_of_step {a : WideArtifact} (h : Put y a) (hstep : step format backend x t = some y) :
    Put x a ∨ t = .enter (.put a) := by
  obtain ⟨c, hc, hop⟩ := h
  rcases call_of_step hstep hc with ⟨e, he, hoperation⟩ | ⟨op, rfl, hoperation⟩
  · exact .inl ⟨e, he, hoperation.trans hop⟩
  · exact .inr (by rw [← hoperation, hop])

/-- A put that is allowed has an identifier of its own. -/
theorem FreshPut.ne {a b : WideArtifact} (h : FreshPut x (.enter (.put a))) (hb : Put x b) :
    b.id ≠ a.id := by
  intro hid
  obtain ⟨c, hc, hop⟩ := hb
  refine h c hc ?_
  rw [Call.putting, hop]
  exact congrArg (fun id : ArtifactId => some id.val) hid

theorem Sound.unique_step (hx : Sound format x) (hfresh : FreshPut x t)
    (hstep : step format backend x t = some y) {a b : WideArtifact} (ha : Put y a) (hb : Put y b)
    (hid : a.id = b.id) : a = b := by
  rcases put_of_step ha hstep with ha | rfl
  · rcases put_of_step hb hstep with hb | rfl
    · exact hx.unique a b ha hb hid
    · exact absurd hid (hfresh.ne ha)
  · rcases put_of_step hb hstep with hb | hb
    · exact absurd hid.symm (hfresh.ne hb)
    · cases hb
      rfl

/-- An object after a step was there before, or its artifact was put. -/
theorem Sound.owned_step (hx : Sound format x) (hstep : step format backend x t = some y)
    {location : String} {bytes : List UInt8} (hbytes : y.objects location = some bytes) :
    (∃ a, Put y a ∧ location = artifactPath a.val.id ∧ bytes = a.val.data) ∨
      ∃ a, Put y a ∧ location = metadataPath a.val.id ∧ format.toVec a.val = .ok bytes := by
  have hkept : x.objects location = some bytes →
      (∃ a, Put y a ∧ location = artifactPath a.val.id ∧ bytes = a.val.data) ∨
        ∃ a, Put y a ∧ location = metadataPath a.val.id ∧ format.toVec a.val = .ok bytes := by
    intro hold
    rcases hx.owned _ _ hold with ⟨a, ha, h⟩ | ⟨a, ha, h⟩
    · exact .inl ⟨a, ha.step hstep, h⟩
    · exact .inr ⟨a, ha.step hstep, h⟩
  have hstep' := step_cases hstep
  rcases hstep' with ⟨op, -, rfl⟩ | ⟨i, c, p, hc, hmoves, -⟩ | ⟨-, rfl⟩
  · exact hkept hbytes
  · have hmem := List.mem_of_getElem? hc
    have hsound := hx.calls c hmem
    have halters := hmoves.alters
    generalize y.objects = objects at hbytes halters
    cases halters with
    | nothing => exact hkept hbytes
    | @putData a hput =>
      subst hput
      by_cases hl : location = artifactPath a.val.id
      · rw [hl, Function.update_self, Option.some.injEq] at hbytes
        exact .inl ⟨a, Put.step ⟨_, hmem, rfl⟩ hstep, hl, hbytes.symm⟩
      · rw [Function.update_of_ne hl] at hbytes
        exact hkept hbytes
    | @putMetadata a _ hput =>
      subst hput
      by_cases hl : location = metadataPath a.val.id
      · rw [hl, Function.update_self, Option.some.injEq] at hbytes
        exact .inr ⟨a, Put.step ⟨_, hmem, rfl⟩ hstep, hl, hbytes ▸ hsound.1⟩
      · rw [Function.update_of_ne hl] at hbytes
        exact hkept hbytes
    | @deleteData id | @deleteMetadata id =>
      rw [Function.update_apply] at hbytes
      split at hbytes
      · cases hbytes
      · exact hkept hbytes
  · exact hkept hbytes

/-- Metadata after a step has its bytes beside it, or a delete has entered. -/
theorem Sound.complete_step (hx : Sound format x) (hstep : step format backend x t = some y)
    {id : ArtifactId} (hsome : (y.objects (metadataPath id.val)).isSome) :
    Kept y id (artifactPath id.val) := by
  have hkept : (x.objects (metadataPath id.val)).isSome → Kept y id (artifactPath id.val) :=
    fun hold => (hx.complete id hold).step (.inl rfl) hstep
  have hstep' := step_cases hstep
  rcases hstep' with ⟨op, -, rfl⟩ | ⟨i, c, p, hc, hmoves, -⟩ | ⟨-, rfl⟩
  · exact hkept hsome
  · have hsound := hx.calls c (List.mem_of_getElem? hc)
    have halters := hmoves.alters
    generalize y.objects = objects at hsome halters
    cases halters with
    | nothing => exact hkept hsome
    | putData | deleteData =>
      rw [Function.update_of_ne (artifactPath_ne_metadataPath _ _).symm] at hsome
      exact hkept hsome
    | @putMetadata a _ hput =>
      subst hput
      by_cases hid : id = a.id
      · rw [hid]
        exact hsound.2.step (.inl rfl) hstep
      · have hne : metadataPath id.val ≠ metadataPath a.val.id :=
          fun hpath => hid (metadataPath_inj (s := a.id) hpath)
        rw [Function.update_of_ne hne] at hsome
        exact hkept hsome
    | deleteMetadata =>
      rw [Function.update_apply] at hsome
      split at hsome
      · cases hsome
      · exact hkept hsome
  · exact hkept hsome

theorem Sound.step (hx : Sound format x) (hfresh : FreshPut x t)
    (hstep : step format backend x t = some y) : Sound format y where
  unique a b := hx.unique_step hfresh hstep
  owned location bytes := hx.owned_step hstep
  complete id := hx.complete_step hstep
  calls := by
    intro e he
    have hstep' := step_cases hstep
    rcases hstep' with ⟨op, rfl, rfl⟩ | ⟨i, c, p, hc, hmoves, hcalls⟩ | ⟨rfl, rfl⟩
    · rcases List.mem_append.mp he with he | he
      · exact (hx.calls e he).step hstep
      · rw [List.mem_singleton.mp he]
        cases op <;> exact True.intro
    · rw [hcalls] at he
      rcases List.mem_or_eq_of_mem_set he with he | rfl
      · exact (hx.calls e he).step hstep
      · exact hmoves.sound hx (hx.calls c (List.mem_of_getElem? hc)) hstep
    · obtain ⟨⟨op, q⟩, hc, rfl⟩ := List.mem_map.mp he
      cases q with
      | returned outcome => exact (hx.calls _ hc).step hstep
      | _ => cases op <;> exact True.intro

/-! ### Runs -/

theorem sound_of_leadsTo {allowed : ObjectArtifactStore → Turn → Prop}
    (h : LeadsTo (step format backend) allowed new x)
    (hfresh : ∀ x t, allowed x t → FreshPut x t) : Sound format x :=
  LeadsTo.invariant (Sound format) h sound_new fun x t _ hx hallowed hstep =>
    hx.step (hfresh x t hallowed) hstep

variable (format) in
/-- The artifacts that are there: those that a get finds. -/
def visible (x : ObjectArtifactStore) (id : ArtifactId) : Option Artifact :=
  (x.objects (metadataPath id.val)).bind fun bytes => (format.fromSlice bytes).toOption

theorem visible_of_toVec {a : WideArtifact} {bytes : List UInt8}
    (hbytes : x.objects (metadataPath a.id.val) = some bytes)
    (hvec : format.toVec a.val = .ok bytes) : x.visible format a.id = some a.val := by
  rw [visible, hbytes, Option.bind_some, format.roundTrip _ _ hvec]
  rfl

/-- An artifact that is there was put. -/
theorem Sound.put_of_visible (h : Sound format x) {id : ArtifactId} {m : Artifact}
    (hm : x.visible format id = some m) : ∃ a, Put x a ∧ a.id = id ∧ a.val = m := by
  obtain ⟨bytes, hbytes, hslice⟩ := Option.bind_eq_some_iff.mp hm
  obtain ⟨a, ha, rfl, hvec⟩ := h.metadata hbytes
  rw [format.roundTrip _ _ hvec] at hslice
  exact ⟨a, ha, rfl, Option.some.inj hslice⟩

/-- **Whatever the order of the steps, whatever requests fail and wherever a process crashes**, as
long as an identifier is put once: an artifact that is there was put as it is, with its bytes; one
whose put has returned is there; and what a listing returns was put under its session. Only a
delete that has entered makes an exception of an artifact. -/
theorem complete_of_leadsTo (h : LeadsTo (step format backend) FreshPut new x) :
    (∀ id m, x.visible format id = some m → (∃ a, Put x a ∧ a.id = id ∧ a.val = m) ∧
      (Deleted x id ∨ x.objects (artifactPath id.val) = some m.data)) ∧
    (∀ a answer, ⟨.put a, .returned (.ok answer)⟩ ∈ x.calls →
      Deleted x a.id ∨ x.visible format a.id = some a.val) ∧
    ∀ sessionId found, ⟨.listBySession sessionId, .returned (.ok (.listed found))⟩ ∈ x.calls →
      ∀ m ∈ found, Stored x sessionId m := by
  have hx := sound_of_leadsTo h fun _ _ hfresh => hfresh
  refine ⟨fun id m hm => ?_, fun a answer hc => ?_, fun sessionId found hc => hx.calls _ hc⟩
  · obtain ⟨a, ha, rfl, rfl⟩ := hx.put_of_visible hm
    obtain ⟨bytes, hbytes, -⟩ := Option.bind_eq_some_iff.mp hm
    refine ⟨⟨a, ha, rfl, rfl⟩, (hx.complete a.id (hbytes ▸ rfl)).imp_right fun hsome => ?_⟩
    obtain ⟨data, hdata⟩ := Option.isSome_iff_exists.mp hsome
    obtain ⟨b, hb, hid, rfl⟩ := hx.data hdata
    rw [hdata, hx.unique b a hb ha hid]
  · have hkept : Kept x a.id (metadataPath a.val.id) := hx.calls _ hc
    refine hkept.imp_right fun hsome => ?_
    obtain ⟨bytes, hbytes⟩ : ∃ bytes, x.objects (metadataPath a.id.val) = some bytes :=
      Option.isSome_iff_exists.mp hsome
    obtain ⟨b, hb, hid, hvec⟩ := hx.metadata hbytes
    obtain rfl := hx.unique b a hb ⟨_, hc, rfl⟩ hid
    exact visible_of_toVec hbytes hvec

/-- The object store writes the metadata of a put and says that it failed; then a crash. -/
theorem complete_of_leadsTo_lost :
    let format : ArtifactFormat :=
      ⟨fun
        | ⟨1, none, "n", "t", [7], .null, 0⟩ => .ok [0]
        | _ => .error "",
       fun _ => .ok ⟨1, none, "n", "t", [7], .null, 0⟩,
       fun a bytes h => by
        split at h
        · rfl
        · cases h⟩
    ∃ x : ObjectArtifactStore, ∃ m, x.visible format ⟨1, by decide⟩ = some m ∧
      (Deleted x ⟨1, by decide⟩ ∨ x.objects (artifactPath 1) = some m.data) := by
  intro format
  obtain ⟨x, hx, hvisible⟩ := exists_leadsTo (step format ⟨"s3", id⟩) FreshPut new
    [.enter (.put ⟨⟨1, none, "n", "t", [7], .null, 0⟩, by decide⟩), .proceed 0, .lose 0 "timeout",
      .crash]
    (fun x => (x.visible format ⟨1, by decide⟩).isSome) (by decide)
  obtain ⟨m, hm⟩ := Option.isSome_iff_exists.mp hvisible
  exact ⟨x, m, hm, ((complete_of_leadsTo hx).1 _ m hm).2⟩

end ObjectArtifactStore

end Behest
