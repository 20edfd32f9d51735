import Behest.Artifact.Visible

/-!
# What the calls of the object store do at one moment

A put, a get and a delete that return took effect at one moment while they were under way: each did
then what the store in memory does in one go. The moment of a put is the step that writes the
metadata, that of a delete the step that removes it, and that of a get the step that reads it.
-/

namespace Behest

open Effect

namespace ObjectArtifactStore

/-! ### The store in memory as the abstract one -/

variable (format : ArtifactFormat) (backend : Backend)

/-- The store in memory has the artifacts that are there. -/
def Shows (x : ObjectArtifactStore) (s : MemoryArtifactStore) : Prop :=
  ∀ id : ArtifactId, s.get id.val = x.visible format id

/-- The call is under way. -/
def Pending (x : ObjectArtifactStore) (i : Nat) (op : ArtifactOperation) : Prop :=
  ∃ p, x.calls[i]? = some ⟨op, p⟩ ∧ (∀ outcome, p ≠ .returned outcome) ∧ p ≠ .killed

/-- From one state to another as the store in memory goes in a call. -/
def Simulates (op : ArtifactOperation) (answer : ArtifactAnswer) (x y : ObjectArtifactStore) :
    Prop :=
  ∃ s, Shows format x s ∧ Shows format y (s.call op).1 ∧ (s.call op).2 = answer

/-- The object store does not refuse to remove metadata. -/
def Removes (x : ObjectArtifactStore) : Turn → Prop
  | .refuse i _ =>
      match x.calls[i]? with
      | some ⟨_, .deleteMetadata⟩ => False
      | _ => True
  | _ => True

instance (x : ObjectArtifactStore) (t : Turn) : Decidable (Removes x t) := by
  unfold Removes
  split
  · split <;> infer_instance
  · infer_instance

/-- An identifier is put once, and metadata that a delete removes goes. -/
def Orderly (x : ObjectArtifactStore) (t : Turn) : Prop := FreshPut x t ∧ Removes x t

instance (x : ObjectArtifactStore) (t : Turn) : Decidable (Orderly x t) := by
  unfold Orderly
  infer_instance

/-- While the call was under way it took effect, in one step or between two. -/
def Took (x : ObjectArtifactStore) (i : Nat) (op : ArtifactOperation) (answer : ArtifactAnswer) :
    Prop :=
  Effect.Took (step format backend) Orderly new x fun y z =>
    y.Pending i op ∧ Simulates format op answer y z

/-- What is behind where a call stands. -/
def Told (x : ObjectArtifactStore) (i : Nat) (c : Call) : Prop :=
  match c.operation, c.phase with
  | .get id, .getData m => Took format backend x i (.get id) (.found (some m))
  | .listBySession _, _ => True
  | op, .answering (.ok answer) | op, .returned (.ok answer) => Took format backend x i op answer
  | _, _ => True

variable {format backend} {x y : ObjectArtifactStore} {t : Turn} {i : Nat} {c : Call} {p : Phase}
  {op : ArtifactOperation} {answer : ArtifactAnswer} {objects : Objects}

theorem Told.trans (h : Told format backend x i c)
    (hxy : LeadsTo (step format backend) Orderly x y) : Told format backend y i c := by
  obtain ⟨op, q⟩ := c
  cases op with
  | listBySession => cases q <;> exact True.intro
  | get id =>
    cases q with
    | getData m => exact Effect.Took.trans h hxy
    | answering outcome | returned outcome =>
      cases outcome with
      | error => exact True.intro
      | ok answer => exact Effect.Took.trans h hxy
    | _ => exact True.intro
  | _ =>
    cases q with
    | answering outcome | returned outcome =>
      cases outcome with
      | error => exact True.intro
      | ok answer => exact Effect.Took.trans h hxy
    | _ => exact True.intro

/-! ### What is there after a step -/

theorem visible_of_objects (h : ∀ id : ArtifactId,
    y.objects (metadataPath id.val) = x.objects (metadataPath id.val)) :
    y.visible format = x.visible format := by
  funext id
  rw [visible, visible, h id]

theorem visible_update {id : ArtifactId} {value : Option (List UInt8)}
    (h : y.objects = Function.update x.objects (metadataPath id.val) value) :
    y.visible format = Function.update (x.visible format) id
      (value.bind fun bytes => (format.fromSlice bytes).toOption) := by
  funext k
  by_cases hk : k = id
  · rw [hk, Function.update_self, visible, h, Function.update_self]
  · rw [Function.update_of_ne hk, visible, visible, h,
      Function.update_of_ne fun hpath => hk (metadataPath_inj hpath)]

theorem visible_put {a : WideArtifact} {bytes : List UInt8} (hvec : format.toVec a.val = .ok bytes)
    (h : y.objects = Function.update x.objects (metadataPath a.val.id) (some bytes)) :
    y.visible format = Function.update (x.visible format) a.id (some a.val) := by
  have hy : y.visible format = Function.update (x.visible format) a.id
      ((some bytes).bind fun bytes => (format.fromSlice bytes).toOption) := visible_update h
  rw [hy, Option.bind_some, format.roundTrip _ _ hvec]
  rfl

theorem Shows.put {s : MemoryArtifactStore} (h : Shows format x s) {a : WideArtifact}
    (hy : y.visible format = Function.update (x.visible format) a.id (some a.val)) :
    Shows format y (s.put a.val) := by
  intro k
  have hget : (s.put a.val).get k.val = if a.id = k then some a.val else s.get k.val :=
    (Keyed.get_insert s.artifacts a.val k.val).trans
      (if_congr ⟨fun hval => Subtype.ext hval, congrArg Subtype.val⟩ rfl rfl)
  rw [hget, hy, Function.update_apply]
  by_cases hk : a.id = k
  · rw [if_pos hk, if_pos hk.symm]
  · rw [if_neg hk, if_neg (Ne.symm hk)]
    exact h k

theorem Shows.delete {s : MemoryArtifactStore} (h : Shows format x s) {id : ArtifactId}
    (hy : y.visible format = Function.update (x.visible format) id none) :
    Shows format y (s.delete id.val) := by
  intro k
  rw [hy]
  by_cases hk : k = id
  · rw [hk, Function.update_self]
    exact Keyed.get_remove_self s.artifacts id.val
  · rw [Function.update_of_ne hk]
    exact (Keyed.get_remove_of_ne s.artifacts fun hval => hk (Subtype.ext hval)).trans (h k)

/-- A step shows an artifact as a put does, hides one as a delete does, or changes nothing. -/
theorem Alters.visible (h : Alters x.objects c y.objects) (hc : c.Sound format x) :
    y.visible format = x.visible format ∨
    (∃ a bytes, c = ⟨.put a, .putMetadata bytes⟩ ∧
      y.visible format = Function.update (x.visible format) a.id (some a.val)) ∨
    ∃ id, c = ⟨.delete id, .deleteMetadata⟩ ∧
      y.visible format = Function.update (x.visible format) id none := by
  generalize hy : y.objects = objects at h
  cases h with
  | nothing => exact .inl (visible_of_objects fun id => by rw [hy])
  | putData | deleteData =>
    refine .inl (visible_of_objects fun id => ?_)
    rw [hy, Function.update_of_ne (artifactPath_ne_metadataPath _ _).symm]
  | @putMetadata a bytes hput =>
    subst hput
    exact .inr (.inl ⟨a, bytes, rfl, visible_put hc.1 hy⟩)
  | @deleteMetadata id hdelete => exact .inr (.inr ⟨id, hdelete, visible_update hy⟩)

/-! ### A step of the call itself -/

section Own

variable {s : MemoryArtifactStore}

/-- A get between two steps. -/
theorem took_get (hreach : LeadsTo (step format backend) Orderly new x) (hs : Shows format x s)
    {id : ArtifactId} {m : Option Artifact} (hpending : x.Pending i (.get id))
    (hm : x.visible format id = m) : Took format backend x i (.get id) (.found m) :=
  ⟨x, x, hreach, .inl rfl, .refl, hpending, s, hs, hs,
    congrArg ArtifactAnswer.found ((hs id).trans hm)⟩

/-- A get that goes on. -/
theorem told_proceedGet (hreach : LeadsTo (step format backend) Orderly new x)
    (hx : Sound format x) (hs : Shows format x s) {id : ArtifactId} {q : Phase}
    (hc : x.calls[i]? = some ⟨.get id, q⟩) (htold : Told format backend x i ⟨.get id, q⟩)
    (h : proceedGet format backend x.objects id.val q = some p) :
    Told format backend x i ⟨.get id, p⟩ := by
  cases q with
  | getMetadata =>
    have hpending : x.Pending i (.get id) := ⟨.getMetadata, hc, by simp, by simp⟩
    simp only [proceedGet] at h
    split at h
    · next hnone =>
      cases h
      refine took_get hreach hs hpending ?_
      rw [visible, hnone, Option.bind_none]
    · next bytes hbytes =>
      split at h
      · next m hslice =>
        cases h
        refine took_get hreach hs hpending ?_
        rw [visible, hbytes, Option.bind_some, hslice]
        rfl
      · cases h
        exact True.intro
  | getData m =>
    obtain ⟨a, ha, hid, rfl⟩ := hx.calls _ (List.mem_of_getElem? hc)
    simp only [proceedGet] at h
    split at h
    · next data hdata =>
      cases h
      -- the bytes are those that were put with the metadata
      obtain ⟨b, hb, hid', rfl⟩ := hx.data hdata
      obtain rfl := hx.unique b a hb ha (hid'.trans hid.symm)
      exact htold
    · cases h
      exact True.intro
  | _ => cases h

/-- A step of a call: what it tells then is behind it. -/
theorem Told.moves (hreach : LeadsTo (step format backend) Orderly new x) (hallowed : Orderly x t)
    (hstep : step format backend x t = some y) (hx : Sound format x) (hs : Shows format x s)
    (hc : x.calls[i]? = some c) (htold : Told format backend x i c)
    (hmoves : Moves format backend x i c t p y.objects) :
    Told format backend y i ⟨c.operation, p⟩ := by
  have hxy : LeadsTo (step format backend) Orderly x y := .single ⟨t, hallowed, hstep⟩
  have hsound := hx.calls c (List.mem_of_getElem? hc)
  obtain ⟨op, q⟩ := c
  generalize hobjects : y.objects = objects at hmoves
  cases hmoves with
  | refused h =>
    cases op with
    | listBySession => exact True.intro
    | delete id =>
      cases q with
      | deleteMetadata =>
        have hremoves := hallowed.2
        simp only [Removes, hc] at hremoves
      | readEntries left found => cases left <;> cases h
      | _ => cases h <;> exact True.intro
    | _ =>
      cases q with
      | readEntries left found => cases left <;> cases h
      | _ => cases h <;> exact True.intro
  | lost h hdone =>
    cases op with
    | listBySession => exact True.intro
    | delete id =>
      cases q with
      | deleteMetadata =>
        cases h
        cases hdone
        exact took_step hreach hallowed hstep ⟨⟨_, hc, by simp, by simp⟩,
          s, hs, hs.delete (visible_update hobjects), rfl⟩
      | readEntries left found => cases left <;> cases h
      | _ => cases h <;> exact True.intro
    | _ =>
      cases q with
      | readEntries left found => cases left <;> cases h
      | _ => cases h <;> exact True.intro
  | listed h =>
    cases op with
    | listBySession => exact True.intro
    | _ => cases q <;> cases h
  | proceeds h =>
    simp only [proceed] at h
    split at h
    · next outcome =>
      cases h
      have hreturned := htold.trans hxy
      cases op <;> first | exact True.intro | cases outcome <;> exact hreturned
    · cases op with
      | listBySession => exact True.intro
      | get id =>
        obtain ⟨_, hget, hp⟩ := Option.map_eq_some_iff.mp h
        cases hp
        exact (told_proceedGet hreach hx hs hc htold hget).trans hxy
      | delete id =>
        cases q with
        | deleteData =>
          cases h
          exact True.intro
        | deleteMetadata =>
          cases h
          exact took_step hreach hallowed hstep ⟨⟨_, hc, by simp, by simp⟩,
            s, hs, hs.delete (visible_update hobjects), rfl⟩
        | _ => cases h
      | put a =>
        cases q with
        | putData =>
          simp only [proceedPut] at h
          split at h <;> cases h <;> exact True.intro
        | putMetadata bytes =>
          cases h
          exact took_step hreach hallowed hstep ⟨⟨_, hc, by simp, by simp⟩,
            s, hs, hs.put (visible_put hsound.1 hobjects), rfl⟩
        | _ => cases h

end Own

/-! ### Runs -/

variable (format backend) in
/-- What holds all along a run: what is there is what a store in memory has, and every call can
tell the moment that is behind it. -/
structure Story (x : ObjectArtifactStore) : Prop where
  reached : LeadsTo (step format backend) Orderly new x
  sound : Sound format x
  shown : ∃ s, Shows format x s
  told : ∀ (i : Nat) c, x.calls[i]? = some c → Told format backend x i c

/-- A step that changes what is there is one that a put or a delete takes effect in. -/
theorem Story.simulates (h : Story format backend x) (hstep : step format backend x t = some y)
    (hne : y.visible format ≠ x.visible format) :
    ∃ (i : Nat) (op : ArtifactOperation) (answer : ArtifactAnswer),
      x.Pending i op ∧ Simulates format op answer x y := by
  obtain ⟨s, hs⟩ := h.shown
  rcases step_cases hstep with ⟨op, -, rfl⟩ | ⟨i, c, p, hc, hmoves, -⟩ | ⟨-, rfl⟩
  · exact absurd rfl hne
  · rcases hmoves.alters.visible (h.sound.calls c (List.mem_of_getElem? hc)) with
      heq | ⟨a, bytes, rfl, hy⟩ | ⟨id, rfl, hy⟩
    · exact absurd heq hne
    · exact ⟨i, .put a, .stored a.val, ⟨_, hc, by simp, by simp⟩, s, hs, hs.put hy, rfl⟩
    · exact ⟨i, .delete id, .deleted, ⟨_, hc, by simp, by simp⟩, s, hs, hs.delete hy, rfl⟩
  · exact absurd rfl hne

theorem Story.shown_step (h : Story format backend x) (hstep : step format backend x t = some y) :
    ∃ s, Shows format y s := by
  by_cases hne : y.visible format = x.visible format
  · obtain ⟨s, hs⟩ := h.shown
    exact ⟨s, fun k => (hs k).trans (congrFun hne k).symm⟩
  · obtain ⟨i, op, answer, -, s, -, hs, -⟩ := h.simulates hstep hne
    exact ⟨(s.call op).1, hs⟩

theorem Story.step (h : Story format backend x) (hallowed : Orderly x t)
    (hstep : step format backend x t = some y) : Story format backend y := by
  have hxy : LeadsTo (ObjectArtifactStore.step format backend) Orderly x y :=
    .single ⟨t, hallowed, hstep⟩
  refine ⟨h.reached.trans hxy, h.sound.step hallowed.1 hstep, h.shown_step hstep,
    fun k e hk => ?_⟩
  have hstep' := step_cases hstep
  rcases hstep' with ⟨op, rfl, rfl⟩ | ⟨i, c, p, hc, hmoves, hcalls⟩ | ⟨rfl, rfl⟩
  · rcases Nat.lt_or_ge k x.calls.length with hlt | hge
    · rw [List.getElem?_append_left hlt] at hk
      exact (h.told k e hk).trans hxy
    · rw [List.getElem?_append_right hge, List.getElem?_singleton] at hk
      split at hk
      · cases hk
        cases op <;> exact True.intro
      · cases hk
  · by_cases hki : k = i
    · subst hki
      rw [hcalls, List.getElem?_set_self (List.getElem?_eq_some_iff.mp hc).1,
        Option.some.injEq] at hk
      subst hk
      obtain ⟨s, hs⟩ := h.shown
      exact (h.told k c hc).moves h.reached hallowed hstep h.sound hs hc hmoves
    · rw [hcalls, List.getElem?_set_ne (Ne.symm hki)] at hk
      exact (h.told k e hk).trans hxy
  · rw [List.getElem?_map, Option.map_eq_some_iff] at hk
    obtain ⟨⟨op, q⟩, hc, rfl⟩ := hk
    have htold := (h.told k _ hc).trans hxy
    cases q with
    | returned outcome => exact htold
    | _ => cases op <;> exact True.intro

theorem story (h : LeadsTo (step format backend) Orderly new x) : Story format backend x := by
  refine LeadsTo.invariant (Story format backend) h ⟨.refl, sound_new, ?_, ?_⟩
    fun x t y hx hallowed hstep => hx.step hallowed hstep
  · exact ⟨⟨Keyed.empty⟩, fun id => rfl⟩
  · rintro i c ⟨⟩

/-- **The object store refines the store in memory**: what is there is what some store in memory
has; a put, a get or a delete that returned took effect at one moment while it was under way, as
the call does in memory and with its answer; and what is there changes only so. -/
theorem simulates_of_leadsTo (h : LeadsTo (step format backend) Orderly new x) :
    (∃ s, Shows format x s) ∧
    (∀ (i : Nat) op answer, x.calls[i]? = some ⟨op, .returned (.ok answer)⟩ →
      (∀ sessionId, op ≠ .listBySession sessionId) → Took format backend x i op answer) ∧
    ∀ t y, Orderly x t → step format backend x t = some y →
      y.visible format ≠ x.visible format →
        ∃ (i : Nat) (op : ArtifactOperation) (answer : ArtifactAnswer),
          x.Pending i op ∧ Simulates format op answer x y := by
  have hx := story h
  refine ⟨hx.shown, fun i op answer hc hlist => ?_, fun t y _ hstep hne => hx.simulates hstep hne⟩
  have htold := hx.told i _ hc
  cases op with
  | listBySession sessionId => exact absurd rfl (hlist sessionId)
  | _ => exact htold

/-- A get that begins before a put of the artifact has written the metadata finds it or does not,
as the moment of its read has it. -/
theorem simulates_of_leadsTo_early :
    let artifact : Artifact := ⟨1, none, "n", "t", [7], .null, 0⟩
    let format : ArtifactFormat :=
      ⟨fun
        | ⟨1, none, "n", "t", [7], .null, 0⟩ => .ok [0]
        | _ => .error "",
       fun _ => .ok artifact,
       fun a bytes h => by
        split at h
        · rfl
        · cases h⟩
    ∃ x : ObjectArtifactStore,
      Took format ⟨"disk", id⟩ x 0 (.put ⟨artifact, by decide⟩) (.stored artifact) ∧
        Took format ⟨"disk", id⟩ x 1 (.get ⟨1, by decide⟩) (.found none) := by
  intro artifact format
  have hrun : ∃ x, takeTurns (step format ⟨"disk", id⟩) Orderly new
      [.enter (.put ⟨artifact, by decide⟩), .proceed 0, .enter (.get ⟨1, by decide⟩), .proceed 1,
        .proceed 0, .proceed 1, .proceed 0] = some x := ⟨_, rfl⟩
  obtain ⟨x, hx⟩ := hrun
  have htook := (simulates_of_leadsTo (leadsTo_of_takeTurns hx)).2.1
  cases hx
  exact ⟨_, htook 0 _ _ rfl (by simp), htook 1 _ _ rfl (by simp)⟩

end ObjectArtifactStore

end Behest
