import Behest.Effect.Crowd
import Behest.Snapshot.Published

/-!
# What the calls of the snapshot store tell

What a call tells is what there was at a moment while it was under way. The moments are states of
the run: a load tells what the run's file was when it opened it, a save and a delete change it in
one step, and each snapshot of a listing was in a file when that was opened.
-/

namespace Behest

open Effect Files

namespace FileSnapshotStore

/-! ### The contents as one map -/

/-- The bytes of the snapshot of each run. -/
abbrev Contents : Type := SnapshotRunId → Option (List UInt8)

def contents (x : FileSnapshotStore) : Contents := fun r => x.disk.content (pathFor r.val)

variable (format : SnapshotFormat)

/-- A load at one moment. -/
def loadNow : Option (List UInt8) → Except RuntimeError (Option Snapshot)
  | none => .ok none
  | some bytes => (decode format bytes).map some

/-- A call at one moment: the contents before and after it, and its answer. -/
def Atomic : SnapshotOperation → Contents → Contents → SnapshotAnswer → Prop
  | .save snapshot wide, m, m', .saved =>
      ∃ bytes, Serialized format snapshot bytes ∧
        m' = Function.update m ⟨snapshot.runId, wide⟩ (some bytes)
  | .load runId, m, m', .loaded found => m' = m ∧ loadNow format (m runId) = .ok found
  | .delete runId, m, m', .deleted => m' = Function.update m runId none
  | _, _, _, _ => False

/-- The call is under way. -/
def Pending (x : FileSnapshotStore) (i : Nat) (op : SnapshotOperation) : Prop :=
  ∃ p, x.calls[i]? = some ⟨op, p⟩ ∧ p.pending = true

/-! ### Moments of a run -/

section Moments

variable (allowed : FileSnapshotStore → Turn → Prop) (origin x : FileSnapshotStore) (i : Nat)
  (op : SnapshotOperation)

/-- While the call was under way there was a state like this. -/
def Seen (P : FileSnapshotStore → Prop) : Prop :=
  Effect.Seen (step format) allowed origin x fun y => y.Pending i op ∧ P y

/-- While the call was under way it took effect, in one step or between two. -/
def Took (answer : SnapshotAnswer) : Prop :=
  Effect.Took (step format) allowed origin x fun y z =>
    y.Pending i op ∧ Atomic format op y.contents z.contents answer

/-- The bytes are the whole text of a snapshot that was saved under the name, or were there. -/
def Whole (n : String) (bytes : List UInt8) : Prop :=
  origin.disk.content n = some bytes ∨
    ∃ c ∈ x.calls, ∃ snapshot wide, c.operation = .save snapshot wide ∧
      n = pathFor snapshot.runId ∧ Serialized format snapshot bytes

/-- A file that a listing opens had the snapshot. -/
def ListedFrom (snapshot : Snapshot) : Prop :=
  Seen format allowed origin x i .list fun y =>
    ∃ name bytes, extension name = some "json" ∧ y.disk.content name = some bytes ∧
      decode format bytes = .ok snapshot

end Moments

/-- The system refuses no look whether there is a file. -/
def SeesFiles (x : FileSnapshotStore) : Turn → Prop
  | .refuse i _ =>
      match x.calls[i]? with
      | some ⟨_, .checkFile⟩ => False
      | _ => True
  | _ => True

instance (x : FileSnapshotStore) (t : Turn) : Decidable (SeesFiles x t) := by
  unfold SeesFiles
  split
  · split <;> infer_instance
  · infer_instance

/-- Saves of one run come one after another, and looks succeed. -/
def Orderly (x : FileSnapshotStore) (t : Turn) : Prop := SoleSave x t ∧ SeesFiles x t

instance (x : FileSnapshotStore) (t : Turn) : Decidable (Orderly x t) := by
  unfold Orderly
  infer_instance

section Told

variable (allowed : FileSnapshotStore → Turn → Prop) (origin x : FileSnapshotStore) (i : Nat)

/-- What is behind the answer of a call. -/
def Answered : SnapshotOperation → SnapshotAnswer → Prop
  | .load runId, .loaded (some snapshot) =>
      Seen format allowed origin x i (.load runId) fun y =>
        ∃ bytes, y.contents runId = some bytes ∧ decode format bytes = .ok snapshot
  | .load runId, .loaded none =>
      (∀ x t, allowed x t → SeesFiles x t) →
        Seen format allowed origin x i (.load runId) fun y => y.contents runId = none
  | .save snapshot wide, .saved => Took format allowed origin x i (.save snapshot wide) .saved
  | .delete runId, .deleted =>
      (∀ x t, allowed x t → SeesFiles x t) → Took format allowed origin x i (.delete runId) .deleted
  | .list, .listed snapshots => ∀ s ∈ snapshots, ListedFrom format allowed origin x i s
  | _, _ => False

/-- What is behind where a call stands. -/
def Told (c : Call) : Prop :=
  match c.operation, c.phase with
  | .load runId, .readFile file _ =>
      Seen format allowed origin x i (.load runId) fun y =>
        y.contents runId = some (x.disk.file file)
  | .list, .readEntry file _ found =>
      (Seen format allowed origin x i .list fun y =>
        ∃ name, extension name = some "json" ∧ y.disk.content name = some (x.disk.file file)) ∧
      ∀ s ∈ found, ListedFrom format allowed origin x i s
  | .list, .nextEntry found | .list, .checkEntry _ found | .list, .openEntry _ found =>
      ∀ s ∈ found, ListedFrom format allowed origin x i s
  | op, .answering (.ok answer) | op, .returned (.ok answer) =>
      Answered format allowed origin x i op answer
  | _, _ => True

end Told

variable {format} {allowed : FileSnapshotStore → Turn → Prop} {origin x y : FileSnapshotStore}
  {t : Turn} {i : Nat} {op : SnapshotOperation} {answer : SnapshotAnswer} {c : Call} {p : Phase}

/-! ### Later states -/

theorem Seen.trans {P : FileSnapshotStore → Prop} (h : Seen format allowed origin x i op P)
    (hxy : LeadsTo (step format) allowed x y) : Seen format allowed origin y i op P :=
  Effect.Seen.trans h hxy

theorem Took.trans (h : Took format allowed origin x i op answer)
    (hxy : LeadsTo (step format) allowed x y) : Took format allowed origin y i op answer :=
  Effect.Took.trans h hxy

theorem Seen.imp {P Q : FileSnapshotStore → Prop} (h : Seen format allowed origin x i op P)
    (hPQ : ∀ z, P z → Q z) : Seen format allowed origin x i op Q :=
  Effect.Seen.imp h fun z hz => ⟨hz.1, hPQ z hz.2⟩

theorem Answered.trans (h : Answered format allowed origin x i op answer)
    (hxy : LeadsTo (step format) allowed x y) : Answered format allowed origin y i op answer := by
  cases op <;> cases answer <;> try exact h
  · exact Took.trans h hxy
  · next found =>
    cases found with
    | none => exact fun hlook => (h hlook).trans hxy
    | some snapshot => exact Seen.trans h hxy
  · exact fun hlook => (h hlook).trans hxy
  · exact fun s hs => Seen.trans (h s hs) hxy

/-- What is behind where a call stands stays, as long as the files that are read stay. -/
theorem Told.trans (h : Told format allowed origin x i c)
    (hxy : LeadsTo (step format) allowed x y)
    (hfiles : ∀ file, Published x.disk file → y.disk.file file = x.disk.file file)
    (hc : c.Sound format x.disk) : Told format allowed origin y i c := by
  obtain ⟨op, q⟩ := c
  cases q with
  | answering outcome | returned outcome =>
    cases outcome with
    | ok answer =>
      have hanswered : Answered format allowed origin x i op answer := by
        cases op <;> exact h
      have := hanswered.trans hxy
      cases op <;> exact this
    | error => cases op <;> exact True.intro
  | readFile file got =>
    cases op with
    | load runId =>
      have hfile := hfiles file hc.1
      simp only [Told] at h ⊢
      rw [hfile]
      exact h.trans hxy
    | _ => exact True.intro
  | readEntry file got found =>
    cases op with
    | list =>
      have hfile := hfiles file hc.1
      simp only [Told] at h ⊢
      rw [hfile]
      exact ⟨h.1.trans hxy, fun s hs => Seen.trans (h.2 s hs) hxy⟩
    | _ => exact True.intro
  | nextEntry | checkEntry | openEntry =>
    cases op with
    | list => exact fun s hs => Seen.trans (h s hs) hxy
    | _ => exact True.intro
  | _ => cases op <;> exact True.intro

/-! ### A step of the call itself -/

section Own

variable {q : Phase} {size : Nat} {d : Disk String UInt8} {hasDir : Bool}

theorem told_proceedLoad {runId : SnapshotRunId}
    (hnow : ∀ P : FileSnapshotStore → Prop, P x → Seen format allowed origin y i (.load runId) P)
    (hsound : Call.Sound format ⟨.load runId, q⟩ x.disk)
    (htold : Told format allowed origin y i ⟨.load runId, q⟩) (hdisk : y.disk = x.disk)
    (h : proceedLoad format x.disk runId.val size q = some p) :
    Told format allowed origin y i ⟨.load runId, p⟩ := by
  cases q with
  | checkFile =>
    simp only [proceedLoad] at h
    split at h
    · cases h
      exact True.intro
    · next hnone =>
      cases h
      refine fun _ => hnow _ (Disk.content_eq_none.mpr ?_)
      simpa using hnone
  | openFile =>
    simp only [proceedLoad] at h
    split at h
    · next file hfile =>
      cases h
      refine hnow _ ?_
      rw [hdisk]
      exact Disk.content_of_names hfile
    · cases h
      exact True.intro
  | readFile file got =>
    simp only [proceedLoad] at h
    split at h
    · next hend =>
      split at h
      · next snapshot hdecode =>
        cases h
        rw [eq_file_of_nextPart hsound.2 hend, ← hdisk] at hdecode
        exact Seen.imp htold fun z hz => ⟨_, hz, hdecode⟩
      · cases h
        exact True.intro
    · cases h
      exact htold
  | _ => cases h

theorem told_proceedList
    (hnow : ∀ P : FileSnapshotStore → Prop, P x → Seen format allowed origin y i .list P)
    (hsound : Call.Sound format ⟨.list, q⟩ x.disk)
    (htold : Told format allowed origin y i ⟨.list, q⟩) (hdisk : y.disk = x.disk)
    (h : proceedList format x.disk hasDir size q = some p) :
    Told format allowed origin y i ⟨.list, p⟩ := by
  cases q with
  | checkDir =>
    cases h
    cases hasDir with
    | true => exact True.intro
    | false =>
      rintro s ⟨⟩
  | readDir =>
    cases h
    rintro s ⟨⟩
  | checkEntry name found =>
    simp only [proceedList] at h
    split at h <;> cases h <;> exact htold
  | openEntry name found =>
    simp only [proceedList] at h
    split at h
    · next file hfile =>
      cases h
      refine ⟨hnow _ ⟨name, hsound, ?_⟩, htold⟩
      rw [hdisk]
      exact Disk.content_of_names hfile
    · cases h
      exact htold
  | readEntry file got found =>
    simp only [proceedList] at h
    split at h
    · next hend =>
      split at h
      · next snapshot hdecode =>
        cases h
        rw [eq_file_of_nextPart hsound.2 hend, ← hdisk] at hdecode
        intro s hs
        rcases List.mem_append.mp hs with hs | hs
        · exact htold.2 s hs
        · rw [List.mem_singleton.mp hs]
          refine Seen.imp htold.1 fun z hz => ?_
          obtain ⟨name, hname, hcontent⟩ := hz
          exact ⟨name, _, hname, hcontent, hdecode⟩
      · cases h
        exact htold.2
    · cases h
      exact htold
  | _ => cases h

theorem contents_remove {runId : SnapshotRunId} (h : x.disk.remove (pathFor runId.val) = some d) :
    (fun r : SnapshotRunId => d.content (pathFor r.val)) =
      Function.update x.contents runId none := by
  funext r
  by_cases hr : r = runId
  · rw [hr, Function.update_self, Disk.content_remove_self h]
  · rw [Function.update_of_ne hr]
    exact Disk.content_remove_of_ne h fun hpath => hr (pathFor_inj hpath)

theorem contents_rename {snapshot : Snapshot} (wide : snapshot.runId < 2 ^ 128) {file : Nat}
    (h : x.disk.rename (tempPath snapshot.runId) (pathFor snapshot.runId) = some d)
    (hfile : x.disk.names (tempPath snapshot.runId) = some file) :
    (fun r : SnapshotRunId => d.content (pathFor r.val)) =
      Function.update x.contents ⟨snapshot.runId, wide⟩ (some (x.disk.file file)) := by
  funext r
  by_cases hr : r = ⟨snapshot.runId, wide⟩
  · rw [hr, Function.update_self, Disk.content_rename_target h hfile]
  · rw [Function.update_of_ne hr]
    exact Disk.content_rename_of_ne h (isVisible_pathFor _ _) fun hpath =>
      hr (pathFor_inj (s := ⟨snapshot.runId, wide⟩) hpath)

/-- A step that changes the snapshots is that of a save or of a delete under way. -/
theorem Alters.atomic (h : Alters x.disk c p y.disk) (hsound : c.Sound format x.disk)
    (hne : y.contents ≠ x.contents) :
    ∃ answer, p = .answering (.ok answer) ∧ c.phase.pending = true ∧
      Atomic format c.operation x.contents y.contents answer := by
  obtain ⟨r, hr⟩ := Function.ne_iff.mp hne
  have hcontent := h.content hsound.owns (isVisible_pathFor r.val)
  have hcontents : y.contents = fun r : SnapshotRunId => y.disk.content (pathFor r.val) := rfl
  generalize y.disk = d at h hcontent hcontents
  rcases hcontent with heq | ⟨snapshot, wide, file, rfl, -, hname, rfl, -⟩ | ⟨runId, rfl, -, rfl, -⟩
  · rw [hcontents] at hr
    exact absurd heq hr
  · obtain ⟨file', hname', hbytes⟩ := hsound
    cases h with
    | nothing => exact absurd hcontents hne
    | renamed hc hrename =>
      cases hc
      exact ⟨.saved, rfl, rfl, _, hbytes, hcontents.trans (contents_rename wide hrename hname')⟩
  · cases h with
    | nothing => exact absurd hcontents hne
    | removed hc hremove =>
      cases hc
      exact ⟨.deleted, rfl, rfl, hcontents.trans (contents_remove hremove)⟩

/-- A step of a call: what it tells then is behind it. -/
theorem Told.moves (hreach : LeadsTo (step format) allowed origin x) (hallowed : allowed x t)
    (hstep : step format x t = some y) (hc : x.calls[i]? = some c)
    (hsound : c.Sound format x.disk) (htold : Told format allowed origin y i c)
    (hmoves : Moves format x i c t p y.disk) :
    Told format allowed origin y i ⟨c.operation, p⟩ := by
  have hxy : LeadsTo (step format) allowed x y := .single ⟨t, hallowed, hstep⟩
  obtain ⟨op, q⟩ := c
  have hnow : q.pending = true → ∀ P : FileSnapshotStore → Prop, P x →
      Seen format allowed origin y i op P := fun hq P hP => ⟨x, hreach, hxy, ⟨q, hc, hq⟩, hP⟩
  generalize hd : y.disk = d at hmoves
  cases hmoves with
  | refused h =>
    cases q with
    | checkFile =>
      cases op with
      | load | delete =>
        cases h
        intro hlook
        have hsees := hlook x _ hallowed
        simp only [SeesFiles, hc] at hsees
      | _ => cases h
    | checkDir =>
      cases op with
      | list =>
        cases h
        rintro s ⟨⟩
      | _ => cases h
    | readEntry file got found =>
      cases op with
      | list =>
        cases h
        exact htold.2
      | _ =>
        cases h
        exact True.intro
    | nextEntry | checkEntry | openEntry =>
      cases op <;> cases h <;> first | exact htold | exact True.intro
    | _ => cases op <;> cases h <;> exact True.intro
  | @picked name _ h =>
    cases op with
    | list =>
      cases q with
      | nextEntry found => cases name <;> cases h <;> exact htold
      | _ => cases name <;> cases h
    | _ => cases q <;> cases name <;> cases h
  | proceeds h =>
    simp only [proceed] at h
    split at h
    · next outcome =>
      cases h
      cases outcome <;> cases op <;> exact htold
    · cases op with
      | load runId =>
        obtain ⟨_, hload, hp⟩ := Option.map_eq_some_iff.mp h
        cases hp
        have hq : q.pending = true := by cases q <;> first | rfl | cases hload
        exact told_proceedLoad (hnow hq) hsound htold hd hload
      | list =>
        obtain ⟨_, hlist, hp⟩ := Option.map_eq_some_iff.mp h
        cases hp
        have hq : q.pending = true := by cases q <;> first | rfl | cases hlist
        exact told_proceedList (hnow hq) hsound htold hd hlist
      | delete runId =>
        cases q with
        | checkFile =>
          simp only [proceedDelete] at h
          split at h
          · cases h
            exact True.intro
          · next hnone =>
            cases h
            have habsent : x.contents runId = none := Disk.content_eq_none.mpr (by simpa using hnone)
            have hseen := hnow rfl (fun z => z.contents runId = none) habsent
            refine fun _ => Effect.Seen.took hseen fun z hz => ⟨hz.1, ?_⟩
            exact (Function.update_eq_self_iff.mpr hz.2.symm).symm
        | remove =>
          simp only [proceedDelete] at h
          split at h
          · next d' hremove =>
            cases h
            refine fun _ => took_step hreach hallowed hstep ⟨⟨.remove, hc, rfl⟩, ?_⟩
            exact (funext fun r => by rw [contents, hd]).trans (contents_remove hremove)
          · cases h
            exact True.intro
        | _ => cases h
      | save snapshot wide =>
        cases q with
        | createDir =>
          simp only [proceedSave] at h
          split at h <;> cases h <;> exact True.intro
        | openTemp =>
          cases h
          exact True.intro
        | writeTemp file offset left => cases left <;> cases h <;> exact True.intro
        | rename =>
          simp only [proceedSave] at h
          split at h
          · next d' hrename =>
            cases h
            obtain ⟨file, hname, hbytes⟩ := hsound
            refine took_step hreach hallowed hstep ⟨⟨.rename, hc, rfl⟩, _, hbytes, ?_⟩
            exact (funext fun r => by rw [contents, hd]).trans (contents_rename wide hrename hname)
          · cases h
            exact True.intro
        | _ => cases h

end Own

/-! ### Runs -/

/-- What is whole stays so: calls keep their operations. -/
theorem Whole.step {n : String} {bytes : List UInt8} (h : Whole format origin x n bytes)
    (hstep : step format x t = some y) : Whole format origin y n bytes := by
  refine h.imp_right ?_
  rintro ⟨c, hc, snapshot, wide, hop, hn, hbytes⟩
  obtain ⟨c', hc', hop'⟩ : ∃ c' ∈ y.calls, c'.operation = c.operation := by
    rcases step_cases hstep with ⟨op, rfl, rfl⟩ | ⟨i, e, p, he, -, hcalls⟩ | ⟨rfl, rfl⟩
    · exact ⟨c, List.mem_append_left _ hc, rfl⟩
    · obtain ⟨k, hk⟩ := List.mem_iff_getElem?.mp hc
      rw [hcalls]
      by_cases hki : k = i
      · subst hki
        obtain rfl : c = e := Option.some.inj (hk.symm.trans he)
        exact ⟨_, List.mem_of_getElem? (List.getElem?_set_self (List.getElem?_eq_some_iff.mp hk).1),
          rfl⟩
      · exact ⟨c, List.mem_of_getElem? ((List.getElem?_set_ne (Ne.symm hki)).trans hk), rfl⟩
    · exact ⟨kill c, List.mem_map_of_mem hc, kill_operation c⟩
  exact ⟨c', hc', snapshot, wide, hop'.trans hop, hn, hbytes⟩

variable (format) (allowed) in
/-- What holds all along a run: calls know what is on the disk, what can be opened is whole, and
every call can tell what is behind it. -/
structure Story (origin x : FileSnapshotStore) : Prop where
  reached : LeadsTo (step format) allowed origin x
  sound : Sound format x
  whole : ∀ n, IsVisible n → ∀ bytes, x.disk.content n = some bytes →
    Whole format origin x n bytes
  told : ∀ (i : Nat) c, x.calls[i]? = some c → Told format allowed origin x i c

/-- A file that gets a visible name is the whole text of the snapshot of its save. -/
theorem Story.whole_step (h : Story format allowed origin x) (hstep : step format x t = some y)
    {n : String} (hn : IsVisible n) {bytes : List UInt8} (hbytes : y.disk.content n = some bytes) :
    Whole format origin y n bytes := by
  have hkept : y.disk.content n = x.disk.content n → Whole format origin y n bytes := fun heq =>
    (h.whole n hn bytes (heq ▸ hbytes)).step hstep
  have hstep' := step_cases hstep
  rcases hstep' with ⟨op, -, rfl⟩ | ⟨i, c, p, hc, hmoves, hcalls⟩ | ⟨-, rfl⟩
  · exact hkept rfl
  · have hsound := h.sound.calls c (List.mem_of_getElem? hc)
    rcases hmoves.alters.content hsound.owns hn with heq |
      ⟨snapshot, wide, file, rfl, rfl, hname, -, hcontent⟩ | ⟨runId, -, -, -, hnone⟩
    · exact hkept heq
    · obtain ⟨file', hname', hserialized⟩ := hsound
      obtain rfl : file = file' := Option.some.inj (hname.symm.trans hname')
      rw [hcontent, Option.some.injEq] at hbytes
      refine .inr ⟨⟨.save snapshot wide, p⟩, ?_, snapshot, wide, rfl, rfl, hbytes ▸ hserialized⟩
      rw [hcalls]
      exact List.mem_of_getElem? (List.getElem?_set_self (List.getElem?_eq_some_iff.mp hc).1)
    · rw [hnone] at hbytes
      cases hbytes
  · exact hkept rfl

theorem Story.step (h : Story format allowed origin x) (hallowed : allowed x t)
    (hsole : SoleSave x t) (hstep : step format x t = some y) :
    Story format allowed origin y := by
  have hxy : LeadsTo (FileSnapshotStore.step format) allowed x y := .single ⟨t, hallowed, hstep⟩
  refine ⟨h.reached.trans hxy, h.sound.step hsole hstep,
    fun n hn bytes hbytes => h.whole_step hstep hn hbytes, fun k e hk => ?_⟩
  have hstep' := step_cases hstep
  rcases hstep' with ⟨op, rfl, rfl⟩ | ⟨i, c, p, hc, hmoves, hcalls⟩ | ⟨rfl, rfl⟩
  · rcases Nat.lt_or_ge k x.calls.length with hlt | hge
    · rw [List.getElem?_append_left hlt] at hk
      exact (h.told k e hk).trans hxy (fun _ _ => rfl)
        (h.sound.calls e (List.mem_of_getElem? hk))
    · rw [List.getElem?_append_right hge, List.getElem?_singleton] at hk
      split at hk
      · cases hk
        cases op <;> exact True.intro
      · cases hk
  · have hsound := h.sound.calls c (List.mem_of_getElem? hc)
    have hfiles : ∀ file, Published x.disk file → y.disk.file file = x.disk.file file :=
      fun file hfile => (hmoves.alters.published hsound.owns hfile).2
    by_cases hki : k = i
    · subst hki
      rw [hcalls, List.getElem?_set_self (List.getElem?_eq_some_iff.mp hc).1,
        Option.some.injEq] at hk
      subst hk
      exact ((h.told k c hc).trans hxy hfiles hsound).moves h.reached hallowed hstep hc hsound
        hmoves
    · rw [hcalls, List.getElem?_set_ne (Ne.symm hki)] at hk
      exact (h.told k e hk).trans hxy hfiles (h.sound.calls e (List.mem_of_getElem? hk))
  · rw [List.getElem?_map, Option.map_eq_some_iff] at hk
    obtain ⟨⟨op, q⟩, hc, rfl⟩ := hk
    have htold := (h.told k _ hc).trans hxy (fun _ _ => rfl)
      (h.sound.calls _ (List.mem_of_getElem? hc))
    cases q with
    | returned outcome => exact htold
    | _ => cases op <;> exact True.intro

theorem story (disk : Disk String UInt8) (hasDir : Bool)
    (h : LeadsTo (step format) allowed (new disk hasDir) x)
    (hsole : ∀ x t, allowed x t → SoleSave x t) :
    Story format allowed (new disk hasDir) x := by
  refine LeadsTo.invariant (Story format allowed (new disk hasDir)) h
    ⟨.refl, sound_new disk hasDir, fun n _ bytes hbytes => .inl hbytes, ?_⟩
    fun x t y hx hallowed hstep => hx.step hallowed (hsole x t hallowed) hstep
  rintro i c ⟨⟩

/-- **Whatever the order of the steps and wherever calls fail or a process crashes**, a file that
a load or a listing can open is the whole text of a snapshot that was saved under its name, or
was there at the start; and every snapshot that a load or a listing returns was in such a file
while the call was under way. -/
theorem whole_of_leadsTo (disk : Disk String UInt8) (hasDir : Bool)
    (h : LeadsTo (step format) SoleSave (new disk hasDir) x) :
    (∀ n, IsVisible n → ∀ bytes, x.disk.content n = some bytes →
      Whole format (new disk hasDir) x n bytes) ∧
    (∀ (i : Nat) runId snapshot,
      x.calls[i]? = some ⟨.load runId, .returned (.ok (.loaded (some snapshot)))⟩ →
        Seen format SoleSave (new disk hasDir) x i (.load runId) fun y =>
          ∃ bytes, y.contents runId = some bytes ∧ decode format bytes = .ok snapshot ∧
            Whole format (new disk hasDir) y (pathFor runId.val) bytes) ∧
    ∀ (i : Nat) snapshots, x.calls[i]? = some ⟨.list, .returned (.ok (.listed snapshots))⟩ →
      ∀ s ∈ snapshots, Seen format SoleSave (new disk hasDir) x i .list fun y =>
        ∃ name bytes, extension name = some "json" ∧ y.disk.content name = some bytes ∧
          decode format bytes = .ok s ∧ Whole format (new disk hasDir) y name bytes := by
  have hstory := story disk hasDir h fun _ _ hsole => hsole
  -- at the moment that is behind an answer, what can be opened is whole as well
  have hwhole : ∀ y, LeadsTo (step format) SoleSave (new disk hasDir) y → ∀ n, IsVisible n →
      ∀ bytes, y.disk.content n = some bytes → Whole format (new disk hasDir) y n bytes :=
    fun y hy => (story disk hasDir hy fun _ _ hsole => hsole).whole
  refine ⟨hstory.whole, fun i runId snapshot hc => ?_, fun i snapshots hc s hs => ?_⟩
  · obtain ⟨y, hy, hyx, hpending, bytes, hbytes, hdecode⟩ := hstory.told i _ hc
    exact ⟨y, hy, hyx, hpending, bytes, hbytes, hdecode,
      hwhole y hy _ (isVisible_pathFor _) _ hbytes⟩
  · obtain ⟨y, hy, hyx, hpending, name, bytes, hname, hbytes, hdecode⟩ := hstory.told i _ hc s hs
    exact ⟨y, hy, hyx, hpending, name, bytes, hname, hbytes, hdecode,
      hwhole y hy _ (isVisible_of_extension hname) _ hbytes⟩

/-- A process crashes while it writes a snapshot; the next one writes over what is left. -/
theorem whole_of_leadsTo_crashed :
    let snapshot : Snapshot :=
      ⟨1, 2, .callingModel, 0, .callingModel, .new 0 0, none, none, none,
        ⟨none, some 1, "p", "m", "i", .null, .auto, none⟩, 0, 0⟩
    let format : SnapshotFormat := ⟨fun _ => .ok "ab", fun _ => .ok snapshot⟩
    ∃ x : FileSnapshotStore, x.calls.length = 2 ∧ x.disk.content (pathFor 1) = some [97, 98] ∧
      Whole format (new Disk.empty false) x (pathFor 1) [97, 98] := by
  intro snapshot format
  obtain ⟨x, hx, hlength, hcontent⟩ := exists_leadsTo (step format) SoleSave
    (new Disk.empty false)
    [.enter (.save snapshot (by decide)), .proceed 0 0, .proceed 0 0, .proceed 0 0, .crash,
      .enter (.save snapshot (by decide)), .proceed 1 0, .proceed 1 0, .proceed 1 0, .proceed 1 0,
      .proceed 1 0, .proceed 1 0]
    (fun x => x.calls.length = 2 ∧ x.disk.content (pathFor 1) = some [97, 98]) (by decide)
  exact ⟨x, hlength, hcontent, (whole_of_leadsTo Disk.empty false hx).1 _
    (isVisible_pathFor 1) _ hcontent⟩

/-- Saves of one run must not overlap: one writes on in the file that the other has published. -/
theorem exists_not_whole :
    ∃ (format : SnapshotFormat) (x : FileSnapshotStore),
      LeadsTo (step format) (fun _ _ => True) (new Disk.empty false) x ∧
        ∃ bytes, x.disk.content (pathFor 1) = some bytes ∧
          ¬ Whole format (new Disk.empty false) x (pathFor 1) bytes := by
  let snapshot (iteration : Nat) : Snapshot :=
    ⟨1, 2, .callingModel, iteration, .callingModel, .new 0 0, none, none, none,
      ⟨none, some 1, "p", "m", "i", .null, .auto, none⟩, 0, 0⟩
  let format : SnapshotFormat :=
    ⟨fun s => .ok (if s.iteration = 0 then "ab" else "c"), fun _ => .ok (snapshot 0)⟩
  obtain ⟨x, hx, hcontent⟩ := exists_leadsTo (step format) (fun _ _ => True)
    (new Disk.empty false)
    [.enter (.save (snapshot 0) (by decide)), .proceed 0 0, .proceed 0 0, .proceed 0 0,
      .enter (.save (snapshot 1) (by decide)), .proceed 1 0, .proceed 1 0, .proceed 1 0,
      .proceed 1 0, .proceed 1 0, .proceed 0 0]
    (fun x => x.disk.content (pathFor 1) = some [99, 98]) (by decide)
  refine ⟨format, x, hx, [99, 98], hcontent, ?_⟩
  rintro (hthere | ⟨-, -, s, -, -, -, text, htext, hbytes⟩)
  · cases hthere
  · -- the file has the first byte of the one text and the second of the other
    cases htext
    by_cases hs : s.iteration = 0
    · rw [if_pos hs] at hbytes
      exact absurd hbytes (by decide)
    · rw [if_neg hs] at hbytes
      exact absurd hbytes (by decide)

/-- **A save, a load or a delete that returns took effect at one moment while it was under way**,
and the snapshots change only so: one step of a save or of a delete that is under way. -/
theorem took_of_leadsTo (disk : Disk String UInt8) (hasDir : Bool)
    (h : LeadsTo (step format) Orderly (new disk hasDir) x) :
    (∀ (i : Nat) op answer, x.calls[i]? = some ⟨op, .returned (.ok answer)⟩ →
      (∀ snapshots, answer ≠ .listed snapshots) →
        Took format Orderly (new disk hasDir) x i op answer) ∧
    ∀ t y, Orderly x t → step format x t = some y → y.contents ≠ x.contents →
      ∃ (i : Nat) (op : SnapshotOperation) (answer : SnapshotAnswer), x.Pending i op ∧
        y.calls[i]? = some ⟨op, .answering (.ok answer)⟩ ∧
        Atomic format op x.contents y.contents answer := by
  have hstory := story disk hasDir h fun _ _ horderly => horderly.1
  refine ⟨fun i op answer hc hlist => ?_, fun t y horderly hstep hne => ?_⟩
  · have htold : Answered format Orderly (new disk hasDir) x i op answer := by
      have := hstory.told i _ hc
      cases op <;> exact this
    have hlook : ∀ x t, Orderly x t → SeesFiles x t := fun _ _ horderly => horderly.2
    cases op with
    | load runId =>
      cases answer with
      | loaded found =>
        cases found with
        | none =>
          exact Effect.Seen.took (htold hlook) fun z hz => ⟨hz.1, rfl, by rw [hz.2]; rfl⟩
        | some snapshot =>
          refine Effect.Seen.took htold fun z hz => ?_
          obtain ⟨hpending, bytes, hbytes, hdecode⟩ := hz
          exact ⟨hpending, rfl, by rw [hbytes, loadNow, hdecode]; rfl⟩
      | _ => exact htold.elim
    | save snapshot wide =>
      cases answer with
      | saved => exact htold
      | _ => exact htold.elim
    | delete runId =>
      cases answer with
      | deleted => exact htold hlook
      | _ => exact htold.elim
    | list =>
      cases answer with
      | listed snapshots => exact absurd rfl (hlist snapshots)
      | _ => exact htold.elim
  · rcases step_cases hstep with ⟨op, -, rfl⟩ | ⟨i, c, p, hc, hmoves, hcalls⟩ | ⟨-, rfl⟩
    · exact absurd rfl hne
    · obtain ⟨answer, rfl, hpending, hatomic⟩ :=
        hmoves.alters.atomic (hstory.sound.calls c (List.mem_of_getElem? hc)) hne
      refine ⟨i, c.operation, answer, ⟨c.phase, hc, hpending⟩, ?_, hatomic⟩
      rw [hcalls]
      exact List.getElem?_set_self (List.getElem?_eq_some_iff.mp hc).1
    · exact absurd rfl hne

/-- A save has returned. -/
def Phase.saved : Phase → Bool
  | .returned (.ok .saved) => true
  | _ => false

/-- A load has returned without a snapshot. -/
def Phase.absent : Phase → Bool
  | .returned (.ok (.loaded none)) => true
  | _ => false

theorem Phase.eq_of_saved (h : p.saved = true) : p = .returned (.ok .saved) := by
  unfold Phase.saved at h
  split at h
  · rfl
  · cases h

theorem Phase.eq_of_absent (h : p.absent = true) : p = .returned (.ok (.loaded none)) := by
  unfold Phase.absent at h
  split at h
  · rfl
  · cases h

/-- A load while a save of its run has written but not renamed: it tells that there is none. -/
theorem took_of_leadsTo_early :
    let snapshot : Snapshot :=
      ⟨1, 2, .callingModel, 0, .callingModel, .new 0 0, none, none, none,
        ⟨none, some 1, "p", "m", "i", .null, .auto, none⟩, 0, 0⟩
    let format : SnapshotFormat := ⟨fun _ => .ok "ab", fun _ => .ok snapshot⟩
    ∃ (x : FileSnapshotStore) (save load : SnapshotOperation),
      Took format Orderly (new Disk.empty false) x 0 save .saved ∧
        Took format Orderly (new Disk.empty false) x 1 load (.loaded none) := by
  intro snapshot format
  obtain ⟨x, hx, hsave, hload⟩ := exists_leadsTo (step format) Orderly (new Disk.empty false)
    [.enter (.save snapshot (by decide)), .proceed 0 0, .proceed 0 0, .proceed 0 9,
      .enter (.load ⟨1, by decide⟩), .proceed 1 0, .proceed 1 0, .proceed 0 0, .proceed 0 0,
      .proceed 0 0]
    (fun x => (x.calls[0]?.any fun c => c.phase.saved) = true ∧
      (x.calls[1]?.any fun c => c.phase.absent) = true) (by decide)
  have htook := (took_of_leadsTo Disk.empty false hx).1
  obtain ⟨⟨op, p⟩, hc, hp⟩ := Option.any_eq_true _ _ |>.mp hsave
  obtain ⟨⟨op', p'⟩, hc', hp'⟩ := Option.any_eq_true _ _ |>.mp hload
  cases Phase.eq_of_saved hp
  cases Phase.eq_of_absent hp'
  exact ⟨x, op, op', htook 0 op _ hc (by simp), htook 1 op' _ hc' (by simp)⟩

end FileSnapshotStore

end Behest
