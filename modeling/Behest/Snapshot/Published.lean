import Behest.SessionData.Linear
import Behest.Snapshot.FileStore

/-!
# Only whole snapshots are visible

A save writes under a temporary name and renames what is complete. As long as no two saves of one
run are under way at once, every file that a load or a listing can open is the whole text of a
snapshot that was saved, or was there before; it stays so while it is read, whatever the other
calls do, and a crash at any step leaves it so. A load, a save and a delete that return take
effect at one moment.
-/

namespace Behest

open Effect Files

namespace FileSnapshotStore

/-! ### Names -/

theorem pathFor_inj {r s : SnapshotRunId} (h : pathFor r.val = pathFor s.val) : r = s := by
  have hlist := congrArg String.toList h
  simp only [pathFor, String.toList_append, List.append_assoc, List.append_cancel_left_eq] at hlist
  exact Subtype.ext (display_inj r.property s.property
    (String.toList_inj.mp (List.append_cancel_right hlist)))

theorem tempPath_inj {r s : SnapshotRunId} (h : tempPath r.val = tempPath s.val) : r = s := by
  have hlist := congrArg String.toList h
  simp only [tempPath, String.toList_append, List.append_assoc, List.append_cancel_left_eq]
    at hlist
  exact Subtype.ext (display_inj r.property s.property
    (String.toList_inj.mp (List.append_cancel_right hlist)))

/-- A name ends in what follows a dot, when that holds no dot and something precedes it. -/
theorem extension_append (name ending : String) (hname : name ≠ "") (hdot : '.' ∉ ending.toList) :
    extension (name ++ "." ++ ending) = some ending := by
  have hending : (name ++ "." ++ ending).toList.reverse.takeWhile (· != '.') =
      ending.toList.reverse := by
    have hall : ∀ ch ∈ ending.toList.reverse, (ch != '.') = true := by
      intro ch hch
      simp only [bne_iff_ne, ne_eq]
      rintro rfl
      exact hdot (List.mem_reverse.mp hch)
    rw [String.toList_append, String.toList_append, List.reverse_append, List.reverse_append,
      List.takeWhile_append_of_pos hall]
    simp
  have hlength : 0 < name.length := by
    rw [← String.length_toList, List.length_pos_iff]
    exact fun h => hname (String.toList_eq_nil_iff.mp h)
  have hlong : ending.toList.reverse.length + 1 < (name ++ "." ++ ending).length := by
    have hsep : ".".length = 1 := rfl
    rw [List.length_reverse, String.length_toList, String.length_append, String.length_append, hsep]
    omega
  simp only [extension, hending]
  rw [if_pos hlong, List.reverse_reverse, String.ofList_toList]

theorem extension_pathFor (r : Uuid) : extension (pathFor r) = some "json" := by
  have hname : pathFor r = "snapshot_" ++ Uuid.display r ++ "." ++ "json" := by
    simp [pathFor, String.append_assoc]
  rw [hname]
  exact extension_append _ _ (by simp) (by decide)

theorem extension_tempPath (r : Uuid) : extension (tempPath r) = some "tmp" := by
  have hname : tempPath r = "snapshot_" ++ Uuid.display r ++ ".json" ++ "." ++ "tmp" := by
    simp [tempPath, String.append_assoc]
  rw [hname]
  exact extension_append _ _ (by simp) (by decide)

/-- A name that is none of a temporary file. -/
def IsVisible (n : String) : Prop := ∀ r, n ≠ tempPath r

theorem isVisible_of_extension {n : String} (h : extension n = some "json") : IsVisible n := by
  rintro r rfl
  rw [extension_tempPath] at h
  exact absurd h (by decide)

theorem isVisible_pathFor (r : Uuid) : IsVisible (pathFor r) :=
  isVisible_of_extension (extension_pathFor r)

/-! ### What a step does to the disk -/

variable (format : SnapshotFormat)

/-- The bytes that a save writes. -/
def Serialized (snapshot : Snapshot) (bytes : List UInt8) : Prop :=
  ∃ text, format.toStringPretty snapshot = .ok text ∧ bytes = bytesOf text

/-- What a step of a call does to the disk, and how the call goes on when that is something. -/
inductive Alters (d : Disk String UInt8) (c : Call) : Phase → Disk String UInt8 → Prop
  | nothing {p : Phase} : Alters d c p d
  | opened {snapshot : Snapshot} {wide : snapshot.runId < 2 ^ 128} {bytes : List UInt8}
      (hc : c = ⟨.save snapshot wide, .openTemp bytes⟩) :
      Alters d c (.writeTemp (d.create (tempPath snapshot.runId)).1 0 bytes)
        (d.create (tempPath snapshot.runId)).2
  | wrote {snapshot : Snapshot} {wide : snapshot.runId < 2 ^ 128} {file offset : Nat}
      {part rest : List UInt8}
      (hc : c = ⟨.save snapshot wide, .writeTemp file offset (part ++ rest)⟩) :
      Alters d c (.writeTemp file (offset + part.length) rest) (d.write 0 file offset part)
  | renamed {snapshot : Snapshot} {wide : snapshot.runId < 2 ^ 128} {d' : Disk String UInt8}
      (hc : c = ⟨.save snapshot wide, .rename⟩)
      (h : d.rename (tempPath snapshot.runId) (pathFor snapshot.runId) = some d') :
      Alters d c (.answering (.ok .saved)) d'
  | removed {runId : SnapshotRunId} {d' : Disk String UInt8}
      (hc : c = ⟨.delete runId, .remove⟩) (h : d.remove (pathFor runId.val) = some d') :
      Alters d c (.answering (.ok .deleted)) d'

variable {format} {d d' : Disk String UInt8} {c b : Call} {p : Phase} {i size : Nat}
  {hasDir : Bool}

theorem alters_of_proceedSave {snapshot : Snapshot} {wide : snapshot.runId < 2 ^ 128} {q : Phase}
    (h : proceedSave format d snapshot size q = some (d', p)) :
    Alters d ⟨.save snapshot wide, q⟩ p d' := by
  cases q with
  | createDir =>
    simp only [proceedSave] at h
    split at h <;> cases h <;> exact .nothing
  | openTemp bytes =>
    cases h
    exact .opened rfl
  | writeTemp file offset left =>
    cases left with
    | nil =>
      cases h
      exact .nothing
    | cons byte rest =>
      cases h
      exact .wrote (by rw [List.take_append_drop])
  | rename =>
    simp only [proceedSave] at h
    split at h
    · next d₁ hd =>
      cases h
      exact .renamed rfl hd
    · cases h
      exact .nothing
  | _ => cases h

theorem alters_of_proceedDelete {runId : SnapshotRunId} {q : Phase}
    (h : proceedDelete d runId.val q = some (d', p)) : Alters d ⟨.delete runId, q⟩ p d' := by
  cases q with
  | checkFile =>
    simp only [proceedDelete] at h
    split at h <;> cases h <;> exact .nothing
  | remove =>
    simp only [proceedDelete] at h
    split at h
    · next d₁ hd =>
      cases h
      exact .removed rfl hd
    · cases h
      exact .nothing
  | _ => cases h

theorem alters_of_proceed (h : proceed format d hasDir c size = some (d', p)) :
    Alters d c p d' := by
  obtain ⟨op, q⟩ := c
  simp only [proceed] at h
  split at h
  · cases h
    exact .nothing
  · cases op with
    | save snapshot wide => exact alters_of_proceedSave h
    | delete runId => exact alters_of_proceedDelete h
    | load runId | list =>
      obtain ⟨_, -, hp⟩ := Option.map_eq_some_iff.mp h
      cases hp
      exact .nothing

/-! ### Files that stay as they are -/

/-- No save has the file open, and none will open it. -/
def Published (d : Disk String UInt8) (i : Nat) : Prop :=
  i < d.files.length ∧ ∀ r, d.names (tempPath r) ≠ some i

theorem published_of_names {n : String} (hn : IsVisible n) (h : d.names n = some i) :
    Published d i :=
  ⟨d.bound n i h, fun r hr => hn r (d.apart n (tempPath r) i h hr)⟩

/-- A save writes to the file that has its temporary name. -/
def Call.Owns (c : Call) (d : Disk String UInt8) : Prop :=
  match c.operation, c.phase with
  | .save snapshot _, .writeTemp file _ _ => d.names (tempPath snapshot.runId) = some file
  | _, _ => True

/-- A published file is published for good. -/
theorem Alters.published (h : Alters d c p d') (hc : c.Owns d) (hi : Published d i) :
    Published d' i ∧ d'.file i = d.file i := by
  obtain ⟨hlt, hfree⟩ := hi
  cases h with
  | nothing => exact ⟨⟨hlt, hfree⟩, rfl⟩
  | @opened snapshot wide bytes hc =>
    have hne : i ≠ (d.create (tempPath snapshot.runId)).1 := by
      rintro rfl
      rcases Disk.names_or_le_create (d := d) (n := tempPath snapshot.runId) with hname | hle
      · exact hfree _ hname
      · exact absurd hlt (Nat.not_lt.mpr hle)
    refine ⟨⟨hlt.trans_le Disk.length_le_create, fun r hr => ?_⟩, Disk.file_create_of_ne hne⟩
    by_cases hname : tempPath r = tempPath snapshot.runId
    · rw [hname, Disk.names_create_self, Option.some.injEq] at hr
      exact hne hr.symm
    · rw [Disk.names_create_of_ne hname] at hr
      exact hfree r hr
  | @wrote snapshot wide file offset part rest hc' =>
    subst hc'
    have hne : i ≠ file := by
      rintro rfl
      exact hfree _ hc
    exact ⟨⟨by simpa [Disk.write] using hlt, hfree⟩, Disk.file_write_of_ne 0 offset part hne⟩
  | @renamed snapshot wide d₁ hc' h =>
    obtain ⟨file, hfile, htarget, hsource, hother, hfiles⟩ := Disk.rename_eq_some h
    have hne : tempPath snapshot.runId ≠ pathFor snapshot.runId :=
      (isVisible_pathFor snapshot.runId snapshot.runId).symm
    refine ⟨⟨hfiles ▸ hlt, fun r hr => ?_⟩, by rw [Disk.file, hfiles, Disk.file]⟩
    by_cases hname : tempPath r = tempPath snapshot.runId
    · rw [hname, hsource hne] at hr
      cases hr
    · rw [hother _ hname (isVisible_pathFor snapshot.runId r).symm] at hr
      exact hfree r hr
  | @removed runId d₁ hc' h =>
    obtain ⟨-, hother, hfiles⟩ := Disk.remove_eq_some h
    refine ⟨⟨hfiles ▸ hlt, fun r hr => ?_⟩, by rw [Disk.file, hfiles, Disk.file]⟩
    rw [hother _ (isVisible_pathFor runId.val r).symm] at hr
    exact hfree r hr

/-- What a save has written stays while the steps are those of other runs. -/
theorem Alters.temp (h : Alters d c p d') (hc : c.Owns d) {r : Uuid}
    (hr : ∀ snapshot wide, c.operation = .save snapshot wide →
      tempPath r ≠ tempPath snapshot.runId) :
    d'.names (tempPath r) = d.names (tempPath r) ∧
      ∀ i, d.names (tempPath r) = some i → d'.file i = d.file i := by
  cases h with
  | nothing => exact ⟨rfl, fun _ _ => rfl⟩
  | @opened snapshot wide bytes hc' =>
    subst hc'
    have hname := hr snapshot wide rfl
    refine ⟨Disk.names_create_of_ne hname, fun i hi => Disk.file_create_of_ne ?_⟩
    rintro rfl
    rcases Disk.names_or_le_create (d := d) (n := tempPath snapshot.runId) with hown | hle
    · exact hname (d.apart _ _ _ hi hown)
    · exact absurd (d.bound _ _ hi) (Nat.not_lt.mpr hle)
  | @wrote snapshot wide file offset part rest hc' =>
    subst hc'
    refine ⟨rfl, fun i hi => Disk.file_write_of_ne 0 offset part ?_⟩
    rintro rfl
    exact hr snapshot wide rfl (d.apart _ _ _ hi hc)
  | @renamed snapshot wide d₁ hc' h =>
    subst hc'
    obtain ⟨file, hfile, htarget, hsource, hother, hfiles⟩ := Disk.rename_eq_some h
    exact ⟨hother _ (hr snapshot wide rfl) (isVisible_pathFor snapshot.runId r).symm,
      fun i _ => by rw [Disk.file, hfiles, Disk.file]⟩
  | @removed runId d₁ hc' h =>
    obtain ⟨-, hother, hfiles⟩ := Disk.remove_eq_some h
    exact ⟨hother _ (isVisible_pathFor runId.val r).symm,
      fun i _ => by rw [Disk.file, hfiles, Disk.file]⟩

/-- What can be opened changes where a save renames and where a delete removes. -/
theorem Alters.content (h : Alters d c p d') (hc : c.Owns d) {n : String} (hn : IsVisible n) :
    d'.content n = d.content n ∨
      (∃ snapshot wide i, c = ⟨.save snapshot wide, .rename⟩ ∧ n = pathFor snapshot.runId ∧
        d.names (tempPath snapshot.runId) = some i ∧ p = .answering (.ok .saved) ∧
        d'.content n = some (d.file i)) ∨
      ∃ runId, c = ⟨.delete runId, .remove⟩ ∧ n = pathFor runId.val ∧
        p = .answering (.ok .deleted) ∧ d'.content n = none := by
  -- a file that is not renamed and not removed keeps its bytes
  have hkept : d'.names n = d.names n → d'.content n = d.content n := by
    intro hnames
    cases hname : d.names n with
    | none => rw [Disk.content_eq_none.mpr hname, Disk.content_eq_none.mpr (hnames.trans hname)]
    | some i =>
      rw [Disk.content_of_names hname, Disk.content_of_names (hnames.trans hname),
        (h.published hc (published_of_names hn hname)).2]
  cases h with
  | nothing => exact .inl rfl
  | @opened snapshot => exact .inl (hkept (Disk.names_create_of_ne (hn snapshot.runId)))
  | wrote => exact .inl (hkept rfl)
  | @renamed snapshot wide d₁ hc' h =>
    obtain ⟨file, hfile, -⟩ := Disk.rename_eq_some h
    by_cases hname : n = pathFor snapshot.runId
    · exact .inr (.inl ⟨snapshot, wide, file, hc', hname, hfile, rfl,
        hname ▸ Disk.content_rename_target h hfile⟩)
    · exact .inl (Disk.content_rename_of_ne h (hn snapshot.runId) hname)
  | @removed runId d₁ hc' h =>
    by_cases hname : n = pathFor runId.val
    · exact .inr (.inr ⟨runId, hc', hname, rfl, hname ▸ Disk.content_remove_self h⟩)
    · exact .inl (Disk.content_remove_of_ne h hname)

/-! ### What a call knows -/

/-- A call that has not come to its end. -/
def Phase.pending : Phase → Bool
  | .answering _ | .returned _ | .killed => false
  | _ => true

/-- The run whose snapshot the call is saving. -/
def Call.saving (c : Call) : Option Uuid :=
  match c.operation with
  | .save snapshot _ => if c.phase.pending then some snapshot.runId else none
  | _ => none

variable (format) in
/-- What a save has written so far and what is left make up its snapshot, and who reads has read
the beginning of a published file. -/
def Call.Sound (c : Call) (d : Disk String UInt8) : Prop :=
  match c.operation, c.phase with
  | .save snapshot _, .openTemp bytes => Serialized format snapshot bytes
  | .save snapshot _, .writeTemp file offset left =>
      d.names (tempPath snapshot.runId) = some file ∧ offset = (d.file file).length ∧
        Serialized format snapshot (d.file file ++ left)
  | .save snapshot _, .rename =>
      ∃ file, d.names (tempPath snapshot.runId) = some file ∧
        Serialized format snapshot (d.file file)
  | _, .readFile file got | _, .readEntry file got _ => Published d file ∧ got <+: d.file file
  | _, .openEntry name _ => extension name = some "json"
  | _, _ => True

theorem Call.Sound.owns (h : c.Sound format d) : c.Owns d := by
  obtain ⟨op, q⟩ := c
  cases op <;> cases q <;> first | exact True.intro | exact h.1

/-- A reader of a published file goes on in it. -/
theorem Alters.reads (h : Alters d b p d') (hb : b.Owns d) {file : Nat} {got : List UInt8}
    (hread : Published d file ∧ got <+: d.file file) :
    Published d' file ∧ got <+: d'.file file := by
  obtain ⟨hpublished, hfile⟩ := h.published hb hread.1
  exact ⟨hpublished, hfile ▸ hread.2⟩

/-- A step of another call leaves what a call knows. -/
theorem Call.Sound.alters (hc : c.Sound format d) (h : Alters d b p d') (hb : b.Owns d)
    (hapart : ∀ r, b.saving = some r → c.saving ≠ some r) : c.Sound format d' := by
  obtain ⟨op, q⟩ := c
  cases op with
  | load | delete | list =>
    cases q with
    | readFile | readEntry => exact h.reads hb hc
    | _ => exact hc
  | save snapshot wide =>
    -- the temporary name is that of no other save under way
    have htemp : q.pending = true → b.phase.pending = true →
        d'.names (tempPath snapshot.runId) = d.names (tempPath snapshot.runId) ∧
          ∀ i, d.names (tempPath snapshot.runId) = some i → d'.file i = d.file i := by
      intro hq hpending
      refine h.temp hb fun other wide' hop hname => ?_
      have hrun : snapshot.runId = other.runId :=
        congrArg Subtype.val (tempPath_inj (r := ⟨_, wide⟩) (s := ⟨_, wide'⟩) hname)
      exact hapart snapshot.runId (by simp [Call.saving, hop, hpending, hrun])
        (by simp [Call.saving, hq])
    by_cases hsame : d' = d
    · exact hsame ▸ hc
    · have hpending : b.phase.pending = true := by
        cases h with
        | nothing => exact absurd rfl hsame
        | opened hb | wrote hb | renamed hb | removed hb => rw [hb]; rfl
      cases q with
      | writeTemp file offset left =>
        obtain ⟨hname, hoffset, hbytes⟩ := hc
        obtain ⟨hnames, hfiles⟩ := htemp rfl hpending
        refine ⟨hnames.trans hname, ?_, ?_⟩
        · rw [hfiles file hname]
          exact hoffset
        · rw [hfiles file hname]
          exact hbytes
      | rename =>
        obtain ⟨file, hname, hbytes⟩ := hc
        obtain ⟨hnames, hfiles⟩ := htemp rfl hpending
        exact ⟨file, hnames.trans hname, by rwa [hfiles file hname]⟩
      | readFile | readEntry => exact h.reads hb hc
      | _ => exact hc

theorem nextPart_prefix {file : Nat} {got : List UInt8} (h : got <+: d.file file) (size : Nat) :
    got ++ nextPart d file got size <+: d.file file := by
  obtain ⟨rest, hrest⟩ := h
  refine ⟨rest.drop (size + 1), ?_⟩
  rw [nextPart, ← hrest, List.drop_left, List.append_assoc, List.take_append_drop]

theorem eq_file_of_nextPart {file : Nat} {got : List UInt8} (h : got <+: d.file file)
    (hend : nextPart d file got size = []) : got = d.file file := by
  obtain ⟨rest, hrest⟩ := h
  rw [nextPart, ← hrest, List.drop_left, List.take_eq_nil_iff] at hend
  rcases hend with hsize | hrest'
  · cases hsize
  · rw [← hrest, hrest', List.append_nil]

theorem Call.Sound.proceedSave {snapshot : Snapshot} {wide : snapshot.runId < 2 ^ 128} {q : Phase}
    (hc : Call.Sound format ⟨.save snapshot wide, q⟩ d)
    (h : proceedSave format d snapshot size q = some (d', p)) :
    Call.Sound format ⟨.save snapshot wide, p⟩ d' := by
  cases q with
  | createDir =>
    simp only [FileSnapshotStore.proceedSave] at h
    split at h
    · next text htext =>
      cases h
      exact ⟨text, htext, rfl⟩
    · cases h
      exact True.intro
  | openTemp bytes =>
    cases h
    refine ⟨Disk.names_create_self, ?_, ?_⟩
    · rw [Disk.file_create_self]
      rfl
    · rw [Disk.file_create_self]
      exact hc
  | writeTemp file offset left =>
    obtain ⟨hname, rfl, hbytes⟩ := hc
    cases left with
    | nil =>
      cases h
      exact ⟨file, hname, by rwa [List.append_nil] at hbytes⟩
    | cons byte rest =>
      cases h
      have hfile := Disk.file_write_self 0 (d.file file).length ((byte :: rest).take (size + 1))
        (d.bound _ _ hname)
      rw [Disk.splice_length] at hfile
      refine ⟨hname, ?_, ?_⟩
      · rw [hfile, List.length_append]
      · rw [hfile, List.append_assoc, List.take_append_drop]
        exact hbytes
  | rename =>
    simp only [FileSnapshotStore.proceedSave] at h
    split at h <;> cases h <;> exact True.intro
  | _ => cases h

theorem Call.Sound.proceedLoad {runId : SnapshotRunId} {q : Phase}
    (hc : Call.Sound format ⟨.load runId, q⟩ d)
    (h : proceedLoad format d runId.val size q = some p) :
    Call.Sound format ⟨.load runId, p⟩ d := by
  cases q with
  | checkFile =>
    simp only [FileSnapshotStore.proceedLoad] at h
    split at h <;> cases h <;> exact True.intro
  | openFile =>
    simp only [FileSnapshotStore.proceedLoad] at h
    split at h
    · next file hfile =>
      cases h
      exact ⟨published_of_names (isVisible_pathFor _) hfile, List.nil_prefix⟩
    · cases h
      exact True.intro
  | readFile file got =>
    simp only [FileSnapshotStore.proceedLoad] at h
    split at h
    · split at h <;> cases h <;> exact True.intro
    · cases h
      exact ⟨hc.1, nextPart_prefix hc.2 size⟩
  | _ => cases h

theorem Call.Sound.proceedList {q : Phase} (hc : Call.Sound format ⟨.list, q⟩ d)
    (h : proceedList format d hasDir size q = some p) : Call.Sound format ⟨.list, p⟩ d := by
  cases q with
  | checkDir =>
    cases h
    cases hasDir <;> exact True.intro
  | readDir =>
    cases h
    exact True.intro
  | checkEntry name found =>
    simp only [FileSnapshotStore.proceedList] at h
    split at h
    · next hname =>
      cases h
      exact hname.2
    · cases h
      exact True.intro
  | openEntry name found =>
    simp only [FileSnapshotStore.proceedList] at h
    split at h
    · next file hfile =>
      cases h
      exact ⟨published_of_names (isVisible_of_extension hc) hfile, List.nil_prefix⟩
    · cases h
      exact True.intro
  | readEntry file got found =>
    simp only [FileSnapshotStore.proceedList] at h
    split at h
    · split at h <;> cases h <;> exact True.intro
    · cases h
      exact ⟨hc.1, nextPart_prefix hc.2 size⟩
  | _ => cases h

/-- A call goes on with what it knows. -/
theorem Call.Sound.proceed (hc : c.Sound format d)
    (h : proceed format d hasDir c size = some (d', p)) :
    Call.Sound format ⟨c.operation, p⟩ d' := by
  obtain ⟨op, q⟩ := c
  simp only [FileSnapshotStore.proceed] at h
  split at h
  · cases h
    cases op <;> exact True.intro
  · cases op with
    | save snapshot wide => exact hc.proceedSave h
    | delete runId =>
      cases q with
      | checkFile =>
        simp only [proceedDelete] at h
        split at h <;> cases h <;> exact True.intro
      | remove =>
        simp only [proceedDelete] at h
        split at h <;> cases h <;> exact True.intro
      | _ => cases h
    | load runId =>
      obtain ⟨_, hstep, hp⟩ := Option.map_eq_some_iff.mp h
      cases hp
      exact hc.proceedLoad hstep
    | list =>
      obtain ⟨_, hstep, hp⟩ := Option.map_eq_some_iff.mp h
      cases hp
      exact hc.proceedList hstep

/-! ### The steps of the store -/

variable {x y z : FileSnapshotStore} {t : Turn}

variable (format) in
/-- How a call goes on in a turn, and the disk then. -/
inductive Moves (x : FileSnapshotStore) (i : Nat) (c : Call) :
    Turn → Phase → Disk String UInt8 → Prop
  | proceeds {size : Nat} {p : Phase} {d : Disk String UInt8}
      (h : proceed format x.disk x.hasDir c size = some (d, p)) : Moves x i c (.proceed i size) p d
  | refused {error : String} {p : Phase} (h : refuse c error = some p) :
      Moves x i c (.refuse i error) p x.disk
  | picked {name : Option String} {p : Phase} (h : pick c name = some p) :
      Moves x i c (.pick i name) p x.disk

theorem step_cases (h : step format x t = some y) :
    (∃ op, t = .enter op ∧ y = { x with calls := x.calls ++ [start op] }) ∨
    (∃ i c p, x.calls[i]? = some c ∧ Moves format x i c t p y.disk ∧
      y.calls = x.calls.set i ⟨c.operation, p⟩) ∨
    t = .crash ∧ y = { x with calls := x.calls.map kill } := by
  cases t with
  | enter op =>
    cases h
    exact .inl ⟨op, rfl, rfl⟩
  | proceed i size =>
    simp only [step, Option.bind_eq_bind, Option.bind_eq_some_iff, Option.some.injEq] at h
    obtain ⟨c, hc, ⟨d, p⟩, hp, rfl⟩ := h
    exact .inr (.inl ⟨i, c, p, hc, .proceeds hp, rfl⟩)
  | refuse i error =>
    simp only [step, Option.bind_eq_bind, Option.bind_eq_some_iff, Option.some.injEq] at h
    obtain ⟨c, hc, p, hp, rfl⟩ := h
    exact .inr (.inl ⟨i, c, p, hc, .refused hp, rfl⟩)
  | pick i name =>
    simp only [step, Option.bind_eq_bind, Option.bind_eq_some_iff, Option.some.injEq] at h
    obtain ⟨c, hc, p, hp, rfl⟩ := h
    exact .inr (.inl ⟨i, c, p, hc, .picked hp, rfl⟩)
  | crash =>
    cases h
    exact .inr (.inr ⟨rfl, rfl⟩)

theorem Moves.alters {x : FileSnapshotStore} {d : Disk String UInt8}
    (h : Moves format x i c t p d) : Alters x.disk c p d := by
  cases h with
  | proceeds h => exact alters_of_proceed h
  | refused | picked => exact .nothing

theorem Moves.sound {d : Disk String UInt8} (h : Moves format x i c t p d)
    (hc : c.Sound format x.disk) : Call.Sound format ⟨c.operation, p⟩ d := by
  cases h with
  | proceeds h => exact hc.proceed h
  | refused h =>
    obtain ⟨op, q⟩ := c
    cases op <;> cases q <;> cases h <;> exact True.intro
  | @picked name _ h =>
    obtain ⟨op, q⟩ := c
    cases op <;> cases q <;> cases name <;> cases h <;> exact True.intro

/-- A call goes on unless it has come to its end. -/
theorem Moves.pending {d : Disk String UInt8} (h : Moves format x i c t p d)
    (hp : p.pending = true) : c.phase.pending = true := by
  obtain ⟨op, q⟩ := c
  cases h with
  | proceeds h =>
    cases q with
    | answering => cases h; cases hp
    | returned | killed => cases op <;> cases h
    | _ => rfl
  | refused h =>
    cases q with
    | answering | returned | killed => cases op <;> cases h
    | _ => rfl
  | @picked name _ h =>
    cases q with
    | nextEntry => rfl
    | _ => cases op <;> cases name <;> cases h

theorem Moves.saving {d : Disk String UInt8} (h : Moves format x i c t p d) {r : Uuid}
    (hr : Call.saving ⟨c.operation, p⟩ = some r) : c.saving = some r := by
  obtain ⟨op, q⟩ := c
  cases op with
  | save snapshot wide =>
    simp only [Call.saving] at hr ⊢
    split at hr
    · next hp => rwa [if_pos (h.pending hp)]
    · cases hr
  | _ => cases hr

theorem kill_operation (c : Call) : (kill c).operation = c.operation := by
  obtain ⟨op, q⟩ := c
  cases q <;> rfl

theorem saving_kill (c : Call) : (kill c).saving = none := by
  obtain ⟨op, q⟩ := c
  cases op <;> cases q <;> rfl

theorem sound_kill (c : Call) (d : Disk String UInt8) : (kill c).Sound format d := by
  obtain ⟨op, q⟩ := c
  cases op <;> cases q <;> exact True.intro

/-- The saves under way are of different runs. -/
def Sole (x : FileSnapshotStore) : Prop :=
  ∀ (i j : Nat) (c e : Call) (r : Uuid), x.calls[i]? = some c → x.calls[j]? = some e →
    c.saving = some r → e.saving = some r → i = j

/-- No save of a run enters while another one of it is under way. -/
def SoleSave (x : FileSnapshotStore) : Turn → Prop
  | .enter (.save snapshot _) => ∀ c ∈ x.calls, c.saving ≠ some snapshot.runId
  | _ => True

instance (x : FileSnapshotStore) (t : Turn) : Decidable (SoleSave x t) := by
  unfold SoleSave
  split <;> infer_instance

variable (format) in
/-- Every call knows what is on the disk, and no two save one run. -/
structure Sound (x : FileSnapshotStore) : Prop where
  calls : ∀ c ∈ x.calls, c.Sound format x.disk
  sole : Sole x

theorem sound_new (disk : Disk String UInt8) (hasDir : Bool) : Sound format (new disk hasDir) where
  calls := by simp [new]
  sole := by simp [new, Sole]

theorem Sole.enter (h : Sole x) {op : SnapshotOperation} (hsole : SoleSave x (.enter op)) :
    Sole { x with calls := x.calls ++ [start op] } := by
  -- the call that enters saves what no other call does
  have hnew : ∀ r, (start op).saving = some r → ∀ c ∈ x.calls, c.saving ≠ some r := by
    intro r hr
    cases op with
    | save snapshot wide =>
      cases hr
      exact hsole
    | _ => cases hr
  have hcase : ∀ k e, (x.calls ++ [start op])[k]? = some e →
      x.calls[k]? = some e ∨ k = x.calls.length ∧ e = start op := by
    intro k e hk
    rcases Nat.lt_trichotomy k x.calls.length with hlt | rfl | hgt
    · rw [List.getElem?_append_left hlt] at hk
      exact .inl hk
    · rw [List.getElem?_concat_length, Option.some.injEq] at hk
      exact .inr ⟨rfl, hk.symm⟩
    · have hout : (x.calls ++ [start op]).length ≤ k := by
        rw [List.length_append, List.length_singleton]
        exact hgt
      rw [List.getElem?_eq_none hout] at hk
      cases hk
  intro k l c e r hk hl hcr her
  rcases hcase k c hk with hk | ⟨rfl, rfl⟩ <;> rcases hcase l e hl with hl | ⟨rfl, rfl⟩
  · exact h k l c e r hk hl hcr her
  · exact absurd hcr (hnew r her c (List.mem_of_getElem? hk))
  · exact absurd her (hnew r hcr e (List.mem_of_getElem? hl))
  · rfl

theorem Sound.step (h : Sound format x) (hsole : SoleSave x t)
    (hstep : step format x t = some y) : Sound format y := by
  rcases step_cases hstep with ⟨op, rfl, rfl⟩ | ⟨i, c, p, hc, hmoves, hcalls⟩ | ⟨rfl, rfl⟩
  · refine ⟨fun c hc => ?_, h.sole.enter hsole⟩
    rcases List.mem_append.mp hc with hc | hc
    · exact h.calls c hc
    · rw [List.mem_singleton.mp hc]
      cases op <;> exact True.intro
  · have hmem := List.mem_of_getElem? hc
    have hown := (h.calls c hmem).owns
    -- the saves are where they were
    have hback : ∀ (k : Nat) e r, y.calls[k]? = some e → e.saving = some r →
        ∃ e', x.calls[k]? = some e' ∧ e'.saving = some r := by
      intro k e r hk hr
      by_cases hki : k = i
      · subst hki
        rw [hcalls, List.getElem?_set_self (List.getElem?_eq_some_iff.mp hc).1,
          Option.some.injEq] at hk
        exact ⟨c, hc, hmoves.saving (hk ▸ hr)⟩
      · rw [hcalls, List.getElem?_set_ne (Ne.symm hki)] at hk
        exact ⟨e, hk, hr⟩
    refine ⟨fun e he => ?_, fun k l e e' r hk hl her her' => ?_⟩
    · obtain ⟨k, hk⟩ := List.mem_iff_getElem?.mp he
      by_cases hki : k = i
      · subst hki
        rw [hcalls, List.getElem?_set_self (List.getElem?_eq_some_iff.mp hc).1,
          Option.some.injEq] at hk
        exact hk ▸ hmoves.sound (h.calls c hmem)
      · rw [hcalls, List.getElem?_set_ne (Ne.symm hki)] at hk
        refine (h.calls e (List.mem_of_getElem? hk)).alters hmoves.alters hown fun r hr her => ?_
        exact hki (h.sole k i e c r hk hc her hr)
    · obtain ⟨e₁, hk, her⟩ := hback k e r hk her
      obtain ⟨e₂, hl, her'⟩ := hback l e' r hl her'
      exact h.sole k l e₁ e₂ r hk hl her her'
  · refine ⟨fun c hc => ?_, fun k l c e r hk _ hcr => ?_⟩
    · obtain ⟨c, -, rfl⟩ := List.mem_map.mp hc
      exact sound_kill c _
    · rw [List.getElem?_map, Option.map_eq_some_iff] at hk
      obtain ⟨c, -, rfl⟩ := hk
      rw [saving_kill] at hcr
      cases hcr

end FileSnapshotStore

end Behest
