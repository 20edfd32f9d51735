import Behest.Effect.Crowd
import Behest.Runtime.HotPlug

/-!
# The removal of extensions

`ExtensionPoint::unregister` (`behest-runtime/src/extension.rs:189–206`) reads the strong count of
an entry in a read section, and removes the entry in a write section of its own. What it removes
is what it has checked, and nothing else refers to it, where between the two no caller takes a
reference under the name and none puts a value there.
-/

namespace Behest

open Effect

deriving instance DecidableEq for Arc

/-- The extensions, the values that are shared, and their strong counts. -/
structure SharedPoint (α : Type) where
  point : ExtensionPoint α
  values : List α
  strong : Nat → Nat

/-- The calls that put a value under a name. -/
inductive Insertion where
  | registerOrReplace
  | replace
deriving DecidableEq

/-- What a call gives its caller: a reference, no reference, or an error. -/
abbrev Handout (α : Type) := Except ExtensionError (Option (Arc α))

/-- Source: `extension.rs:184–187, 217–224`. -/
def Insertion.apply {α : Type} (how : Insertion) (name : String) (value : Arc α)
    (e : ExtensionPoint α) : Handout α × ExtensionPoint α :=
  match how with
  | .registerOrReplace =>
      (.ok (e.registerOrReplace name value).1, (e.registerOrReplace name value).2)
  | .replace => ((e.replace name value).1.map some, (e.replace name value).2)

namespace SharedPoint

/-- What a caller does: it makes a value, or calls the extension point. What it passes is a clone
of a reference that some caller has. -/
inductive Op (α : Type) where
  | make (value : α)
  | get (name : String)
  | insert (how : Insertion) (name : String) (ptr : Nat)
  | unregister (name : String)
deriving DecidableEq

/-- Where a caller is: at the start of its call, before the write lock with the value that it
passes, behind it with a value that was not taken, between the sections of a removal with what it
has checked, with what was returned. -/
inductive Caller (α : Type) where
  | entering (op : Op α)
  | inserting (how : Insertion) (name : String) (value : Arc α)
  | rejected (value : Arc α) (e : ExtensionError)
  | removing (name : String) (checked : Option (Arc α))
  | returned (handout : Handout α)
  | dropped
deriving DecidableEq

variable {α : Type}

def new : SharedPoint α := ⟨.new, [], fun _ => 0⟩

/-- The entries that refer to a value. -/
def slots (s : SharedPoint α) (ptr : Nat) : Nat :=
  s.point.entries.records.countP fun entry => entry.2.ptr == ptr

/-- `Arc::clone`. -/
def share (s : SharedPoint α) (ptr : Nat) : SharedPoint α :=
  { s with strong := Function.update s.strong ptr (s.strong ptr + 1) }

/-- The drop of a reference. -/
def release (s : SharedPoint α) (ptr : Nat) : SharedPoint α :=
  { s with strong := Function.update s.strong ptr (s.strong ptr - 1) }

/-- `Arc::new`: a value behind a pointer of its own. -/
def make (s : SharedPoint α) (value : α) : SharedPoint α :=
  { s with values := s.values ++ [value] }.share s.values.length

/-- The read section of a removal. The count of the error is read once more, when a drop may have
made it smaller, which nothing depends on. Source: `extension.rs:195–203`. -/
def check (s : SharedPoint α) (name : String) : Except ExtensionError (Option (Arc α)) :=
  match s.point.get name with
  | some existing =>
      if 1 < s.strong existing.ptr then .error (.inUse name (s.strong existing.ptr))
      else .ok (some existing)
  | none => .ok none

/-- The write section of a removal. Source: `extension.rs:205`. -/
def remove (s : SharedPoint α) (name : String) : SharedPoint α :=
  { s with point := ⟨s.point.entries.remove name⟩ }

/-- The next step of a caller, up to the drop of what it was given. -/
def move (c : Caller α) (s : SharedPoint α) : Option (Caller α × SharedPoint α) :=
  match c with
  | .entering (.make value) =>
      some (.returned (.ok (some ⟨s.values.length, value⟩)), s.make value)
  | .entering (.get name) =>
      match s.point.get name with
      | some arc => some (.returned (.ok (some arc)), s.share arc.ptr)
      | none => some (.returned (.ok none), s)
  | .entering (.insert how name ptr) =>
      match s.values[ptr]? with
      -- There is a reference to clone outside of the entries.
      | some value =>
          if s.slots ptr < s.strong ptr then some (.inserting how name ⟨ptr, value⟩, s.share ptr)
          else none
      | none => none
  | .inserting how name value =>
      match how.apply name value s.point with
      | (.ok previous, point) => some (.returned (.ok previous), { s with point })
      | (.error e, point) => some (.rejected value e, { s with point })
  | .rejected value e => some (.returned (.error e), s.release value.ptr)
  | .entering (.unregister name) =>
      match s.check name with
      | .ok checked => some (.removing name checked, s)
      | .error e => some (.returned (.error e), s)
  | .removing name _ => some (.returned (.ok (s.point.get name)), s.remove name)
  | .returned (.ok (some arc)) => some (.dropped, s.release arc.ptr)
  | .returned _ | .dropped => none

def step : Crowd (Caller α) (SharedPoint α) → Crowd.Turn (Op α) →
    Option (Crowd (Caller α) (SharedPoint α)) :=
  Crowd.step .entering move

/-- A caller has a reference to a value. -/
def Caller.refersTo (ptr : Nat) : Caller α → Bool
  | .inserting _ _ value | .rejected value _ => value.ptr == ptr
  | .returned (.ok (some arc)) => arc.ptr == ptr
  | _ => false

/-- The references to a value: those of the entries, and those of the callers. -/
def references (x : Crowd (Caller α) (SharedPoint α)) (ptr : Nat) : Nat :=
  x.state.slots ptr + x.calls.countP (Caller.refersTo ptr)

/-- A removal that goes on now takes out what it has checked, and there is no reference to it but
the one that is taken out. -/
def RemovesUnused (x : Crowd (Caller α) (SharedPoint α)) : Prop :=
  ∀ i name checked y arc, x.calls[i]? = some (.removing name checked) →
    step x (.advance i) = some y → y.calls[i]? = some (.returned (.ok (some arc))) →
    checked = some arc ∧ references x arc.ptr = 1

/-- The next step of a caller takes a reference to the entry under a name, or puts a value
there. -/
def Caller.disturbs (name : String) (e : ExtensionPoint α) : Caller α → Bool
  | .entering (.get n) => n == name && (e.get name).isSome
  | .inserting how n _ => n == name && (how == .registerOrReplace || (e.get name).isSome)
  | _ => false

/-- The turn disturbs no removal that stands between its sections. -/
def undisturbed (x : Crowd (Caller α) (SharedPoint α)) : Crowd.Turn (Op α) → Bool
  | .enter _ => true
  | .advance i =>
      match x.calls[i]? with
      | none => true
      | some c => x.calls.all fun d =>
          match d with
          | .removing name _ => !c.disturbs name x.state.point
          | _ => true

/-! ### The sections -/

/-- What the next step of a caller does. -/
inductive Moves (s : SharedPoint α) : Caller α → Caller α → SharedPoint α → Prop where
  | make (value : α) :
      Moves s (.entering (.make value)) (.returned (.ok (some ⟨s.values.length, value⟩)))
        (s.make value)
  | get {name : String} {arc : Arc α} (h : s.point.get name = some arc) :
      Moves s (.entering (.get name)) (.returned (.ok (some arc))) (s.share arc.ptr)
  | miss {name : String} (h : s.point.get name = none) :
      Moves s (.entering (.get name)) (.returned (.ok none)) s
  | pass (how : Insertion) (name : String) {ptr : Nat} {value : α}
      (hvalue : s.values[ptr]? = some value) (h : s.slots ptr < s.strong ptr) :
      Moves s (.entering (.insert how name ptr)) (.inserting how name ⟨ptr, value⟩) (s.share ptr)
  | insert {how : Insertion} {name : String} (value : Arc α)
      (h : how = .registerOrReplace ∨ (s.point.get name).isSome) :
      Moves s (.inserting how name value) (.returned (.ok (s.point.get name)))
        { s with point := ⟨s.point.entries.insert (name, value)⟩ }
  | reject (how : Insertion) {name : String} (value : Arc α) (e : ExtensionError)
      (h : s.point.get name = none) :
      Moves s (.inserting how name value) (.rejected value e) s
  | release (value : Arc α) (e : ExtensionError) :
      Moves s (.rejected value e) (.returned (.error e)) (s.release value.ptr)
  | refuse (name : String) (e : ExtensionError) :
      Moves s (.entering (.unregister name)) (.returned (.error e)) s
  | check {name : String} (h : ∀ arc, s.point.get name = some arc → s.strong arc.ptr ≤ 1) :
      Moves s (.entering (.unregister name)) (.removing name (s.point.get name)) s
  | remove (name : String) (checked : Option (Arc α)) :
      Moves s (.removing name checked) (.returned (.ok (s.point.get name))) (s.remove name)
  | drop (arc : Arc α) : Moves s (.returned (.ok (some arc))) .dropped (s.release arc.ptr)

theorem apply_eq (how : Insertion) (name : String) (value : Arc α) (e : ExtensionPoint α) :
    how.apply name value e =
      if how = .registerOrReplace ∨ (e.get name).isSome then
        (.ok (e.get name), ⟨e.entries.insert (name, value)⟩)
      else (.error (.notFound name), e) := by
  cases how with
  | registerOrReplace => rfl
  | replace =>
    have hinsert : (e.entries.remove name).insert (name, value) =
        e.entries.insert (name, value) := by
      simp only [Keyed.insert, Keyed.remove, Keyed.retain_retain_self]
    cases h : e.get name with
    | none => simp [Insertion.apply, ExtensionPoint.replace, h, Except.map]
    | some previous => simp [Insertion.apply, ExtensionPoint.replace, h, Except.map, hinsert]

theorem moves_of_move {c c' : Caller α} {s s' : SharedPoint α} (h : move c s = some (c', s')) :
    Moves s c c' s' := by
  cases c with
  | entering op =>
    cases op with
    | make value =>
      cases h
      exact .make value
    | get name =>
      cases hget : s.point.get name <;> simp only [move, hget] at h <;> cases h
      · exact .miss hget
      · exact .get hget
    | insert how name ptr =>
      cases hvalue : s.values[ptr]? with
      | none => simp [move, hvalue] at h
      | some value =>
        simp only [move, hvalue] at h
        split at h
        · next hlt =>
          cases h
          exact .pass how name hvalue hlt
        · cases h
    | unregister name =>
      cases hget : s.point.get name with
      | none =>
        simp only [move, check, hget] at h
        cases h
        exact hget ▸ .check (by simp [hget])
      | some existing =>
        simp only [move, check, hget] at h
        split at h
        · next hin =>
          split at hin
          · cases hin
          · next hle =>
            cases hin
            cases h
            exact hget ▸ .check (by simpa [hget] using hle)
        · cases h
          exact .refuse name _
  | inserting how name value =>
    simp only [move, apply_eq] at h
    split_ifs at h with hin
    · cases h
      exact .insert value hin
    · cases h
      exact .reject how value _ (by simpa using (not_or.mp hin).2)
  | rejected value e =>
    cases h
    exact .release value e
  | removing name checked =>
    cases h
    exact .remove name checked
  | returned handout =>
    cases handout with
    | error e => cases h
    | ok r =>
      cases r with
      | none => cases h
      | some arc =>
        cases h
        exact .drop arc
  | dropped => cases h

/-! ### The references -/

@[simp] theorem refersTo_ok (ptr : Nat) (r : Option (Arc α)) :
    Caller.refersTo ptr (.returned (.ok r)) = r.any (·.ptr == ptr) := by
  cases r <;> rfl

@[simp] theorem refersTo_inserting (how : Insertion) (name : String) (value : Arc α) (ptr : Nat) :
    Caller.refersTo ptr (.inserting how name value) = (value.ptr == ptr) := rfl

@[simp] theorem refersTo_rejected (value : Arc α) (e : ExtensionError) (ptr : Nat) :
    Caller.refersTo ptr (.rejected value e) = (value.ptr == ptr) := rfl

@[simp] theorem refersTo_entering (op : Op α) (ptr : Nat) :
    Caller.refersTo ptr (.entering op) = false := rfl

@[simp] theorem refersTo_removing (name : String) (checked : Option (Arc α)) (ptr : Nat) :
    Caller.refersTo ptr (.removing name checked) = false := rfl

@[simp] theorem refersTo_error (e : ExtensionError) (ptr : Nat) :
    Caller.refersTo (α := α) ptr (.returned (.error e)) = false := rfl

@[simp] theorem refersTo_dropped (ptr : Nat) : Caller.refersTo (α := α) ptr .dropped = false := rfl

/-- The entry under a name is among those that refer to its value. -/
theorem slots_remove (s : SharedPoint α) (name : String) (ptr : Nat) :
    (s.remove name).slots ptr + ((s.point.get name).any (·.ptr == ptr)).toNat = s.slots ptr := by
  have hcount := s.point.entries.countP_remove_add name fun entry => entry.2.ptr == ptr
  cases hentry : s.point.entries.get name <;>
    simpa [slots, remove, ExtensionPoint.get, hentry, List.countP_cons, Bool.toNat,
      Bool.cond_eq_ite] using hcount

theorem slots_insert (s : SharedPoint α) (name : String) (value : Arc α) (ptr : Nat) :
    slots { s with point := ⟨s.point.entries.insert (name, value)⟩ } ptr +
        ((s.point.get name).any (·.ptr == ptr)).toNat =
      s.slots ptr + (value.ptr == ptr).toNat := by
  have hrecords : slots { s with point := ⟨s.point.entries.insert (name, value)⟩ } ptr =
      (s.remove name).slots ptr + (value.ptr == ptr).toNat := by
    simp [slots, remove, Keyed.insert, List.countP_append, List.countP_cons, Bool.toNat,
      Bool.cond_eq_ite]
  rw [hrecords, Nat.add_right_comm, slots_remove]

theorem slots_pos {s : SharedPoint α} {name : String} {arc : Arc α}
    (h : s.point.get name = some arc) : 0 < s.slots arc.ptr := by
  rw [← slots_remove s name, h, Option.any_some, beq_self_eq_true]
  exact Nat.succ_pos _

theorem strong_share_of_ne (s : SharedPoint α) {q ptr : Nat} (h : ptr ≠ q) :
    (s.share q).strong ptr = s.strong ptr :=
  Function.update_of_ne h ..

theorem strong_release_of_ne (s : SharedPoint α) {q ptr : Nat} (h : ptr ≠ q) :
    (s.release q).strong ptr = s.strong ptr :=
  Function.update_of_ne h ..

theorem strong_share (s : SharedPoint α) (q ptr : Nat) :
    (s.share q).strong ptr = s.strong ptr + (q == ptr).toNat := by
  by_cases h : ptr = q
  · subst h
    simp [share]
  · simp [strong_share_of_ne s h, Ne.symm h]

theorem strong_make (s : SharedPoint α) (value : α) (ptr : Nat) :
    (s.make value).strong ptr = s.strong ptr + (s.values.length == ptr).toNat :=
  strong_share _ _ ptr

theorem strong_release (s : SharedPoint α) {q : Nat} (hq : 0 < s.strong q) (ptr : Nat) :
    (s.release q).strong ptr + (q == ptr).toNat = s.strong ptr := by
  by_cases h : ptr = q
  · subst h
    simp only [release, Function.update_self, beq_self_eq_true, Bool.toNat_true]
    omega
  · simp [strong_release_of_ne s h, Ne.symm h]

@[simp] theorem slots_share (s : SharedPoint α) (q ptr : Nat) :
    (s.share q).slots ptr = s.slots ptr := rfl

@[simp] theorem slots_release (s : SharedPoint α) (q ptr : Nat) :
    (s.release q).slots ptr = s.slots ptr := rfl

@[simp] theorem slots_make (s : SharedPoint α) (value : α) (ptr : Nat) :
    (s.make value).slots ptr = s.slots ptr := rfl

@[simp] theorem strong_remove (s : SharedPoint α) (name : String) :
    (s.remove name).strong = s.strong := rfl

/-- A step changes the strong count of a value as it changes the references of the entries and
those of its caller. -/
theorem Moves.balance {c c' : Caller α} {s s' : SharedPoint α} (h : Moves s c c' s') (ptr : Nat)
    (hpos : ∀ q, c.refersTo q = true → 0 < s.strong q) :
    s'.strong ptr + s.slots ptr + (c.refersTo ptr).toNat =
      s.strong ptr + s'.slots ptr + (c'.refersTo ptr).toNat := by
  cases h with
  | make value => simp [strong_make, Nat.add_right_comm]
  | get hget => simp [strong_share, Nat.add_right_comm]
  | miss hget => rfl
  | pass how name hvalue hlt => simp [strong_share, Nat.add_right_comm]
  | @insert how name value hin =>
    have hslots := slots_insert s name value ptr
    simp only [refersTo_ok, refersTo_inserting]
    omega
  | reject how value e hget => rfl
  | release value e =>
    have hstrong := strong_release s (hpos value.ptr (beq_self_eq_true _)) ptr
    simp only [slots_release, refersTo_rejected, refersTo_error, Bool.toNat_false]
    omega
  | refuse name e => rfl
  | check hle => rfl
  | remove name checked =>
    have hslots := slots_remove s name ptr
    simp only [strong_remove, refersTo_ok, refersTo_removing, Bool.toNat_false]
    omega
  | drop arc =>
    have hstrong := strong_release s (hpos arc.ptr (beq_self_eq_true _)) ptr
    simp only [slots_release, refersTo_ok, refersTo_dropped, Option.any_some, Bool.toNat_false]
    omega

/-- A step exchanges the references of the entries, and those of its caller. -/
theorem references_set {x : Crowd (Caller α) (SharedPoint α)} {i : Nat} {c : Caller α}
    (hc : x.calls[i]? = some c) (c' : Caller α) (s' : SharedPoint α) (ptr : Nat) :
    references ⟨x.calls.set i c', s'⟩ ptr + (x.state.slots ptr + (c.refersTo ptr).toNat) =
      references x ptr + (s'.slots ptr + (c'.refersTo ptr).toNat) := by
  have hcount := countP_set_add (Caller.refersTo ptr) hc c'
  simp only [references]
  cases h : c.refersTo ptr <;> cases h' : c'.refersTo ptr <;>
    · simp only [h, h', Bool.false_eq_true, if_true, if_false] at hcount
      simp only [Bool.toNat_true, Bool.toNat_false]
      omega

/-- What is shared has been made. -/
def Made (s : SharedPoint α) : Prop := ∀ ptr, s.values.length ≤ ptr → s.strong ptr = 0

theorem Moves.made {c c' : Caller α} {s s' : SharedPoint α} (h : Moves s c c' s')
    (hs : s.Made) (hslots : ∀ ptr, s.slots ptr ≤ s.strong ptr) : s'.Made := by
  have hrelease (q : Nat) : (s.release q).Made := by
    intro ptr hptr
    by_cases hq : ptr = q
    · subst hq
      simp [SharedPoint.release, hs ptr hptr]
    · exact (Function.update_of_ne hq ..).trans (hs ptr hptr)
  have hshare {q : Nat} (hq : q < s.values.length) : (s.share q).Made := fun ptr hptr =>
    (Function.update_of_ne (Nat.ne_of_gt (Nat.lt_of_lt_of_le hq hptr)) ..).trans (hs ptr hptr)
  cases h with
  | make value =>
    intro ptr hptr
    have hlength : s.values.length < ptr := by
      have hmake : (s.make value).values.length = s.values.length + 1 := List.length_append
      omega
    rw [strong_make, hs ptr hlength.le]
    simp [hlength.ne]
  | @get name arc hget =>
    refine hshare (Nat.lt_of_not_le fun hle => ?_)
    have hslot := Nat.lt_of_lt_of_le (slots_pos hget) (hslots arc.ptr)
    exact absurd (hs arc.ptr hle) (Nat.ne_of_gt hslot)
  | miss hget => exact hs
  | pass how name hvalue hlt => exact hshare (List.getElem?_eq_some_iff.mp hvalue).1
  | insert value hin => exact hs
  | reject how value e hget => exact hs
  | release value e => exact hrelease _
  | refuse name e => exact hs
  | check hle => exact hs
  | remove name checked => exact hs
  | drop arc => exact hrelease _

/-! ### The invariants -/

/-- The strong counts count the references. -/
structure Counted (x : Crowd (Caller α) (SharedPoint α)) : Prop where
  strong : ∀ ptr, x.state.strong ptr = references x ptr
  made : x.state.Made

theorem counted_new : Counted (⟨[], new⟩ : Crowd (Caller α) (SharedPoint α)) :=
  ⟨fun _ => rfl, fun _ _ => rfl⟩

namespace Counted

variable {x y : Crowd (Caller α) (SharedPoint α)} (h : Counted x)
include h

theorem slots_le (ptr : Nat) : x.state.slots ptr ≤ x.state.strong ptr :=
  Nat.le_trans (Nat.le_add_right _ _) (Nat.le_of_eq (h.strong ptr).symm)

/-- A caller's reference is counted beside those of the entries. -/
theorem slots_lt {c : Caller α} (hc : c ∈ x.calls) {ptr : Nat} (href : c.refersTo ptr = true) :
    x.state.slots ptr < x.state.strong ptr := by
  have hpos : 0 < x.calls.countP (Caller.refersTo ptr) := List.countP_pos_iff.mpr ⟨c, hc, href⟩
  rw [h.strong, references]
  omega

theorem step {t : Crowd.Turn (Op α)} (hstep : SharedPoint.step x t = some y) : Counted y := by
  obtain ⟨op, rfl, rfl⟩ | ⟨i, c, c', s', rfl, hc, hmove, rfl⟩ := Crowd.step_cases hstep
  · refine ⟨fun ptr => ?_, h.made⟩
    rw [h.strong ptr]
    simp [references, Caller.refersTo]
  · have hmoves := moves_of_move hmove
    have hmem := List.mem_of_getElem? hc
    refine ⟨fun ptr => ?_, hmoves.made h.made h.slots_le⟩
    have hcount := references_set hc c' s' ptr
    have hbalance := hmoves.balance ptr fun q hq => Nat.zero_lt_of_lt (h.slots_lt hmem hq)
    have hstrong := h.strong ptr
    simp only at hstrong ⊢
    omega

end Counted

theorem counted_of_leadsTo {allowed : Crowd (Caller α) (SharedPoint α) → Crowd.Turn (Op α) → Prop}
    {x : Crowd (Caller α) (SharedPoint α)} (h : LeadsTo step allowed ⟨[], new⟩ x) : Counted x :=
  LeadsTo.invariant Counted h counted_new fun _ _ _ hx _ hstep => hx.step hstep

/-- The entry of a removal that stands between its sections is the one that was checked, and the
only reference to its value. -/
def Kept (x : Crowd (Caller α) (SharedPoint α)) : Prop :=
  ∀ name checked, .removing name checked ∈ x.calls → ∀ arc, x.state.point.get name = some arc →
    checked = some arc ∧ x.state.strong arc.ptr = 1

theorem step_removing {x : Crowd (Caller α) (SharedPoint α)} {i : Nat} {name : String}
    {checked : Option (Arc α)} (hi : x.calls[i]? = some (.removing name checked)) :
    step x (.advance i) = some ⟨x.calls.set i (.returned (.ok (x.state.point.get name))),
      x.state.remove name⟩ := by
  simp [step, Crowd.step, hi, move]

theorem Counted.removesUnused_iff {x : Crowd (Caller α) (SharedPoint α)} (h : Counted x) :
    RemovesUnused x ↔ Kept x := by
  constructor
  · intro hx name checked hmem arc harc
    obtain ⟨i, hi⟩ := List.getElem?_of_mem hmem
    have hlt : i < x.calls.length := (List.getElem?_eq_some_iff.mp hi).1
    rw [h.strong]
    exact hx i name checked _ arc hi (step_removing hi)
      (by rw [List.getElem?_set_self hlt, harc])
  · intro hx i name checked y arc hi hstep hy
    obtain rfl := Option.some.inj ((step_removing hi).symm.trans hstep)
    have hlt : i < x.calls.length := (List.getElem?_eq_some_iff.mp hi).1
    rw [List.getElem?_set_self hlt, Option.some.injEq] at hy
    injection hy with hy
    injection hy with hy
    rw [← h.strong]
    exact hx name checked (List.mem_of_getElem? hi) arc hy

/-- A value under two names is referred to twice. -/
theorem one_lt_slots {s : SharedPoint α} {name n : String} (hne : n ≠ name) {arc arc' : Arc α}
    (h : s.point.get name = some arc) (h' : s.point.get n = some arc') (hptr : arc'.ptr = arc.ptr) :
    1 < s.slots arc.ptr := by
  have hget : (s.remove name).point.get n = some arc' := by
    rw [← h', remove, ExtensionPoint.get, ExtensionPoint.get, Keyed.get_remove_of_ne _ hne]
  have hpos : 0 < (s.remove name).slots arc.ptr := hptr ▸ slots_pos hget
  have hslots := slots_remove s name arc.ptr
  rw [h, Option.any_some, beq_self_eq_true, Bool.toNat_true] at hslots
  omega

theorem get_insert (s : SharedPoint α) (name n : String) (value : Arc α) :
    ExtensionPoint.get ⟨s.point.entries.insert (name, value)⟩ n =
      if name = n then some value else s.point.get n := by
  rw [ExtensionPoint.get, Keyed.get_insert]
  split <;> rfl

/-- What a step leaves under a name that it does not disturb was there before, and stays the only
reference to its value. -/
theorem Counted.watched {x : Crowd (Caller α) (SharedPoint α)} (h : Counted x) {c c' : Caller α}
    {s' : SharedPoint α} (hc : c ∈ x.calls) (hmoves : Moves x.state c c' s') {name : String}
    (hquiet : c.disturbs name x.state.point = false) {arc : Arc α}
    (hget : s'.point.get name = some arc) :
    x.state.point.get name = some arc ∧
      (x.state.strong arc.ptr = 1 → s'.strong arc.ptr = 1) := by
  -- Beside the reference of its entry there is no other to be shared or dropped.
  have hone {q : Nat} (hget : x.state.point.get name = some arc)
      (hq : x.state.slots q < x.state.strong q) (hstrong : x.state.strong arc.ptr = 1) :
      arc.ptr ≠ q := by
    rintro rfl
    have hslot := slots_pos hget
    omega
  cases hmoves with
  | make value =>
    refine ⟨hget, fun hstrong => ?_⟩
    have hne : arc.ptr ≠ x.state.values.length := fun hptr => by
      have hnone := h.made arc.ptr (Nat.le_of_eq hptr.symm)
      omega
    exact (strong_share_of_ne _ hne).trans hstrong
  | @get n arc' hget' =>
    refine ⟨hget, fun hstrong => ?_⟩
    have hne : n ≠ name := by
      rintro rfl
      simp [Caller.disturbs, hget'] at hquiet
    have hptr : arc.ptr ≠ arc'.ptr := fun hptr => by
      have hslots := one_lt_slots (s := x.state) hne hget hget' hptr.symm
      have hle := h.slots_le arc.ptr
      omega
    exact (strong_share_of_ne _ hptr).trans hstrong
  | miss hget' => exact ⟨hget, id⟩
  | @pass how n ptr value hvalue hlt =>
    exact ⟨hget, fun hstrong =>
      (strong_share_of_ne _ (hone hget hlt hstrong)).trans hstrong⟩
  | @insert how n value hin =>
    have hne : n ≠ name := by
      rintro rfl
      simp only [Caller.disturbs, beq_self_eq_true, Bool.true_and, Bool.or_eq_false_iff,
        beq_eq_false_iff_ne] at hquiet
      exact hin.elim hquiet.1 (Bool.eq_false_iff.mp hquiet.2)
    rw [get_insert, if_neg hne] at hget
    exact ⟨hget, id⟩
  | reject how value e hnone => exact ⟨hget, id⟩
  | release value e =>
    have hlt := h.slots_lt hc (beq_self_eq_true value.ptr)
    exact ⟨hget, fun hstrong =>
      (strong_release_of_ne _ (hone hget hlt hstrong)).trans hstrong⟩
  | refuse n e => exact ⟨hget, id⟩
  | check hle => exact ⟨hget, id⟩
  | remove n checked =>
    by_cases hne : name = n
    · subst hne
      simp [SharedPoint.remove, ExtensionPoint.get] at hget
    · rw [SharedPoint.remove, ExtensionPoint.get, Keyed.get_remove_of_ne _ hne] at hget
      exact ⟨hget, id⟩
  | drop arc' =>
    have hlt := h.slots_lt hc (beq_self_eq_true arc'.ptr)
    exact ⟨hget, fun hstrong =>
      (strong_release_of_ne _ (hone hget hlt hstrong)).trans hstrong⟩

theorem Kept.step {x y : Crowd (Caller α) (SharedPoint α)} {t : Crowd.Turn (Op α)}
    (h : Kept x) (hcounted : Counted x) (ht : undisturbed x t = true)
    (hstep : SharedPoint.step x t = some y) : Kept y := by
  obtain ⟨op, rfl, rfl⟩ | ⟨i, c, c', s', rfl, hc, hmove, rfl⟩ := Crowd.step_cases hstep
  · intro name checked hmem
    rcases List.mem_append.mp hmem with hmem | hmem
    · exact h name checked hmem
    · cases List.mem_singleton.mp hmem
  · intro name checked hmem arc hget
    have hmoves := moves_of_move hmove
    rcases List.mem_or_eq_of_mem_set hmem with hmem | rfl
    · have hquiet : c.disturbs name x.state.point = false := by
        simp only [undisturbed, hc, List.all_eq_true] at ht
        simpa using ht _ hmem
      obtain ⟨hbefore, hstrong⟩ := hcounted.watched (List.mem_of_getElem? hc) hmoves hquiet hget
      exact (h name checked hmem arc hbefore).imp_right hstrong
    · cases hmoves with
      | check hle =>
        have hpos := Nat.lt_of_lt_of_le (slots_pos hget) (hcounted.slots_le arc.ptr)
        exact ⟨hget, Nat.le_antisymm (hle arc hget) hpos⟩

/-- A reference that is taken to an entry, or a value that is put in its place, while a removal
stands between its sections. -/
theorem Kept.not_of_disturbs {x y : Crowd (Caller α) (SharedPoint α)} (h : Kept x)
    (hcounted : Counted x) {i : Nat} {c : Caller α} (hc : x.calls[i]? = some c) {name : String}
    {checked : Option (Arc α)} (hmem : .removing name checked ∈ x.calls)
    (hentry : (x.state.point.get name).isSome) (hdisturbs : c.disturbs name x.state.point = true)
    (hstep : SharedPoint.step x (.advance i) = some y) : ¬ Kept y := by
  intro hy
  obtain ⟨arc, harc⟩ := Option.isSome_iff_exists.mp hentry
  have hslot := Nat.lt_of_lt_of_le (slots_pos harc) (hcounted.slots_le arc.ptr)
  obtain ⟨op, ht, -⟩ | ⟨j, d, c', s', ht, hd, hmove, rfl⟩ := Crowd.step_cases hstep
  · cases ht
  · obtain rfl : i = j := Crowd.Turn.advance.inj ht
    obtain rfl : c = d := Option.some.inj (hc.symm.trans hd)
    have hmoves := moves_of_move hmove
    have hmem' : .removing name checked ∈ x.calls.set i c' := by
      refine (eq_or_mem_set hc c' hmem).resolve_left fun hremoving => ?_
      rw [← hremoving] at hdisturbs
      cases hdisturbs
    cases hmoves with
    | @get n arc' hget =>
      obtain rfl : n = name := eq_of_beq (Bool.and_eq_true_iff.mp hdisturbs).1
      obtain rfl : arc = arc' := Option.some.inj (harc.symm.trans hget)
      have hstrong := (hy n checked hmem' arc harc).2
      rw [strong_share, beq_self_eq_true, Bool.toNat_true] at hstrong
      omega
    | @insert how n value hin =>
      obtain rfl : n = name := eq_of_beq (Bool.and_eq_true_iff.mp hdisturbs).1
      have hget : ExtensionPoint.get ⟨x.state.point.entries.insert (n, value)⟩ n = some value := by
        rw [get_insert, if_pos rfl]
      have hchecked := (hy n checked hmem' value hget).1
      obtain ⟨hchecked', hstrong⟩ := h n checked hmem arc harc
      obtain rfl : arc = value := Option.some.inj (hchecked'.symm.trans hchecked)
      have hlt := hcounted.slots_lt (List.mem_of_getElem? hc) (beq_self_eq_true arc.ptr)
      have hpos := slots_pos harc
      omega
    | @miss n hget =>
      obtain rfl : n = name := eq_of_beq (Bool.and_eq_true_iff.mp hdisturbs).1
      exact absurd (harc.symm.trans hget) nofun
    | @reject how n value e hget =>
      obtain rfl : n = name := eq_of_beq (Bool.and_eq_true_iff.mp hdisturbs).1
      exact absurd (harc.symm.trans hget) nofun
    | _ => cases hdisturbs

/-- Where no removal is disturbed between its sections, every removal takes out what it has
checked, and nothing else refers to it. A step that takes a reference to the entry or puts a value
in its place in between breaks that. -/
theorem removesUnused_undisturbed {x : Crowd (Caller α) (SharedPoint α)}
    (hx : LeadsTo step (fun x t => undisturbed x t = true) ⟨[], new⟩ x) :
    RemovesUnused x ∧
    ∀ i c name checked y, x.calls[i]? = some c → .removing name checked ∈ x.calls →
      (x.state.point.get name).isSome → c.disturbs name x.state.point = true →
      step x (.advance i) = some y → ¬ RemovesUnused y := by
  have hcounted := counted_of_leadsTo hx
  have hkept : Kept x := by
    have h : Counted x ∧ Kept x := LeadsTo.invariant (fun x => Counted x ∧ Kept x) hx
      ⟨counted_new, fun _ _ hmem => (nomatch hmem)⟩
      fun x t y hx ht hstep => ⟨hx.1.step hstep, hx.2.step hx.1 ht hstep⟩
    exact h.2
  refine ⟨hcounted.removesUnused_iff.mpr hkept, ?_⟩
  intro i c name checked y hc hmem hentry hdisturbs hstep hy
  have hy' := (hcounted.step hstep).removesUnused_iff.mp hy
  exact hkept.not_of_disturbs hcounted hc hmem hentry hdisturbs hstep hy'

/-- A value is made and registered, its maker drops it, and a removal checks it. -/
def checkedOnce : List (Crowd.Turn (Op Char)) :=
  [.enter (.make 'a'), .advance 0, .enter (.insert .registerOrReplace "chat" 0), .advance 1,
    .advance 0, .advance 1, .enter (.unregister "chat"), .advance 2]

theorem checkedOnce_unused : ∃ x : Crowd (Caller Char) (SharedPoint Char),
    .removing "chat" (some ⟨0, 'a'⟩) ∈ x.calls ∧
    x.state.point.get "chat" = some ⟨0, 'a'⟩ ∧ RemovesUnused x := by
  obtain ⟨x, hx, hmem, hget⟩ := exists_leadsTo step (fun x t => undisturbed x t = true)
    ⟨[], (new : SharedPoint Char)⟩ checkedOnce
    (fun x => .removing "chat" (some ⟨0, 'a'⟩) ∈ x.calls ∧
      x.state.point.get "chat" = some ⟨0, 'a'⟩) (by decide +kernel)
  exact ⟨x, hmem, hget, (removesUnused_undisturbed hx).1⟩

/-- Between the check and the removal a caller takes a reference, or another value is put in the
place of the one that was checked. -/
theorem checkedOnce_disturbed :
    (∃ x : Crowd (Caller Char) (SharedPoint Char),
      LeadsTo step (fun _ _ => True) ⟨[], new⟩ x ∧
      .removing "chat" (some ⟨0, 'a'⟩) ∈ x.calls ∧
      x.state.point.get "chat" = some ⟨0, 'a'⟩ ∧ references x 0 = 2 ∧ ¬ RemovesUnused x) ∧
    ∃ x : Crowd (Caller Char) (SharedPoint Char),
      LeadsTo step (fun _ _ => True) ⟨[], new⟩ x ∧
      .removing "chat" (some ⟨0, 'a'⟩) ∈ x.calls ∧
      x.state.point.get "chat" = some ⟨1, 'b'⟩ ∧ ¬ RemovesUnused x := by
  constructor
  · obtain ⟨x, hx, hmem, hget, hreferences⟩ := exists_leadsTo step (fun _ _ => True)
      ⟨[], (new : SharedPoint Char)⟩ (checkedOnce ++ [.enter (.get "chat"), .advance 3])
      (fun x => .removing "chat" (some ⟨0, 'a'⟩) ∈ x.calls ∧
        x.state.point.get "chat" = some ⟨0, 'a'⟩ ∧ references x 0 = 2) (by decide +kernel)
    refine ⟨x, hx, hmem, hget, hreferences, fun hunused => ?_⟩
    have hcounted := counted_of_leadsTo hx
    have hstrong := (hcounted.removesUnused_iff.mp hunused "chat" _ hmem _ hget).2
    rw [hcounted.strong, hreferences] at hstrong
    cases hstrong
  · obtain ⟨x, hx, hmem, hget⟩ := exists_leadsTo step (fun _ _ => True)
      ⟨[], (new : SharedPoint Char)⟩
      (checkedOnce ++ [.enter (.make 'b'), .advance 3, .enter (.insert .replace "chat" 1),
        .advance 4, .advance 4])
      (fun x => .removing "chat" (some ⟨0, 'a'⟩) ∈ x.calls ∧
        x.state.point.get "chat" = some ⟨1, 'b'⟩) (by decide +kernel)
    refine ⟨x, hx, hmem, hget, fun hunused => ?_⟩
    have hcounted := counted_of_leadsTo hx
    exact absurd (hcounted.removesUnused_iff.mp hunused "chat" _ hmem _ hget).1 (by decide)

end SharedPoint

end Behest
