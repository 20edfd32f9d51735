import Behest.Effect.Part
import Behest.Store.Record

/-!
# The gate of the sessions

`SessionGate` (`behest-runtime/src/session_gate.rs`). A mutex for a session is looked up in a read
section of the map, made in a write section when it is not there, and then locked without waiting.
However the calls interleave, those of a session come to the same mutex, and the calls of the
other sessions might as well not be there.
-/

namespace Behest

open Effect

/-- The mutex it keeps locked. Source: `session_gate.rs:18–20`. -/
structure SessionGuard where
  inner : Nat
deriving DecidableEq

/-- Source: `session_gate.rs:90–95`. -/
structure SessionBusy where
  sessionId : Uuid
deriving DecidableEq

/-- The map of the mutexes, and the mutexes themselves: how many have been made, and which are
locked. Source: `session_gate.rs:42–45`. -/
structure SessionGate where
  locks : Uuid → Option Nat
  made : Nat
  locked : Nat → Bool

namespace SessionGate

/-- Where a call of `acquire` is, and what has become of its guard. -/
inductive Phase where
  | starting
  | missed
  | found (mutex : Nat)
  | holding (guard : SessionGuard)
  | failed (e : SessionBusy)
  | dropped
deriving DecidableEq

/-- The mutex that a call refers to. -/
def Phase.mutex? : Phase → Option Nat
  | .found mutex => some mutex
  | .holding guard => some guard.inner
  | _ => none

def Phase.isHolding : Phase → Bool
  | .holding _ => true
  | _ => false

structure Acquire where
  sessionId : Uuid
  phase : Phase
deriving DecidableEq

def new : SessionGate := ⟨fun _ => none, 0, fun _ => false⟩

def start (sessionId : Uuid) : Acquire := ⟨sessionId, .starting⟩

/-- `entry(session_id).or_insert_with(|| Arc::new(Mutex::new(())))`.
Source: `session_gate.rs:72–76`. -/
def entry (s : SessionGate) (sessionId : Uuid) : Nat × SessionGate :=
  match s.locks sessionId with
  | some mutex => (mutex, s)
  | none => (s.made,
      { locks := Function.update s.locks sessionId (some s.made)
        made := s.made + 1
        locked := Function.update s.locked s.made false })

def setLocked (s : SessionGate) (mutex : Nat) (b : Bool) : SessionGate :=
  { s with locked := Function.update s.locked mutex b }

/-- `Mutex::try_lock_owned`. -/
def tryLockOwned (s : SessionGate) (mutex : Nat) : Option SessionGuard × SessionGate :=
  if s.locked mutex then (none, s) else (some ⟨mutex⟩, s.setLocked mutex true)

/-- The next step of a call: the read section, the write section, the attempt to lock, and then
the drop of its guard. Source: `session_gate.rs:64–86`. -/
def move (c : Acquire) (s : SessionGate) : Option (Acquire × SessionGate) :=
  match c.phase with
  | .starting =>
      match s.locks c.sessionId with
      | some mutex => some ({ c with phase := .found mutex }, s)
      | none => some ({ c with phase := .missed }, s)
  | .missed =>
      some ({ c with phase := .found (s.entry c.sessionId).1 }, (s.entry c.sessionId).2)
  | .found mutex =>
      match s.tryLockOwned mutex with
      | (some guard, s') => some ({ c with phase := .holding guard }, s')
      | (none, s') => some ({ c with phase := .failed ⟨c.sessionId⟩ }, s')
  | .holding guard => some ({ c with phase := .dropped }, s.setLocked guard.inner false)
  | .failed _ | .dropped => none

def step : Crowd Acquire SessionGate → Crowd.Turn Uuid → Option (Crowd Acquire SessionGate) :=
  Crowd.step start move

/-- What any number of calls and drops lead to. -/
def Reached (x : Crowd Acquire SessionGate) : Prop :=
  LeadsTo step (fun _ _ => True) ⟨[], new⟩ x

/-- A call has a guard of the session that is alive. -/
def Acquire.holds (sessionId : Uuid) (c : Acquire) : Bool :=
  c.sessionId == sessionId && c.phase.isHolding

/-- The guards of a session that are alive. -/
def guards (sessionId : Uuid) (calls : List Acquire) : Nat :=
  calls.countP (Acquire.holds sessionId)

/-! ### The calls of one session -/

/-- A reference to the only mutex there is. -/
def Phase.only : Phase → Phase
  | .found _ => .found 0
  | .holding _ => .holding ⟨0⟩
  | phase => phase

/-- A call of a session, its mutex the only one. -/
def Acquire.only (sessionId : Uuid) (c : Acquire) : Option Acquire :=
  if c.sessionId = sessionId then some { c with phase := c.phase.only } else none

/-- The gate with the entry of a session, its mutex the only one. -/
def only (sessionId : Uuid) (s : SessionGate) : SessionGate :=
  match s.locks sessionId with
  | some mutex =>
      { locks := Function.update new.locks sessionId (some 0)
        made := 1
        locked := Function.update new.locked 0 (s.locked mutex) }
  | none => new

/-- The calls of a session and its entry, as if no other call were there. -/
def ownCalls (sessionId : Uuid) (x : Crowd Acquire SessionGate) : Crowd Acquire SessionGate :=
  x.part (Acquire.only sessionId) (only sessionId)

/-- The turn of a call of the session, as if no other call were there. -/
def ownTurn (sessionId : Uuid) (x : Crowd Acquire SessionGate) (t : Crowd.Turn Uuid) :
    Option (Crowd.Turn Uuid) :=
  t.part (Acquire.only sessionId) (Option.guard (· == sessionId)) x

/-! ### The steps -/

theorem entry_of_some {s : SessionGate} {sessionId : Uuid} {mutex : Nat}
    (h : s.locks sessionId = some mutex) : s.entry sessionId = (mutex, s) := by
  rw [entry, h]

section Absent

variable {s : SessionGate} {sessionId : Uuid} (h : s.locks sessionId = none)
include h

theorem entry_fst_of_none : (s.entry sessionId).1 = s.made := by
  rw [entry, h]

theorem entry_locks_of_none :
    (s.entry sessionId).2.locks = Function.update s.locks sessionId (some s.made) := by
  rw [entry, h]

theorem entry_made_of_none : (s.entry sessionId).2.made = s.made + 1 := by
  rw [entry, h]

theorem entry_locked_of_none :
    (s.entry sessionId).2.locked = Function.update s.locked s.made false := by
  rw [entry, h]

end Absent

/-- What a step does: it looks the mutex up, makes an entry, finds the mutex locked, locks it, or
drops the guard. -/
theorem move_cases {c c' : Acquire} {s s' : SessionGate} (h : move c s = some (c', s')) :
    (c.phase = .starting ∧ s' = s ∧
      c' = ⟨c.sessionId, (s.locks c.sessionId).elim .missed .found⟩) ∨
    (c.phase = .missed ∧ s' = (s.entry c.sessionId).2 ∧
      c' = ⟨c.sessionId, .found (s.entry c.sessionId).1⟩) ∨
    (∃ mutex, c.phase = .found mutex ∧ s.locked mutex = true ∧ s' = s ∧
      c' = ⟨c.sessionId, .failed ⟨c.sessionId⟩⟩) ∨
    (∃ mutex, c.phase = .found mutex ∧ s.locked mutex = false ∧ s' = s.setLocked mutex true ∧
      c' = ⟨c.sessionId, .holding ⟨mutex⟩⟩) ∨
    ∃ guard, c.phase = .holding guard ∧ s' = s.setLocked guard.inner false ∧
      c' = ⟨c.sessionId, .dropped⟩ := by
  obtain ⟨sessionId, phase⟩ := c
  cases phase with
  | starting =>
    cases hlocks : s.locks sessionId <;>
      · simp only [move, hlocks, Option.some.injEq, Prod.mk.injEq] at h
        exact .inl ⟨rfl, h.2.symm, h.1.symm⟩
  | missed =>
    simp only [move, Option.some.injEq, Prod.mk.injEq] at h
    exact .inr (.inl ⟨rfl, h.2.symm, h.1.symm⟩)
  | found mutex =>
    cases hlocked : s.locked mutex with
    | true =>
      simp only [move, tryLockOwned, hlocked, if_true, Option.some.injEq, Prod.mk.injEq] at h
      exact .inr (.inr (.inl ⟨mutex, rfl, hlocked, h.2.symm, h.1.symm⟩))
    | false =>
      simp only [move, tryLockOwned, hlocked, Bool.false_eq_true, if_false, Option.some.injEq,
        Prod.mk.injEq] at h
      exact .inr (.inr (.inr (.inl ⟨mutex, rfl, hlocked, h.2.symm, h.1.symm⟩)))
  | holding guard =>
    simp only [move, Option.some.injEq, Prod.mk.injEq] at h
    exact .inr (.inr (.inr (.inr ⟨guard, rfl, h.2.symm, h.1.symm⟩)))
  | failed e => cases h
  | dropped => cases h

theorem locked_setLocked (s : SessionGate) (mutex : Nat) (b : Bool) :
    (s.setLocked mutex b).locked mutex = b :=
  Function.update_self ..

theorem locked_setLocked_of_ne (s : SessionGate) {mutex m : Nat} (h : m ≠ mutex) (b : Bool) :
    (s.setLocked mutex b).locked m = s.locked m :=
  Function.update_of_ne h ..

/-! ### The entries -/

/-- Sessions have mutexes of their own, which have been made. -/
structure Distinct (s : SessionGate) : Prop where
  made : ∀ a mutex, s.locks a = some mutex → mutex < s.made
  own : ∀ a b mutex, s.locks a = some mutex → s.locks b = some mutex → a = b

theorem locks_entry (s : SessionGate) (a : Uuid) :
    (s.entry a).2.locks a = some (s.entry a).1 := by
  cases h : s.locks a with
  | some mutex => rw [entry_of_some h, h]
  | none => rw [entry_locks_of_none h, entry_fst_of_none h, Function.update_self]

theorem locks_entry_of_ne (s : SessionGate) {a b : Uuid} (h : b ≠ a) :
    (s.entry a).2.locks b = s.locks b := by
  cases ha : s.locks a with
  | some mutex => rw [entry_of_some ha]
  | none => rw [entry_locks_of_none ha, Function.update_of_ne h]

theorem locks_entry_of_some {s : SessionGate} {a b : Uuid} {mutex : Nat}
    (h : s.locks b = some mutex) : (s.entry a).2.locks b = some mutex := by
  by_cases hb : b = a
  · subst hb
    rwa [entry_of_some h]
  · rwa [locks_entry_of_ne s hb]

/-- A mutex is there before an entry is made, or is made with it and unlocked. -/
theorem locks_entry_cases {s : SessionGate} {a b : Uuid} {mutex : Nat}
    (h : (s.entry a).2.locks b = some mutex) :
    s.locks b = some mutex ∨
      b = a ∧ s.locks a = none ∧ mutex = s.made ∧ (s.entry a).2.locked mutex = false := by
  cases ha : s.locks a with
  | some m =>
    rw [entry_of_some ha] at h
    exact .inl h
  | none =>
    by_cases hb : b = a
    · subst hb
      rw [entry_locks_of_none ha, Function.update_self, Option.some.injEq] at h
      exact .inr ⟨rfl, rfl, h.symm, by rw [entry_locked_of_none ha, ← h, Function.update_self]⟩
    · rw [locks_entry_of_ne s hb] at h
      exact .inl h

theorem Distinct.locked_entry {s : SessionGate} (hs : s.Distinct) (a : Uuid) {b : Uuid}
    {mutex : Nat} (h : s.locks b = some mutex) : (s.entry a).2.locked mutex = s.locked mutex := by
  cases ha : s.locks a with
  | some m => rw [entry_of_some ha]
  | none =>
    rw [entry_locked_of_none ha, Function.update_of_ne (Nat.ne_of_lt (hs.made b mutex h))]

theorem Distinct.entry {s : SessionGate} (hs : s.Distinct) (a : Uuid) : (s.entry a).2.Distinct := by
  cases ha : s.locks a with
  | some m => rwa [entry_of_some ha]
  | none =>
    constructor
    · intro b mutex hb
      rw [entry_made_of_none ha]
      obtain hb | ⟨-, -, rfl, -⟩ := locks_entry_cases hb
      · exact Nat.lt_succ_of_lt (hs.made b mutex hb)
      · exact Nat.lt_succ_self _
    · intro b b' mutex hb hb'
      obtain hold | ⟨hba, -, hnew, -⟩ := locks_entry_cases hb <;>
        obtain hold' | ⟨hba', -, hnew', -⟩ := locks_entry_cases hb'
      · exact hs.own b b' mutex hold hold'
      · exact absurd (hs.made b mutex hold) (hnew' ▸ Nat.lt_irrefl _)
      · exact absurd (hs.made b' mutex hold') (hnew ▸ Nat.lt_irrefl _)
      · exact hba.trans hba'.symm

/-! ### The invariant -/

/-- A call refers to the mutex of its session, which is locked as long as a guard is alive. -/
structure Sound (x : Crowd Acquire SessionGate) : Prop where
  distinct : x.state.Distinct
  handles : ∀ c ∈ x.calls, ∀ mutex, c.phase.mutex? = some mutex →
    x.state.locks c.sessionId = some mutex
  guarded : ∀ a mutex, x.state.locks a = some mutex →
    guards a x.calls = (x.state.locked mutex).toNat

theorem sound_new : Sound ⟨[], new⟩ where
  distinct := ⟨fun _ _ h => (nomatch h), fun _ _ _ h => (nomatch h)⟩
  handles := fun _ h => nomatch h
  guarded := fun _ _ h => nomatch h

section Guards

variable {calls : List Acquire} {i : Nat} {c c' : Acquire} (hc : calls[i]? = some c)
include hc

theorem guards_set (c' : Acquire) (a : Uuid) :
    guards a (calls.set i c') + (if c.holds a then 1 else 0) =
      guards a calls + if c'.holds a then 1 else 0 :=
  countP_set_add (Acquire.holds a) hc c'

/-- A step between calls without a guard leaves the guards as they are. -/
theorem guards_set_of_not_holding (h : c.phase.isHolding = false)
    (h' : c'.phase.isHolding = false) (a : Uuid) : guards a (calls.set i c') = guards a calls := by
  simpa [Acquire.holds, h, h'] using guards_set hc c' a

end Guards

namespace Sound

variable {x : Crowd Acquire SessionGate} (h : Sound x)
include h

/-- Without a mutex a session has no guards. -/
theorem guards_of_none {a : Uuid} (ha : x.state.locks a = none) : guards a x.calls = 0 := by
  refine List.countP_eq_zero.mpr fun c hc hholds => ?_
  obtain ⟨rfl, hholding⟩ : c.sessionId = a ∧ c.phase.isHolding = true := by
    simpa [Acquire.holds] using hholds
  cases hphase : c.phase with
  | holding guard =>
    have hmutex := h.handles c hc guard.inner (by rw [hphase]; rfl)
    exact absurd (ha.symm.trans hmutex) nofun
  | _ => simp [hphase, Phase.isHolding] at hholding

variable {i : Nat} {c c' : Acquire} {s' : SessionGate}

/-- A call moves to a mutex of its session, and the entries that were there stay. -/
theorem handles_set {a : Uuid} (hid : c'.sessionId = a)
    (hgrow : ∀ b mutex, x.state.locks b = some mutex → s'.locks b = some mutex)
    (hown : ∀ mutex, c'.phase.mutex? = some mutex → s'.locks a = some mutex) :
    ∀ d ∈ x.calls.set i c', ∀ mutex, d.phase.mutex? = some mutex →
      s'.locks d.sessionId = some mutex := by
  intro d hd mutex hmutex
  rcases List.mem_or_eq_of_mem_set hd with hd | rfl
  · exact hgrow _ _ (h.handles d hd mutex hmutex)
  · rw [hid]
    exact hown mutex hmutex

/-- A step of a call that locks and unlocks nothing. -/
theorem move_quiet (hc : x.calls[i]? = some c) (hphase : c.phase.isHolding = false)
    (hphase' : c'.phase.isHolding = false) (hid : c'.sessionId = c.sessionId)
    (hmutex : ∀ mutex, c'.phase.mutex? = some mutex → x.state.locks c.sessionId = some mutex) :
    Sound ⟨x.calls.set i c', x.state⟩ where
  distinct := h.distinct
  handles := h.handles_set hid (fun _ _ hb => hb) hmutex
  guarded := fun a mutex ha => by
    rw [guards_set_of_not_holding hc hphase hphase']
    exact h.guarded a mutex ha

theorem move_entry (hc : x.calls[i]? = some c) (hphase : c.phase = .missed) :
    Sound ⟨x.calls.set i ⟨c.sessionId, .found (x.state.entry c.sessionId).1⟩,
      (x.state.entry c.sessionId).2⟩ where
  distinct := h.distinct.entry c.sessionId
  handles := h.handles_set rfl (fun _ _ hb => locks_entry_of_some hb) fun mutex hmutex =>
    (locks_entry x.state c.sessionId).trans hmutex
  guarded := fun a mutex ha => by
    rw [guards_set_of_not_holding hc (by rw [hphase]; rfl) rfl]
    obtain ha | ⟨rfl, hnone, -, hlocked⟩ := locks_entry_cases ha
    · rw [h.distinct.locked_entry c.sessionId ha]
      exact h.guarded a mutex ha
    · rw [h.guards_of_none hnone, hlocked]
      rfl

/-- A mutex is locked or unlocked: the guards of its session are counted anew, those of the
others are not touched. -/
theorem move_setLocked (c' : Acquire) (hc : x.calls[i]? = some c) (hid : c'.sessionId = c.sessionId)
    {mutex : Nat} (hmutex : c.phase.mutex? = some mutex)
    (hmutex' : ∀ m, c'.phase.mutex? = some m → m = mutex) (b : Bool)
    (hguards : guards c.sessionId (x.calls.set i c') = b.toNat) :
    Sound ⟨x.calls.set i c', x.state.setLocked mutex b⟩ where
  distinct := ⟨h.distinct.made, h.distinct.own⟩
  handles := h.handles_set hid (fun _ _ hb => hb) fun m hm =>
    hmutex' m hm ▸ h.handles c (List.mem_of_getElem? hc) mutex hmutex
  guarded := fun a m ha => by
    have hlocks := h.handles c (List.mem_of_getElem? hc) mutex hmutex
    by_cases hsame : a = c.sessionId
    · subst hsame
      obtain rfl : m = mutex := Option.some.inj (ha.symm.trans hlocks)
      exact hguards.trans (congrArg Bool.toNat (locked_setLocked ..).symm)
    · have hne : m ≠ mutex := fun hm => hsame (h.distinct.own a c.sessionId mutex (hm ▸ ha) hlocks)
      have hcount := guards_set hc c' a
      simp only [Acquire.holds, hid, beq_eq_false_iff_ne.mpr (Ne.symm hsame), Bool.false_and,
        Bool.false_eq_true, if_false, Nat.add_zero] at hcount
      rw [locked_setLocked_of_ne _ hne]
      exact hcount.trans (h.guarded a m ha)

theorem guards_of_mutex (hc : x.calls[i]? = some c) {mutex : Nat}
    (hmutex : c.phase.mutex? = some mutex) :
    guards c.sessionId x.calls = (x.state.locked mutex).toNat :=
  h.guarded c.sessionId mutex (h.handles c (List.mem_of_getElem? hc) mutex hmutex)

/-- What one step keeps. -/
theorem move (hc : x.calls[i]? = some c) (hmove : move c x.state = some (c', s')) :
    Sound ⟨x.calls.set i c', s'⟩ := by
  obtain ⟨hphase, rfl, rfl⟩ | ⟨hphase, rfl, rfl⟩ | ⟨mutex, hphase, hlocked, rfl, rfl⟩ |
    ⟨mutex, hphase, hlocked, rfl, rfl⟩ | ⟨guard, hphase, rfl, rfl⟩ := move_cases hmove
  · have hphase' : Phase.isHolding ((x.state.locks c.sessionId).elim .missed .found) = false := by
      cases x.state.locks c.sessionId <;> rfl
    refine h.move_quiet hc (by rw [hphase]; rfl) hphase' rfl fun mutex hmutex => ?_
    cases hlocks : x.state.locks c.sessionId with
    | none => simp [hlocks, Phase.mutex?] at hmutex
    | some m => simpa [hlocks, Phase.mutex?] using hmutex
  · exact h.move_entry hc hphase
  · exact h.move_quiet hc (by rw [hphase]; rfl) rfl rfl nofun
  · have hmutex : c.phase.mutex? = some mutex := by rw [hphase]; rfl
    refine h.move_setLocked ⟨c.sessionId, .holding ⟨mutex⟩⟩ hc rfl hmutex
      (fun m hm => (Option.some.inj hm).symm) true ?_
    have hguards := h.guards_of_mutex hc hmutex
    have hcount := guards_set hc ⟨c.sessionId, .holding ⟨mutex⟩⟩ c.sessionId
    simp only [hlocked, Bool.toNat_false] at hguards
    simpa [Acquire.holds, hphase, Phase.isHolding, hguards] using hcount
  · have hmutex : c.phase.mutex? = some guard.inner := by rw [hphase]; rfl
    refine h.move_setLocked ⟨c.sessionId, .dropped⟩ hc rfl hmutex nofun false ?_
    have hguards := h.guards_of_mutex hc hmutex
    have hle : (x.state.locked guard.inner).toNat ≤ 1 := Bool.toNat_le _
    have hcount := guards_set hc ⟨c.sessionId, .dropped⟩ c.sessionId
    simp only [Acquire.holds, hphase, Phase.isHolding, beq_self_eq_true, Bool.and_true,
      Bool.and_false, Bool.false_eq_true, if_true, if_false] at hcount
    simp only [Bool.toNat_false]
    omega

theorem step {y : Crowd Acquire SessionGate} {t : Crowd.Turn Uuid}
    (hstep : SessionGate.step x t = some y) : Sound y := by
  obtain ⟨sessionId, rfl, rfl⟩ | ⟨i, c, c', s', rfl, hc, hmove, rfl⟩ := Crowd.step_cases hstep
  · refine ⟨h.distinct, fun c hc => ?_, fun a mutex ha => ?_⟩
    · rcases List.mem_append.mp hc with hc | hc
      · exact h.handles c hc
      · rw [List.mem_singleton.mp hc]
        exact nofun
    · have hguards : guards a (x.calls ++ [start sessionId]) = guards a x.calls := by
        simp [guards, Acquire.holds, start, Phase.isHolding]
      exact hguards.trans (h.guarded a mutex ha)
  · exact h.move hc hmove

end Sound

/-- What every run keeps. -/
theorem sound_of_reached {x : Crowd Acquire SessionGate} (h : Reached x) : Sound x :=
  LeadsTo.invariant Sound h sound_new fun _ _ _ hx _ hstep => hx.step hstep

/-! ### The calls of one session -/

namespace Sound

variable {x : Crowd Acquire SessionGate} (h : Sound x)
include h

theorem guards_le_one (a : Uuid) : guards a x.calls ≤ 1 := by
  cases ha : x.state.locks a with
  | none => exact Nat.le_trans (Nat.le_of_eq (h.guards_of_none ha)) (Nat.zero_le 1)
  | some mutex => exact Nat.le_trans (Nat.le_of_eq (h.guarded a mutex ha)) (Bool.toNat_le _)

/-- A call fails where a guard of its session is alive. -/
theorem guards_pos_of_failed {c c' : Acquire} {s' : SessionGate} {e : SessionBusy}
    (hc : c ∈ x.calls) (hmove : SessionGate.move c x.state = some (c', s'))
    (hfailed : c'.phase = .failed e) :
    e.sessionId = c.sessionId ∧ 0 < guards c.sessionId x.calls := by
  obtain ⟨i, hi⟩ := List.getElem?_of_mem hc
  obtain ⟨-, -, rfl⟩ | ⟨-, -, rfl⟩ | ⟨mutex, hphase, hlocked, -, rfl⟩ | ⟨_, -, -, -, rfl⟩ |
    ⟨_, -, -, rfl⟩ := move_cases hmove
  · cases hlocks : x.state.locks c.sessionId <;> simp [hlocks] at hfailed
  · cases hfailed
  · obtain rfl : ⟨c.sessionId⟩ = e := Phase.failed.inj hfailed
    have hmutex : c.phase.mutex? = some mutex := by rw [hphase]; rfl
    rw [h.guards_of_mutex hi hmutex, hlocked]
    exact ⟨rfl, Nat.one_pos⟩
  · cases hfailed
  · cases hfailed

end Sound

theorem only_of_some {s : SessionGate} {a : Uuid} {mutex : Nat} (h : s.locks a = some mutex) :
    only a s = ⟨Function.update new.locks a (some 0), 1,
      Function.update new.locked 0 (s.locked mutex)⟩ := by
  rw [only, h]

theorem only_of_none {s : SessionGate} {a : Uuid} (h : s.locks a = none) : only a s = new := by
  rw [only, h]

theorem locks_only_of_some {s : SessionGate} {a : Uuid} {mutex : Nat}
    (h : s.locks a = some mutex) : (only a s).locks a = some 0 := by
  simp only [only_of_some h, Function.update_self]

theorem locked_only_of_some {s : SessionGate} {a : Uuid} {mutex : Nat}
    (h : s.locks a = some mutex) : (only a s).locked 0 = s.locked mutex := by
  simp only [only_of_some h, Function.update_self]

/-- The entry of a session and its mutex are all that is kept. -/
theorem only_congr {s s' : SessionGate} {a : Uuid} (hlocks : s'.locks a = s.locks a)
    (hlocked : ∀ mutex, s.locks a = some mutex → s'.locked mutex = s.locked mutex) :
    only a s' = only a s := by
  cases h : s.locks a with
  | none => rw [only_of_none h, only_of_none (hlocks.trans h)]
  | some mutex => rw [only_of_some h, only_of_some (hlocks.trans h), hlocked mutex h]

theorem only_setLocked {s : SessionGate} {a : Uuid} {mutex : Nat} (h : s.locks a = some mutex)
    (b : Bool) : only a (s.setLocked mutex b) = (only a s).setLocked 0 b := by
  have h' : (s.setLocked mutex b).locks a = some mutex := h
  rw [only_of_some h', only_of_some h, locked_setLocked]
  simp only [setLocked, Function.update_idem]

/-- An entry is made for a session as if no other were there. -/
theorem only_entry (s : SessionGate) (a : Uuid) :
    (only a s).entry a = (0, only a (s.entry a).2) := by
  cases h : s.locks a with
  | some mutex => rw [entry_of_some (locks_only_of_some h), entry_of_some h]
  | none =>
    have hlocks := locks_entry s a
    rw [only_of_none h, only_of_some hlocks, entry_locked_of_none h, entry_fst_of_none h,
      Function.update_self]
    rfl

theorem only_start (a sessionId : Uuid) :
    Acquire.only a (start sessionId) = (Option.guard (· == a) sessionId).map start := by
  by_cases h : sessionId = a <;> simp [Acquire.only, start, Option.guard, h, Phase.only]

/-- A call of another session leaves the entry of a session as it was. -/
theorem only_of_move_other {x : Crowd Acquire SessionGate} (h : Sound x) {c c' : Acquire}
    {s' : SessionGate} (hc : c ∈ x.calls) (hmove : move c x.state = some (c', s')) {a : Uuid}
    (ha : c.sessionId ≠ a) : only a s' = only a x.state := by
  have hother {m : Nat} (hm : c.phase.mutex? = some m) (b : Bool) :
      only a (x.state.setLocked m b) = only a x.state := by
    refine only_congr rfl fun mutex hmutex => locked_setLocked_of_ne _ (fun hsame => ha ?_) b
    exact h.distinct.own _ _ m (h.handles c hc m hm) (hsame ▸ hmutex)
  obtain ⟨-, rfl, -⟩ | ⟨-, rfl, -⟩ | ⟨_, -, -, rfl, -⟩ | ⟨_, hphase, -, rfl, -⟩ |
    ⟨_, hphase, rfl, -⟩ := move_cases hmove
  · rfl
  · exact only_congr (locks_entry_of_ne _ (Ne.symm ha)) fun mutex hmutex =>
      h.distinct.locked_entry _ hmutex
  · rfl
  · exact hother (by rw [hphase]; rfl) true
  · exact hother (by rw [hphase]; rfl) false

/-- A call of a session moves by its entry only. -/
theorem only_of_move_own {x : Crowd Acquire SessionGate} (h : Sound x) {c c' : Acquire}
    {s' : SessionGate} (hc : c ∈ x.calls) (hmove : move c x.state = some (c', s')) :
    move ⟨c.sessionId, c.phase.only⟩ (only c.sessionId x.state) =
      some (⟨c'.sessionId, c'.phase.only⟩, only c.sessionId s') := by
  obtain ⟨hphase, rfl, rfl⟩ | ⟨hphase, rfl, rfl⟩ | ⟨mutex, hphase, hlocked, rfl, rfl⟩ |
    ⟨mutex, hphase, hlocked, rfl, rfl⟩ | ⟨guard, hphase, rfl, rfl⟩ := move_cases hmove
  · rw [hphase]
    cases hlocks : x.state.locks c.sessionId with
    | none => simp [only_of_none hlocks, move, Phase.only, new]
    | some m => simp [move, Phase.only, locks_only_of_some hlocks]
  · rw [hphase]
    simp only [move, Phase.only, only_entry]
  · have hmutex := h.handles c hc mutex (by rw [hphase]; rfl)
    rw [hphase]
    simp [move, Phase.only, tryLockOwned, locked_only_of_some hmutex, hlocked]
  · have hmutex := h.handles c hc mutex (by rw [hphase]; rfl)
    rw [hphase, only_setLocked hmutex]
    simp [move, Phase.only, tryLockOwned, locked_only_of_some hmutex, hlocked]
  · have hmutex := h.handles c hc guard.inner (by rw [hphase]; rfl)
    rw [hphase, only_setLocked hmutex]
    rfl

/-- The calls of a session and the others are apart. -/
theorem apart_only {x : Crowd Acquire SessionGate} (h : Sound x) (a : Uuid) {c : Acquire}
    (hc : c ∈ x.calls) : Crowd.Apart move move (Acquire.only a) (only a) c x.state := by
  intro c' s' hmove
  have hid : c'.sessionId = c.sessionId := by
    obtain ⟨-, -, rfl⟩ | ⟨-, -, rfl⟩ | ⟨_, -, -, -, rfl⟩ | ⟨_, -, -, -, rfl⟩ | ⟨_, -, -, rfl⟩ :=
      move_cases hmove <;> rfl
  by_cases ha : c.sessionId = a
  · subst ha
    simp only [Acquire.only, hid, if_true]
    exact ⟨_, rfl, hid ▸ only_of_move_own h hc hmove⟩
  · simp only [Acquire.only, hid, if_neg ha]
    exact ⟨trivial, only_of_move_other h hc hmove ha⟩

/-- However the calls interleave: a session has at most one guard alive; a call fails only where
a guard of its session is alive; and to the calls of a session, the turns of the other calls are
nothing, and their own turns are what they would be with no other call there. -/
theorem exclusive_perSession {x : Crowd Acquire SessionGate} (hx : Reached x) :
    (∀ sessionId, guards sessionId x.calls ≤ 1) ∧
    (∀ c ∈ x.calls, ∀ c' s' e, move c x.state = some (c', s') → c'.phase = .failed e →
      e.sessionId = c.sessionId ∧ 0 < guards c.sessionId x.calls) ∧
    ∀ sessionId t y, step x t = some y →
      (ownTurn sessionId x t).elim (some (ownCalls sessionId x)) (step (ownCalls sessionId x)) =
        some (ownCalls sessionId y) := by
  have h := sound_of_reached hx
  refine ⟨h.guards_le_one, fun c hc c' s' e hmove hfailed => ?_, fun sessionId t y hstep => ?_⟩
  · exact h.guards_pos_of_failed hc hmove hfailed
  · exact Crowd.step_part (only_start sessionId) (fun c hc => apart_only h sessionId hc) hstep

/-- Two calls of a session miss its mutex, and both come to the one that the first makes; a call
of another session is there. -/
theorem exclusive_racing : ∃ x, Reached x ∧
    x.calls = [⟨1, .holding ⟨0⟩⟩, ⟨1, .failed ⟨1⟩⟩, ⟨2, .holding ⟨1⟩⟩] ∧
    ∀ sessionId, guards sessionId x.calls ≤ 1 := by
  obtain ⟨x, hx, hcalls⟩ := exists_leadsTo step (fun _ _ => True) ⟨[], new⟩
    [.enter 1, .enter 1, .enter 2, .advance 0, .advance 1, .advance 0, .advance 2, .advance 1,
      .advance 2, .advance 0, .advance 1, .advance 2]
    (fun x => x.calls = [⟨1, .holding ⟨0⟩⟩, ⟨1, .failed ⟨1⟩⟩, ⟨2, .holding ⟨1⟩⟩])
    (by decide +kernel)
  exact ⟨x, hx, hcalls, (exclusive_perSession hx).1⟩

end SessionGate

end Behest
