import Mathlib.Logic.Function.Basic
import Behest.Effect.Crowd

/-!
# Shutdown tokens

Tokens in a tree, each with a flag and a bell of its own (`behest-runtime/src/lifecycle.rs`).
A signal raises the flag and rings the bell of its token and of the parent, and of no other; a
check looks at the flags of its token and of the parent, and at no other; a wait listens to
the bell of its token alone. Every access to a flag or a bell is a step of its own.
-/

namespace Behest

open Effect

/-- Tokens and the tokens they are derived from: a child is younger than its parent.
Source: `lifecycle.rs:74–82`. -/
structure TokenTree where
  parent : Nat → Option Nat
  derived : ∀ t p, parent t = some p → p < t

/-- The flag of each token, and how often its bell was rung. A `Notified` future wakes from any
`notify_waiters` after its creation. Source: `lifecycle.rs:35–42`. -/
structure ShutdownState where
  flag : Nat → Bool
  rung : Nat → Nat

namespace ShutdownState

def new : ShutdownState := ⟨fun _ => false, fun _ => 0⟩

def raise (s : ShutdownState) (t : Nat) : ShutdownState :=
  { s with flag := Function.update s.flag t true }

/-- `notify_waiters`. -/
def ring (s : ShutdownState) (t : Nat) : ShutdownState :=
  { s with rung := Function.update s.rung t (s.rung t + 1) }

/-- Source: `lifecycle.rs:97–105`. -/
def isShutdown (s : ShutdownState) (T : TokenTree) (t : Nat) : Bool :=
  s.flag t || (T.parent t).any s.flag

end ShutdownState

/-- What is called on a token. -/
inductive ShutdownOp where
  | signalShutdown (t : Nat)
  | wait (t : Nat)

/-- A call, at what it does next. Source: `lifecycle.rs:85–92, 109–118`. -/
inductive ShutdownCall where
  | raising (t : Nat)
  | ringing (t : Nat)
  | raisingParent (t p : Nat)
  | ringingParent (t p : Nat)
  | signalled (t : Nat)
  | checking (t : Nat)
  | checkingParent (t p : Nat)
  | listening (t : Nat)
  | rechecking (t heard : Nat)
  | recheckingParent (t p heard : Nat)
  | suspended (t heard : Nat)
  | woken (t : Nat)
deriving DecidableEq

namespace ShutdownCall

def start : ShutdownOp → ShutdownCall
  | .signalShutdown t => raising t
  | .wait t => checking t

variable (T : TokenTree)

/-- The next step of a call. A suspended wait goes on when the bell of its token was rung since
it began to listen. Source: `lifecycle.rs:85–118`. -/
def move (c : ShutdownCall) (s : ShutdownState) : Option (ShutdownCall × ShutdownState) :=
  match c with
  | raising t => some (ringing t, s.raise t)
  | ringing t =>
      some (match T.parent t with
        | some p => raisingParent t p
        | none => signalled t, s.ring t)
  | raisingParent t p => some (ringingParent t p, s.raise p)
  | ringingParent t p => some (signalled t, s.ring p)
  | signalled _ => none
  | checking t =>
      some (if s.flag t then woken t else match T.parent t with
        | some p => checkingParent t p
        | none => listening t, s)
  | checkingParent t p => some (if s.flag p then woken t else listening t, s)
  | listening t => some (rechecking t (s.rung t), s)
  | rechecking t heard =>
      some (if s.flag t then woken t else match T.parent t with
        | some p => recheckingParent t p heard
        | none => suspended t heard, s)
  | recheckingParent t p heard => some (if s.flag p then woken t else suspended t heard, s)
  | suspended t heard => if heard < s.rung t then some (woken t, s) else none
  | woken _ => none

/-- The call is a signal that has not returned. -/
def isSignalling : ShutdownCall → Bool
  | raising _ | ringing _ | raisingParent _ _ | ringingParent _ _ => true
  | _ => false

/-- The call has raised the flag of a token. -/
def Raised : ShutdownCall → Nat → Prop
  | ringing t, x | raisingParent t _, x => x = t
  | ringingParent t p, x => x = t ∨ x = p
  | signalled t, x => x = t ∨ T.parent t = some x
  | _, _ => False

/-- The call rings the bell of a token next. -/
def Rings : ShutdownCall → Nat → Prop
  | ringing t, x => x = t
  | ringingParent _ p, x => x = p
  | _, _ => False

/-- A wait that has begun to listen. -/
def Listens : ShutdownCall → Nat → Nat → Prop
  | rechecking t heard, x, n | recheckingParent t _ heard, x, n | suspended t heard, x, n =>
      t = x ∧ heard = n
  | _, _, _ => False

/-- A wait that has found the flag of its token down since it began to listen. -/
def Trusts : ShutdownCall → Nat → Nat → Prop
  | recheckingParent t _ heard, x, n | suspended t heard, x, n => t = x ∧ heard = n
  | _, _, _ => False

/-- The parent that a call works on is the parent of its token. -/
def Coherent : ShutdownCall → Prop
  | raisingParent t p | ringingParent t p | checkingParent t p | recheckingParent t p _ =>
      T.parent t = some p
  | _ => True

variable {T} {c c' : ShutdownCall} {s s' : ShutdownState}

/-- What a step does to the flags and the bells, and what it leaves its call with. -/
structure Moves (T : TokenTree) (c c' : ShutdownCall) (s s' : ShutdownState) : Prop where
  coherent : c'.Coherent T
  flag : ∀ x, s'.flag x = true ↔ s.flag x = true ∨ Raised T c' x
  raised : ∀ x, Raised T c x → Raised T c' x
  bell : ∀ x, s.flag x = false → s'.flag x = true → c'.Rings x
  rung : ∀ x, s.rung x ≤ s'.rung x ∧ (c.Rings x → s.rung x < s'.rung x) ∧
    (s.rung x < s'.rung x → Raised T c x)
  listens : ∀ x n, c'.Listens x n → n ≤ s'.rung x ∧ (c.Listens x n ∨ n = s.rung x)
  trusts : ∀ x n, c'.Trusts x n → c.Trusts x n ∨ s.flag x = false

@[simp] theorem flag_raise (s : ShutdownState) (t x : Nat) :
    (s.raise t).flag x = true ↔ s.flag x = true ∨ x = t := by
  by_cases h : x = t <;> simp [ShutdownState.raise, h]

@[simp] theorem flag_ring (s : ShutdownState) (t : Nat) : (s.ring t).flag = s.flag := rfl

@[simp] theorem rung_raise (s : ShutdownState) (t : Nat) : (s.raise t).rung = s.rung := rfl

theorem rung_ring (s : ShutdownState) (t x : Nat) :
    (s.ring t).rung x = if x = t then s.rung x + 1 else s.rung x := by
  by_cases h : x = t <;> simp [ShutdownState.ring, h]

/-- A step that raises a flag, whose bell is rung next. -/
theorem Moves.raise {t : Nat} (hcoherent : c'.Coherent T)
    (hraised : ∀ x, Raised T c' x ↔ Raised T c x ∨ x = t) (hrings : ∀ x, c'.Rings x ↔ x = t)
    (hidle : ∀ x, ¬ c.Rings x) (hlistens : ∀ x n, ¬ c'.Listens x n)
    (htrusts : ∀ x n, ¬ c'.Trusts x n)
    (hflag : ∀ x, Raised T c x → s.flag x = true) : Moves T c c' s (s.raise t) where
  coherent := hcoherent
  flag x := by
    rw [flag_raise, hraised]
    constructor
    · exact fun h => h.imp_right .inr
    · rintro (h | h | h)
      · exact .inl h
      · exact .inl (hflag x h)
      · exact .inr h
  raised x h := (hraised x).mpr (.inl h)
  bell x hdown hup := by
    rw [flag_raise, hdown] at hup
    exact (hrings x).mpr (hup.resolve_left nofun)
  rung x := ⟨Nat.le_refl _, fun h => absurd h (hidle x), fun h => absurd h (Nat.lt_irrefl _)⟩
  listens x n h := absurd h (hlistens x n)
  trusts x n h := absurd h (htrusts x n)

/-- A step that rings a bell, whose flag is up. -/
theorem Moves.ring {t : Nat} (hcoherent : c'.Coherent T)
    (hraised : ∀ x, Raised T c' x ↔ Raised T c x) (hrings : ∀ x, c.Rings x ↔ x = t)
    (hup : Raised T c t) (hlistens : ∀ x n, ¬ c'.Listens x n) (htrusts : ∀ x n, ¬ c'.Trusts x n)
    (hflag : ∀ x, Raised T c x → s.flag x = true) : Moves T c c' s (s.ring t) where
  coherent := hcoherent
  flag x := by
    rw [flag_ring, hraised]
    exact ⟨.inl, fun h => h.elim id (hflag x)⟩
  raised x h := (hraised x).mpr h
  bell x hdown hnow := by
    rw [flag_ring, hdown] at hnow
    cases hnow
  rung x := by
    rw [rung_ring, hrings]
    by_cases hx : x = t
    · rw [if_pos hx, hx]
      exact ⟨Nat.le_succ _, fun _ => Nat.lt_succ_self _, fun _ => hup⟩
    · rw [if_neg hx]
      exact ⟨Nat.le_refl _, fun h => absurd h hx, fun h => absurd h (Nat.lt_irrefl _)⟩
  listens x n h := absurd h (hlistens x n)
  trusts x n h := absurd h (htrusts x n)

/-- A step that only looks. -/
theorem Moves.look (hcoherent : c'.Coherent T)
    (hraised : ∀ x, ¬ Raised T c x) (hraised' : ∀ x, ¬ Raised T c' x) (hrings : ∀ x, ¬ c.Rings x)
    (hlistens : ∀ x n, c'.Listens x n → n ≤ s.rung x ∧ (c.Listens x n ∨ n = s.rung x))
    (htrusts : ∀ x n, c'.Trusts x n → c.Trusts x n ∨ s.flag x = false) : Moves T c c' s s where
  coherent := hcoherent
  flag x := ⟨.inl, fun h => h.elim id fun h => absurd h (hraised' x)⟩
  raised x h := absurd h (hraised x)
  bell x hdown hup := by
    rw [hdown] at hup
    cases hup
  rung x := ⟨Nat.le_refl _, fun h => absurd h (hrings x), fun h => absurd h (Nat.lt_irrefl _)⟩
  listens := hlistens
  trusts := htrusts

/-- A step after which the call is no wait that listens. -/
theorem Moves.idle (hcoherent : c'.Coherent T) (hraised : ∀ x, ¬ Raised T c x)
    (hraised' : ∀ x, ¬ Raised T c' x) (hrings : ∀ x, ¬ c.Rings x)
    (hlistens : ∀ x n, ¬ c'.Listens x n) (htrusts : ∀ x n, ¬ c'.Trusts x n) :
    Moves T c c' s s :=
  .look hcoherent hraised hraised' hrings (fun x n h => absurd h (hlistens x n))
    fun x n h => absurd h (htrusts x n)

theorem moves_of_move (h : c.move T s = some (c', s')) (hcoherent : c.Coherent T)
    (hflag : ∀ x, Raised T c x → s.flag x = true)
    (hlistens : ∀ x n, c.Listens x n → n ≤ s.rung x) : Moves T c c' s s' := by
  cases c with
  | raising t =>
    cases h
    exact .raise trivial (by simp [Raised]) (fun _ => Iff.rfl) (fun _ => id) (fun _ _ => id)
      (fun _ _ => id) (fun _ => False.elim)
  | ringing t =>
    simp only [move, Option.some.injEq, Prod.mk.injEq] at h
    obtain ⟨rfl, rfl⟩ := h
    cases hp : T.parent t with
    | none =>
      exact .ring trivial (by simp [Raised, hp]) (fun _ => Iff.rfl) rfl (fun _ _ => id)
        (fun _ _ => id) hflag
    | some p =>
      exact .ring hp (fun _ => Iff.rfl) (fun _ => Iff.rfl) rfl (fun _ _ => id) (fun _ _ => id) hflag
  | raisingParent t p =>
    cases h
    exact .raise hcoherent (fun _ => Iff.rfl) (fun _ => Iff.rfl) (fun _ => id) (fun _ _ => id)
      (fun _ _ => id) hflag
  | ringingParent t p =>
    cases h
    have hparent : ∀ x, T.parent t = some x ↔ x = p := by
      intro x
      rw [show T.parent t = some p from hcoherent, Option.some.injEq, eq_comm]
    exact .ring trivial (by simp [Raised, hparent]) (fun _ => Iff.rfl) (.inr rfl) (fun _ _ => id)
      (fun _ _ => id) hflag
  | checking t =>
    simp only [move, Option.some.injEq, Prod.mk.injEq] at h
    obtain ⟨rfl, rfl⟩ := h
    split
    · exact .idle trivial (fun _ => id) (fun _ => id) (fun _ => id) (fun _ _ => id) fun _ _ => id
    · cases hp : T.parent t with
      | none =>
        exact .idle trivial (fun _ => id) (fun _ => id) (fun _ => id) (fun _ _ => id) fun _ _ => id
      | some p =>
        exact .idle hp (fun _ => id) (fun _ => id) (fun _ => id) (fun _ _ => id) fun _ _ => id
  | checkingParent t p =>
    simp only [move, Option.some.injEq, Prod.mk.injEq] at h
    obtain ⟨rfl, rfl⟩ := h
    split <;>
      exact .idle trivial (fun _ => id) (fun _ => id) (fun _ => id) (fun _ _ => id) fun _ _ => id
  | listening t =>
    cases h
    refine .look trivial (fun _ => id) (fun _ => id) (fun _ => id) ?_ fun _ _ => False.elim
    rintro x n ⟨rfl, rfl⟩
    exact ⟨Nat.le_refl _, .inr rfl⟩
  | rechecking t heard =>
    simp only [move, Option.some.injEq, Prod.mk.injEq] at h
    obtain ⟨rfl, rfl⟩ := h
    split
    · exact .idle trivial (fun _ => id) (fun _ => id) (fun _ => id) (fun _ _ => id) fun _ _ => id
    · next hdown =>
      rw [Bool.not_eq_true] at hdown
      have hheard : ∀ x n, t = x ∧ heard = n → n ≤ s.rung x ∧
          ((rechecking t heard).Listens x n ∨ n = s.rung x) :=
        fun x n hn => ⟨hlistens x n hn, .inl hn⟩
      cases hp : T.parent t with
      | none =>
        exact .look trivial (fun _ => id) (fun _ => id) (fun _ => id) hheard
          fun x n hn => .inr (hn.1 ▸ hdown)
      | some p =>
        exact .look hp (fun _ => id) (fun _ => id) (fun _ => id) hheard
          fun x n hn => .inr (hn.1 ▸ hdown)
  | recheckingParent t p heard =>
    simp only [move, Option.some.injEq, Prod.mk.injEq] at h
    obtain ⟨rfl, rfl⟩ := h
    split
    · exact .idle trivial (fun _ => id) (fun _ => id) (fun _ => id) (fun _ _ => id) fun _ _ => id
    · exact .look trivial (fun _ => id) (fun _ => id) (fun _ => id)
        (fun x n hn => ⟨hlistens x n hn, .inl hn⟩) fun x n hn => .inl hn
  | suspended t heard =>
    simp only [move] at h
    split at h
    · cases h
      exact .idle trivial (fun _ => id) (fun _ => id) (fun _ => id) (fun _ _ => id) fun _ _ => id
    · cases h
  | signalled t | woken t => cases h

end ShutdownCall

/-! ### Runs -/

namespace TokenTree

open ShutdownCall

variable (T : TokenTree)

/-- The states that signals and waits lead to, in any order of their steps. -/
abbrev Reaches (x y : Crowd ShutdownCall ShutdownState) : Prop :=
  LeadsTo (Crowd.step start (move T)) (fun _ _ => True) x y

/-- A flag is up where some call has raised it, and a wait that trusts a flag that is up now
has heard the bell of its token, or will. -/
structure Heeded (x : Crowd ShutdownCall ShutdownState) : Prop where
  coherent : ∀ c ∈ x.calls, c.Coherent T
  flag : ∀ t, x.state.flag t = true ↔ ∃ c ∈ x.calls, Raised T c t
  silent : ∀ t, 0 < x.state.rung t → x.state.flag t = true
  listens : ∀ c ∈ x.calls, ∀ t n, c.Listens t n → n ≤ x.state.rung t
  trusts : ∀ c ∈ x.calls, ∀ t n, c.Trusts t n → x.state.flag t = true →
    n < x.state.rung t ∨ ∃ c' ∈ x.calls, c'.Rings t

variable {T} {x y : Crowd ShutdownCall ShutdownState}

theorem heeded_new : T.Heeded ⟨[], .new⟩ := by
  constructor <;> simp [ShutdownState.new]

theorem Heeded.enter (h : T.Heeded x) (op : ShutdownOp) :
    T.Heeded ⟨x.calls ++ [start op], x.state⟩ where
  coherent c hc := by
    rcases List.mem_append.mp hc with hc | hc
    · exact h.coherent c hc
    · rw [List.mem_singleton.mp hc]
      cases op <;> trivial
  flag t := by
    have hnew : ¬ Raised T (start op) t := by cases op <;> exact id
    simpa [or_and_right, exists_or, hnew] using h.flag t
  silent := h.silent
  listens c hc t n hn := by
    rcases List.mem_append.mp hc with hc | hc
    · exact h.listens c hc t n hn
    · rw [List.mem_singleton.mp hc] at hn
      cases op <;> exact hn.elim
  trusts c hc t n hn hup := by
    rcases List.mem_append.mp hc with hc | hc
    · rcases h.trusts c hc t n hn hup with hlt | ⟨c', hc', hrings⟩
      · exact .inl hlt
      · exact .inr ⟨c', List.mem_append_left _ hc', hrings⟩
    · rw [List.mem_singleton.mp hc] at hn
      cases op <;> exact hn.elim

theorem Heeded.advance (h : T.Heeded x) {i : Nat} {c c' : ShutdownCall} {s' : ShutdownState}
    (hi : x.calls[i]? = some c) (hmove : c.move T x.state = some (c', s')) :
    T.Heeded ⟨x.calls.set i c', s'⟩ := by
  have hc : c ∈ x.calls := List.mem_of_getElem? hi
  have hmoves : Moves T c c' x.state s' := moves_of_move hmove (h.coherent c hc)
    (fun t ht => (h.flag t).mpr ⟨c, hc, ht⟩) (h.listens c hc)
  constructor
  · intro d hd
    rcases List.mem_or_eq_of_mem_set hd with hd | rfl
    · exact h.coherent d hd
    · exact hmoves.coherent
  · intro t
    rw [hmoves.flag, h.flag]
    constructor
    · rintro (⟨d, hd, hraised⟩ | hraised)
      · rcases eq_or_mem_set hi c' hd with rfl | hd
        · exact ⟨c', mem_set_self hi c', hmoves.raised t hraised⟩
        · exact ⟨d, hd, hraised⟩
      · exact ⟨c', mem_set_self hi c', hraised⟩
    · rintro ⟨d, hd, hraised⟩
      rcases List.mem_or_eq_of_mem_set hd with hd | rfl
      · exact .inl ⟨d, hd, hraised⟩
      · exact .inr hraised
  · intro t ht
    rw [hmoves.flag]
    left
    by_cases hlt : x.state.rung t < s'.rung t
    · exact (h.flag t).mpr ⟨c, hc, (hmoves.rung t).2.2 hlt⟩
    · exact h.silent t (by dsimp only at ht; omega)
  · intro d hd t n hn
    rcases List.mem_or_eq_of_mem_set hd with hd | rfl
    · exact Nat.le_trans (h.listens d hd t n hn) (hmoves.rung t).1
    · exact (hmoves.listens t n hn).1
  · intro d hd t n hn hup
    by_cases hbefore : x.state.flag t = true
    · -- the wait trusted the flag before, or would not trust it now
      have htrusted : n < x.state.rung t ∨ ∃ c' ∈ x.calls, c'.Rings t := by
        rcases List.mem_or_eq_of_mem_set hd with hd | rfl
        · exact h.trusts d hd t n hn hbefore
        · rcases hmoves.trusts t n hn with hn | hdown
          · exact h.trusts c hc t n hn hbefore
          · rw [hbefore] at hdown
            cases hdown
      rcases htrusted with hlt | ⟨e, he, hrings⟩
      · exact .inl (Nat.lt_of_lt_of_le hlt (hmoves.rung t).1)
      · rcases eq_or_mem_set hi c' he with rfl | he
        · left
          refine Nat.lt_of_le_of_lt ?_ ((hmoves.rung t).2.1 hrings)
          rcases List.mem_or_eq_of_mem_set hd with hd | rfl
          · exact h.listens d hd t n (by cases d <;> first | exact hn | exact hn.elim)
          · have hlistens := hmoves.listens t n (by cases d <;> first | exact hn | exact hn.elim)
            rcases hlistens.2 with hn | hn
            · exact h.listens e hc t n hn
            · exact Nat.le_of_eq hn
        · exact .inr ⟨e, he, hrings⟩
    · exact .inr ⟨c', mem_set_self hi c', hmoves.bell t (by simpa using hbefore) hup⟩

theorem heeded_of_reaches (h : T.Reaches ⟨[], .new⟩ x) : T.Heeded x := by
  refine h.invariant T.Heeded heeded_new ?_
  intro x t y hx _ hstep
  rcases Crowd.step_cases hstep with ⟨op, rfl, rfl⟩ | ⟨i, c, c', s', rfl, hi, hmove, rfl⟩
  · exact hx.enter op
  · exact hx.advance hi hmove

/-! ### What a signal reaches -/

variable (T x)

/-- The token itself or one above it. -/
abbrev AtOrAbove (t a : Nat) : Prop :=
  Relation.ReflTransGen (fun t p => T.parent t = some p) t a

/-- No signal is under way. -/
def Calm : Prop := ∀ c ∈ x.calls, c.isSignalling = false

/-- A token that was signalled is down, with all above and all below it, and no wait on a token
that is down is left suspended with a bell it has not heard. -/
structure Obeyed : Prop where
  down : ∀ t, signalled t ∈ x.calls → ∀ a, T.AtOrAbove t a ∨ T.AtOrAbove a t →
    x.state.isShutdown T a = true
  woken : ∀ t heard, suspended t heard ∈ x.calls → x.state.isShutdown T t = true →
    heard < x.state.rung t

/-- A token that was signalled, or the parent of one. -/
def Touched (t : Nat) : Prop :=
  signalled t ∈ x.calls ∨ ∃ c, signalled c ∈ x.calls ∧ T.parent c = some t

/-- A token that is touched, or a child of one that is. -/
def Near (t : Nat) : Prop := T.Touched x t ∨ ∃ p, T.parent t = some p ∧ T.Touched x p

/-- All above and below the signalled tokens is near one that was touched, and no wait is
suspended next to a touched token. -/
structure Shallow : Prop where
  near : ∀ t, signalled t ∈ x.calls → ∀ a, T.AtOrAbove t a ∨ T.AtOrAbove a t → T.Near x a
  waits : ∀ t heard, suspended t heard ∈ x.calls → T.Near x t → T.Touched x t

variable {T x}

theorem Heeded.flag_iff (h : T.Heeded x) (hcalm : Calm x) (t : Nat) :
    x.state.flag t = true ↔ T.Touched x t := by
  rw [h.flag]
  constructor
  · rintro ⟨c, hc, hraised⟩
    have hidle := hcalm c hc
    cases c with
    | signalled s =>
      rcases hraised with rfl | hparent
      · exact .inl hc
      · exact .inr ⟨s, hc, hparent⟩
    | ringing _ | raisingParent _ _ | ringingParent _ _ => cases hidle
    | _ => exact hraised.elim
  · rintro (hc | ⟨c, hc, hparent⟩)
    · exact ⟨_, hc, .inl rfl⟩
    · exact ⟨_, hc, .inr hparent⟩

theorem Heeded.isShutdown_iff (h : T.Heeded x) (hcalm : Calm x) (t : Nat) :
    x.state.isShutdown T t = true ↔ T.Near x t := by
  unfold ShutdownState.isShutdown Near
  rw [Bool.or_eq_true, h.flag_iff hcalm]
  cases hp : T.parent t with
  | none => simp
  | some p => simp [h.flag_iff hcalm]

/-- Where no signal is under way, the signals that were given are obeyed exactly where nothing
that matters is two tokens away. -/
theorem obeyed_iff (h : T.Reaches ⟨[], .new⟩ x) (hcalm : Calm x) :
    T.Obeyed x ↔ T.Shallow x := by
  have hheeded := heeded_of_reaches h
  constructor
  · rintro ⟨hdown, hwoken⟩
    constructor
    · intro t ht a ha
      exact (hheeded.isShutdown_iff hcalm a).mp (hdown t ht a ha)
    · intro t heard ht hnear
      have hlt := hwoken t heard ht ((hheeded.isShutdown_iff hcalm t).mpr hnear)
      exact (hheeded.flag_iff hcalm t).mp (hheeded.silent t (by omega))
  · rintro ⟨hnear, hwaits⟩
    constructor
    · intro t ht a ha
      exact (hheeded.isShutdown_iff hcalm a).mpr (hnear t ht a ha)
    · intro t heard ht hdown
      have htouched := hwaits t heard ht ((hheeded.isShutdown_iff hcalm t).mp hdown)
      have hup := (hheeded.flag_iff hcalm t).mpr htouched
      rcases hheeded.trusts _ ht t heard ⟨rfl, rfl⟩ hup with hlt | ⟨c, hc, hrings⟩
      · exact hlt
      · have hidle := hcalm c hc
        cases c with
        | ringing _ | ringingParent _ _ => cases hidle
        | _ => exact hrings.elim

/-- A token with one child. -/
def pair : TokenTree where
  parent t := if t = 1 then some 0 else none
  derived := by
    intro t p h
    split at h
    · next ht =>
      cases h
      omega
    · cases h

/-- A signal on the child wakes a wait on the parent. -/
theorem pair_obeyed : ∃ x, pair.Reaches ⟨[], .new⟩ x ∧
    x.calls = [suspended 0 0, signalled 1] ∧ pair.Obeyed x := by
  obtain ⟨x, hx, hcalls⟩ := exists_leadsTo (Crowd.step start (move pair)) (fun _ _ => True)
    ⟨[], .new⟩ [.enter (.wait 0), .advance 0, .advance 0, .advance 0, .enter (.signalShutdown 1),
      .advance 1, .advance 1, .advance 1, .advance 1]
    (fun x => x.calls = [suspended 0 0, signalled 1]) (by decide)
  have hone : ∀ t, signalled t ∈ x.calls ↔ t = 1 := by simp [hcalls]
  have htouched : ∀ t, t = 0 ∨ t = 1 → pair.Touched x t := by
    rintro t (rfl | rfl)
    · exact .inr ⟨1, (hone 1).mpr rfl, rfl⟩
    · exact .inl ((hone 1).mpr rfl)
  refine ⟨x, hx, hcalls, (obeyed_iff hx (by simp [Calm, hcalls, isSignalling])).mpr ⟨?_, ?_⟩⟩
  · intro t ht a ha
    obtain rfl := (hone t).mp ht
    refine .inl (htouched a ?_)
    have hroot : ∀ p, pair.parent 0 ≠ some p := nofun
    rcases ha with ha | ha
    · rcases ha.cases_head with rfl | ⟨p, hp, hrest⟩
      · exact .inr rfl
      · cases hp
        rcases hrest.cases_head with rfl | ⟨q, hq, -⟩
        · exact .inl rfl
        · exact absurd hq (hroot q)
    · rcases ha.cases_tail with rfl | ⟨c, -, hc⟩
      · exact .inr rfl
      · by_cases h1 : c = 1 <;> simp [pair, h1] at hc
  · intro t heard ht _
    obtain ⟨rfl, -⟩ : t = 0 ∧ heard = 0 := by simpa [hcalls] using ht
    exact htouched 0 (.inl rfl)

/-- Each token is the child of the one before it. -/
def chain : TokenTree where
  parent t := if t = 0 then none else some (t - 1)
  derived := by
    intro t p h
    split at h
    · cases h
    · cases h
      omega

/-- A signal does not reach the second token above it, and does not wake a wait below it. -/
theorem chain_disobeyed :
    (∃ x, chain.Reaches ⟨[], .new⟩ x ∧ Calm x ∧ signalled 2 ∈ x.calls ∧
      x.state.isShutdown chain 0 = false ∧ ¬ chain.Obeyed x) ∧
    ∃ x, chain.Reaches ⟨[], .new⟩ x ∧ Calm x ∧ x.calls = [suspended 1 0, signalled 0] ∧
      x.state.isShutdown chain 1 = true ∧ x.state.rung 1 = 0 ∧ ¬ chain.Obeyed x := by
  constructor
  · obtain ⟨x, hx, hcalls, hup⟩ := exists_leadsTo (Crowd.step start (move chain))
      (fun _ _ => True) ⟨[], .new⟩ [.enter (.signalShutdown 2), .advance 0, .advance 0, .advance 0,
        .advance 0]
      (fun x => x.calls = [signalled 2] ∧ x.state.isShutdown chain 0 = false) (by decide)
    have hmem : signalled 2 ∈ x.calls := by simp [hcalls]
    refine ⟨x, hx, by simp [Calm, hcalls, isSignalling], hmem, hup, fun h => ?_⟩
    have habove : chain.AtOrAbove 2 0 := .tail (.single (b := 1) rfl) rfl
    rw [h.down 2 hmem 0 (.inl habove)] at hup
    cases hup
  · obtain ⟨x, hx, hcalls, hdown, hsilent⟩ := exists_leadsTo (Crowd.step start (move chain))
      (fun _ _ => True) ⟨[], .new⟩ [.enter (.wait 1), .advance 0, .advance 0, .advance 0,
        .advance 0, .advance 0, .enter (.signalShutdown 0), .advance 1, .advance 1]
      (fun x => x.calls = [suspended 1 0, signalled 0] ∧ x.state.isShutdown chain 1 = true ∧
        x.state.rung 1 = 0) (by decide)
    refine ⟨x, hx, by simp [Calm, hcalls, isSignalling], hcalls, hdown, hsilent, fun h => ?_⟩
    have hlt := h.woken 1 0 (by simp [hcalls]) hdown
    omega

end TokenTree

end Behest
