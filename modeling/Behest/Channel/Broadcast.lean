import Mathlib.Algebra.GroupWithZero.Nat
import Mathlib.Algebra.Order.Group.Nat
import Mathlib.Data.List.Basic
import Mathlib.Order.Lattice

/-!
# Broadcast channels that forget

A channel keeps the last messages that were sent, as many as its capacity. Each receiver reads
at its own position; one that has fallen behind is told how many messages it missed and goes on
at the oldest one kept. A relay reads such a receiver for a consumer: it holds one reading at a
time and hands it on when a bounded queue has room.
-/

namespace Channel

/-- What a receiver gets: a message, or the number of messages it missed. -/
inductive Reading (α : Type) where
  | value (a : α)
  | lagged (skipped : Nat)
deriving DecidableEq

variable {α : Type}

/-- The message of a reading. -/
def Reading.value? : Reading α → Option α
  | value a => some a
  | lagged _ => none

/-- How many messages a reading stands for. -/
def Reading.width : Reading α → Nat
  | value _ => 1
  | lagged skipped => skipped

/-- What there is to read at a position, and the position after it; `none` when the receiver has
to wait. -/
def recv (capacity : Nat) (sent : List α) (position : Nat) : Option (Reading α × Nat) :=
  if position + capacity < sent.length then
    some (.lagged (sent.length - capacity - position), sent.length - capacity)
  else
    (sent[position]?).map fun a => (.value a, position + 1)

/-- The readings lead from one position of what was sent to another: each message is read where
it was sent, and a gap is as wide as the receiver is told. -/
inductive Covers (sent : List α) : Nat → List (Reading α) → Nat → Prop where
  | nil (p : Nat) : Covers sent p [] p
  | value {p q : Nat} {a : α} {rest : List (Reading α)} (hget : sent[p]? = some a)
      (hrest : Covers sent (p + 1) rest q) : Covers sent p (.value a :: rest) q
  | lagged {p q skipped : Nat} {rest : List (Reading α)} (hkept : p + skipped ≤ sent.length)
      (hrest : Covers sent (p + skipped) rest q) : Covers sent p (.lagged skipped :: rest) q

variable {sent : List α} {p q r : Nat} {readings rest : List (Reading α)}

namespace Covers

theorem append (h : Covers sent p readings q) (hrest : Covers sent q rest r) :
    Covers sent p (readings ++ rest) r := by
  induction h with
  | nil => exact hrest
  | value hget _ ih => exact .value hget (ih hrest)
  | lagged hkept _ ih => exact .lagged hkept (ih hrest)

/-- Where the first of two stretches of readings ends. -/
theorem split (h : Covers sent p (readings ++ rest) r) :
    ∃ q, Covers sent p readings q ∧ Covers sent q rest r := by
  induction readings generalizing p with
  | nil => exact ⟨p, .nil p, h⟩
  | cons reading readings ih =>
    cases h with
    | value hget h =>
      obtain ⟨q, hfirst, hsecond⟩ := ih h
      exact ⟨q, .value hget hfirst, hsecond⟩
    | lagged hkept h =>
      obtain ⟨q, hfirst, hsecond⟩ := ih h
      exact ⟨q, .lagged hkept hfirst, hsecond⟩

/-- What is sent later changes nothing. -/
theorem grow (h : Covers sent p readings q) (more : List α) :
    Covers (sent ++ more) p readings q := by
  induction h with
  | nil => exact .nil _
  | value hget _ ih =>
    obtain ⟨hp, -⟩ := List.getElem?_eq_some_iff.mp hget
    exact .value (by rw [List.getElem?_append_left hp, hget]) ih
  | lagged hkept _ ih =>
    refine .lagged ?_ ih
    rw [List.length_append]
    omega

/-- The widths of the readings make up the way. -/
theorem width (h : Covers sent p readings q) : p + (readings.map Reading.width).sum = q := by
  induction h with
  | nil => rfl
  | value _ _ ih =>
    rw [List.map_cons, List.sum_cons, Reading.width]
    omega
  | lagged _ _ ih =>
    rw [List.map_cons, List.sum_cons, Reading.width]
    omega

theorem le (h : Covers sent p readings q) : p ≤ q := by
  have hwidth := h.width
  omega

theorem le_length (h : Covers sent p readings q) (hp : p ≤ sent.length) : q ≤ sent.length := by
  induction h with
  | nil => exact hp
  | value hget _ ih =>
    obtain ⟨hlt, -⟩ := List.getElem?_eq_some_iff.mp hget
    exact ih hlt
  | lagged hkept _ ih => exact ih hkept

/-- The messages read are some of those sent on the way, in the order in which they were sent. -/
theorem sublist (h : Covers sent p readings q) :
    (readings.filterMap Reading.value?).Sublist ((sent.drop p).take (q - p)) := by
  induction h with
  | nil => exact List.nil_sublist _
  | @value p q a rest hget hrest ih =>
    have hle := hrest.le
    obtain ⟨hlt, rfl⟩ := List.getElem?_eq_some_iff.mp hget
    have hq : q - p = (q - (p + 1)) + 1 := by omega
    rw [List.drop_eq_getElem_cons hlt, hq, List.take_succ_cons]
    exact ih.cons_cons _
  | @lagged p q skipped rest hkept hrest ih =>
    have hle := hrest.le
    have hq : q - p = skipped + (q - (p + skipped)) := by omega
    rw [hq, List.take_add, List.drop_drop]
    exact ih.trans (List.sublist_append_right _ _)

/-- A receiver that is never told of a gap has read everything. -/
theorem eq_of_no_gap (h : Covers sent p readings q)
    (hgap : ∀ reading ∈ readings, reading.value?.isSome) :
    readings.filterMap Reading.value? = (sent.drop p).take (q - p) := by
  induction h with
  | nil p => simp
  | @value p q a rest hget hrest ih =>
    have hle := hrest.le
    obtain ⟨hlt, rfl⟩ := List.getElem?_eq_some_iff.mp hget
    have hq : q - p = (q - (p + 1)) + 1 := by omega
    rw [List.drop_eq_getElem_cons hlt, hq, List.take_succ_cons,
      ← ih fun reading hreading => hgap reading (List.mem_cons_of_mem _ hreading)]
    rfl
  | lagged _ _ _ => cases hgap _ List.mem_cons_self

end Covers

/-- A read leads from the old position to the new one, and ends at most at the end. -/
theorem covers_of_recv {capacity : Nat} {reading : Reading α}
    (h : recv capacity sent p = some (reading, q)) : Covers sent p [reading] q := by
  unfold recv at h
  split at h
  · next hbehind =>
    cases h
    have hnext : sent.length - capacity = p + (sent.length - capacity - p) := by omega
    refine .lagged (by omega) ?_
    rw [← hnext]
    exact .nil _
  · obtain ⟨a, hget, hread⟩ := Option.map_eq_some_iff.mp h
    cases hread
    exact .value hget (.nil _)

/-- The receiver has to wait only at the end. -/
theorem eq_length_of_recv_none {capacity : Nat} (hp : p ≤ sent.length)
    (h : recv capacity sent p = none) : p = sent.length := by
  unfold recv at h
  split at h
  · cases h
  · have hnone := List.getElem?_eq_none_iff.mp (Option.map_eq_none_iff.mp h)
    omega

/-! ### A relay -/

/-- The position of the receiver, the reading that waits for room, and the queue. -/
structure Relay (α : Type) where
  position : Nat
  held : Option (Reading α)
  queue : List (Reading α)
deriving DecidableEq

namespace Relay

/-- A relay whose receiver has just been made. -/
def opened (position : Nat) : Relay α := ⟨position, none, []⟩

/-- The receiver is read while nothing is held. -/
def receive (capacity : Nat) (sent : List α) (y : Relay α) : Option (Relay α) :=
  match y.held with
  | some _ => none
  | none => (recv capacity sent y.position).map fun got =>
      { y with position := got.2, held := some got.1 }

/-- What is held goes to the queue when that has room. -/
def hand (bound : Nat) (y : Relay α) : Option (Relay α) :=
  match y.held with
  | some reading =>
      if y.queue.length < bound then
        some { y with held := none, queue := y.queue ++ [reading] }
      else none
  | none => none

/-- The consumer takes the first reading of the queue. -/
def poll (y : Relay α) : Option (Reading α × Relay α) :=
  match y.queue with
  | [] => none
  | reading :: rest => some (reading, { y with queue := rest })

/-- What has been read from the channel and not yet been taken, in order. -/
def pending (y : Relay α) : List (Reading α) := y.queue ++ y.held.toList

/-- What is pending leads from where the consumer stands to where the receiver stands. -/
structure Carries (bound : Nat) (sent : List α) (p : Nat) (y : Relay α) : Prop where
  covers : Covers sent p y.pending y.position
  position : y.position ≤ sent.length
  bounded : y.queue.length ≤ bound

variable {bound capacity : Nat} {y y' : Relay α} {reading : Reading α}

theorem carries_opened (hp : p ≤ sent.length) : Carries bound sent p (opened p) :=
  ⟨.nil p, hp, Nat.zero_le _⟩

namespace Carries

theorem grow (h : Carries bound sent p y) (more : List α) : Carries bound (sent ++ more) p y := by
  refine ⟨h.covers.grow more, ?_, h.bounded⟩
  rw [List.length_append]
  exact Nat.le_add_right_of_le h.position

theorem receive (h : Carries bound sent p y) (hstep : y.receive capacity sent = some y') :
    Carries bound sent p y' := by
  unfold Relay.receive at hstep
  split at hstep
  · cases hstep
  · next hheld =>
    obtain ⟨⟨reading, q⟩, hrecv, rfl⟩ := Option.map_eq_some_iff.mp hstep
    have hread := covers_of_recv hrecv
    have hpending : y.pending = y.queue := by rw [pending, hheld, Option.toList_none,
      List.append_nil]
    refine ⟨?_, hread.le_length h.position, h.bounded⟩
    have hcovers := h.covers
    rw [hpending] at hcovers
    exact hcovers.append hread

theorem hand (h : Carries bound sent p y) (hstep : y.hand bound = some y') :
    Carries bound sent p y' := by
  unfold Relay.hand at hstep
  split at hstep
  · next reading hheld =>
    split at hstep
    · next hroom =>
      cases hstep
      refine ⟨?_, h.position, ?_⟩
      · have hcovers := h.covers
        rw [pending, hheld] at hcovers
        simpa [pending] using hcovers
      · rw [List.length_append]
        exact hroom
    · cases hstep
  · cases hstep

/-- The consumer moves over the reading that it takes. -/
theorem poll (h : Carries bound sent p y) (hstep : y.poll = some (reading, y')) :
    ∃ q, Covers sent p [reading] q ∧ Carries bound sent q y' := by
  unfold Relay.poll at hstep
  split at hstep
  · cases hstep
  · next first rest hqueue =>
    cases hstep
    have hcovers := h.covers
    rw [pending, hqueue, List.cons_append, ← List.singleton_append] at hcovers
    obtain ⟨q, hfirst, hrest⟩ := hcovers.split
    refine ⟨q, hfirst, hrest, h.position, ?_⟩
    have hbounded := h.bounded
    rw [hqueue, List.length_cons] at hbounded
    exact Nat.le_of_succ_le hbounded

/-- When nothing is pending and there is nothing to read, the consumer stands at the end. -/
theorem eq_length (h : Carries bound sent p y) (hpending : y.pending = [])
    (hrecv : recv capacity sent y.position = none) : p = sent.length := by
  have hcovers := h.covers
  rw [hpending] at hcovers
  cases hcovers with
  | nil => exact eq_length_of_recv_none h.position hrecv

end Carries

end Relay

end Channel
