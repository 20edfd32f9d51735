import Mathlib.Algebra.Order.Group.Nat
import Mathlib.Order.Lattice

/-!
# Machine words

Arithmetic on numbers up to a largest value. What happens past it depends on the build: the
operation panics, or it keeps the low bits.
-/

namespace Word

/-- The largest value of 64 bits. -/
def max64 : Nat := 2 ^ 64 - 1

/-- The largest value of 32 bits. -/
def max32 : Nat := 2 ^ 32 - 1

/-- What an operation does with a result past the largest value. -/
inductive Overflow where
  | panics
  | wraps
deriving DecidableEq

section Operations

variable (mode : Overflow) (limit : Nat)

/-- The word for an exact result; `none` is a panic. -/
def fit (n : Nat) : Option Nat :=
  if n ≤ limit then some n
  else match mode with
    | .panics => none
    | .wraps => some (n % (limit + 1))

def add (a b : Nat) : Option Nat := fit mode limit (a + b)

/-- A difference below zero panics, or starts again at the largest value. -/
def sub (a b : Nat) : Option Nat :=
  if b ≤ a then some (a - b)
  else match mode with
    | .panics => none
    | .wraps => some (a + (limit + 1) - b)

def mul (a b : Nat) : Option Nat := fit mode limit (a * b)

def pow (a b : Nat) : Option Nat := fit mode limit (a ^ b)

end Operations

/-- A sum that stays at the largest value. -/
def saturatingAdd (limit a b : Nat) : Nat := min (a + b) limit

/-- A product that stays at the largest value. -/
def saturatingMul (limit a b : Nat) : Nat := min (a * b) limit

variable {mode : Overflow} {limit n k a b c : Nat}

theorem fit_of_le (h : n ≤ limit) : fit mode limit n = some n := if_pos h

/-- A panic is an exact result past the largest value. -/
theorem fit_eq_none_iff : fit mode limit n = none ↔ mode = .panics ∧ limit < n := by
  unfold fit
  split
  · next h => simp [Nat.not_lt.mpr h]
  · next h => cases mode <;> simp [Nat.lt_of_not_ge h]

/-- A word is the exact result, or what is left of a result past the largest value. -/
theorem fit_eq_some_iff : fit mode limit n = some k ↔
    n ≤ limit ∧ k = n ∨ mode = .wraps ∧ limit < n ∧ k = n % (limit + 1) := by
  unfold fit
  split
  · next h => simp [h, Nat.not_lt.mpr h, eq_comm]
  · next h => cases mode <;> simp [h, Nat.lt_of_not_ge h, eq_comm]

/-- A word is never more than the exact result. -/
theorem le_of_fit (h : fit mode limit n = some k) : k ≤ n := by
  rcases fit_eq_some_iff.mp h with ⟨-, rfl⟩ | ⟨-, -, rfl⟩
  · exact Nat.le_refl _
  · exact Nat.mod_le ..

theorem add_of_le (h : a + b ≤ limit) : add mode limit a b = some (a + b) := fit_of_le h

/-- A sum that is found where overflow panics is exact. -/
theorem add_panics_eq_some_iff : add .panics limit a b = some c ↔ a + b ≤ limit ∧ c = a + b := by
  rw [add, fit_eq_some_iff]
  simp

theorem saturatingMul_mono (limit : Nat) (b : Nat) : Monotone fun a => saturatingMul limit a b :=
  fun _ _ h => min_le_min_right limit (Nat.mul_le_mul_right b h)

end Word
