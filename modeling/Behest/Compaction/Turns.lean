import Mathlib.Data.List.DropRight
import Behest.Compaction.Select

/-!
# Turns and the backward walk

The turns of a history are consecutive blocks of indices, each opened by a user message
that is not a marker. The walk over the preserved turns takes from each turn the longest
suffix whose records fit one by one beside what has been accumulated.
-/

namespace Behest.Compaction

/-! ### Turns -/

private theorem turnsFrom_flatten (messages : List MessageRecord) (current : List Nat) (i : Nat) :
    (turnsFrom current i messages).flatten = current ++ List.range' i messages.length := by
  induction messages generalizing current i with
  | nil => cases current <;> simp [turnsFrom]
  | cons msg rest ih =>
    simp only [turnsFrom]
    split
    · simp [ih, List.range'_succ]
    · simp [ih, List.range'_succ]

/-- The turns enumerate the history in order. -/
theorem turns_flatten (messages : List MessageRecord) :
    (turns messages).flatten = List.range messages.length := by
  rw [turns, turnsFrom_flatten, List.nil_append, List.range_eq_range']

private theorem ne_nil_of_mem_turnsFrom (messages : List MessageRecord) (current : List Nat)
    (i : Nat) : ∀ turn ∈ turnsFrom current i messages, turn ≠ [] := by
  induction messages generalizing current i with
  | nil => cases current <;> simp [turnsFrom]
  | cons msg rest ih =>
    intro turn hmem
    simp only [turnsFrom] at hmem
    split at hmem
    · next h =>
      rcases List.mem_cons.mp hmem with rfl | hmem
      · simp only [Bool.and_eq_true, Bool.not_eq_true'] at h
        intro hnil
        simp [hnil] at h
      · exact ih _ _ turn hmem
    · exact ih _ _ turn hmem

theorem ne_nil_of_mem_turns {messages : List MessageRecord} {turn : List Nat}
    (h : turn ∈ turns messages) : turn ≠ [] :=
  ne_nil_of_mem_turnsFrom messages [] 0 turn h

/-- A history without turns has no messages. -/
theorem turns_eq_nil_iff (messages : List MessageRecord) :
    turns messages = [] ↔ messages = [] := by
  constructor
  · intro h
    have hlen := congrArg List.length (turns_flatten messages)
    rw [h] at hlen
    simpa using hlen.symm
  · rintro rfl
    rfl

/-- The block that opens at index `i` opens with a record that starts a turn. -/
def OpensAt (messages : List MessageRecord) (turn : List Nat) : Prop :=
  ∀ i, turn.head? = some i → ∃ msg, messages[i]? = some msg ∧ startsTurn msg = true

/-- An unfinished turn is a prefix of the next turn listed. -/
private theorem turnsFrom_of_cons (messages : List MessageRecord) (first : Nat)
    (current : List Nat) (i : Nat) :
    ∃ more others, turnsFrom (first :: current) i messages = (first :: more) :: others := by
  induction messages generalizing current i with
  | nil => exact ⟨current, [], rfl⟩
  | cons msg rest ih =>
    simp only [turnsFrom]
    split
    · exact ⟨current, _, rfl⟩
    · exact ih (current ++ [i]) (i + 1)

private theorem opensAt_of_mem_turnsFrom (before messages : List MessageRecord)
    (first : Nat) (current : List Nat) (i : Nat) (hi : before.length = i) :
    ∀ turn ∈ (turnsFrom (first :: current) i messages).tail,
      OpensAt (before ++ messages) turn := by
  induction messages generalizing before first current i with
  | nil => simp [turnsFrom]
  | cons msg rest ih =>
    have happ : before ++ msg :: rest = before ++ [msg] ++ rest := by simp
    have hlen : (before ++ [msg]).length = i + 1 := by simp [hi]
    intro turn hmem
    simp only [turnsFrom] at hmem
    split at hmem
    · next h =>
      obtain ⟨more, others, hsplit⟩ := turnsFrom_of_cons rest i [] (i + 1)
      rw [List.tail_cons, hsplit] at hmem
      rcases List.mem_cons.mp hmem with rfl | hmem
      · -- the block opened by `msg` itself
        intro j hj
        obtain rfl : i = j := by simpa using hj
        simp only [Bool.and_eq_true] at h
        exact ⟨msg, by simp [← hi], h.1⟩
      · rw [happ]
        refine ih (before ++ [msg]) i [] (i + 1) hlen turn ?_
        rw [hsplit]
        exact hmem
    · rw [happ]
      exact ih (before ++ [msg]) first (current ++ [i]) (i + 1) hlen turn hmem

/-- Every turn but the first opens with a user message that is not a marker. -/
theorem opensAt_of_mem_tail_turns {messages : List MessageRecord} {turn : List Nat}
    (h : turn ∈ (turns messages).tail) : OpensAt messages turn := by
  cases messages with
  | nil => simp [turns, turnsFrom] at h
  | cons msg rest =>
    have h' : turn ∈ (turnsFrom [0] 1 rest).tail := by
      simpa [turns, turnsFrom] using h
    exact opensAt_of_mem_turnsFrom [msg] rest 0 [] 1 rfl turn h'

end Behest.Compaction
