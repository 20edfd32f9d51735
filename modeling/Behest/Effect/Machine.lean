import Mathlib.Data.List.Induction

/-!
# Machines fed with inputs

A transition function takes a state and an input to the next state and to some outputs. Fed
with a sequence of inputs, the machine goes through states; each input arrives in one of them.
Nothing here mentions a particular machine.
-/

namespace Effect

variable {S I O : Type} (step : S → I → S × List O)

/-- The state after some inputs. -/
def stateAfter (s : S) : List I → S
  | [] => s
  | i :: rest => stateAfter (step s i).1 rest

/-- The inputs, each with the state it arrives in. -/
def visits (s : S) : List I → List (S × I)
  | [] => []
  | i :: rest => (s, i) :: visits (step s i).1 rest

/-- The outputs for some inputs. -/
def outputs (s : S) (inputs : List I) : List O :=
  (visits step s inputs).flatMap fun visit => (step visit.1 visit.2).2

variable {step} {s : S}

@[simp] theorem stateAfter_append (front back : List I) :
    stateAfter step s (front ++ back) = stateAfter step (stateAfter step s front) back := by
  induction front generalizing s with
  | nil => rfl
  | cons i rest ih => exact ih

theorem stateAfter_concat (front : List I) (i : I) :
    stateAfter step s (front ++ [i]) = (step (stateAfter step s front) i).1 :=
  stateAfter_append front [i]

/-- The run rule: what every input preserves holds after any inputs. -/
theorem stateAfter_invariant (P : S → Prop) (h : P s) (hstep : ∀ s i, P s → P (step s i).1)
    (inputs : List I) : P (stateAfter step s inputs) := by
  induction inputs generalizing s with
  | nil => exact h
  | cons i rest ih => exact ih (hstep s i h)

/-- A machine that no input moves is at rest. -/
theorem at_rest (h : ∀ i, step s i = (s, [])) (inputs : List I) :
    stateAfter step s inputs = s ∧ outputs step s inputs = [] := by
  induction inputs with
  | nil => exact ⟨rfl, rfl⟩
  | cons i rest ih =>
    obtain ⟨hstate, houtputs⟩ := ih
    constructor
    · rw [stateAfter, h i]
      exact hstate
    · rw [outputs, visits, List.flatMap_cons, h i]
      exact houtputs

end Effect
