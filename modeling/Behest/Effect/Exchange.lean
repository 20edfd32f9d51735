import Mathlib.Data.List.Basic

/-!
# Calls and answers

A log of calls and answers, each under an identifier: what it means that every answer follows
its call and that every call is answered, and when a suffix of such a log is one itself.
-/

namespace Effect

/-- A call, or the answer to one. -/
inductive Exchange (ι : Type) where
  | call (id : ι)
  | answer (id : ι)

namespace Exchange

variable {ι : Type}

/-- Every answer follows a call with its identifier. -/
def Called (log : List (Exchange ι)) : Prop :=
  ∀ before id after, log = before ++ answer id :: after → call id ∈ before

/-- Every call is followed by an answer with its identifier. -/
def Answered (log : List (Exchange ι)) : Prop :=
  ∀ before id after, log = before ++ call id :: after → answer id ∈ after

/-- A call before the cut is answered after it, and not made again in between. -/
def Straddled (before after : List (Exchange ι)) : Prop :=
  ∃ id first rest, after = first ++ answer id :: rest ∧ call id ∈ before ∧ call id ∉ first

/-- A suffix answers only its own calls exactly when the cut does not stand between a call and
its answer. -/
theorem called_suffix_iff {before after : List (Exchange ι)} (h : Called (before ++ after)) :
    Called after ↔ ¬ Straddled before after := by
  constructor
  · rintro hcalled ⟨id, first, rest, heq, _, hfirst⟩
    exact hfirst (hcalled first id rest heq)
  · intro hcut first id rest heq
    by_contra hfirst
    apply hcut
    refine ⟨id, first, rest, heq, ?_, hfirst⟩
    have hmem := h (before ++ first) id rest (by rw [heq, List.append_assoc])
    exact (List.mem_append.mp hmem).resolve_right hfirst

/-- The calls of a suffix are answered in it. -/
theorem Answered.suffix {before after : List (Exchange ι)} (h : Answered (before ++ after)) :
    Answered after := by
  intro first id rest heq
  exact h (before ++ first) id rest (by rw [heq, List.append_assoc])

/-- One call with its answer. -/
theorem called_pair (id : ι) : Called [call id, answer id] := by
  intro before id' after heq
  rcases before with _ | ⟨first, _ | ⟨second, before⟩⟩
  · cases (List.cons.inj heq).1
  · obtain ⟨rfl, hrest⟩ := List.cons.inj heq
    cases (List.cons.inj hrest).1
    simp
  · have := congrArg List.length heq
    simp at this

theorem answered_pair (id : ι) : Answered [call id, answer id] := by
  intro before id' after heq
  rcases before with _ | ⟨first, _ | ⟨second, before⟩⟩
  · obtain ⟨hcall, rfl⟩ := List.cons.inj heq
    cases hcall
    simp
  · obtain ⟨rfl, hrest⟩ := List.cons.inj heq
    cases (List.cons.inj hrest).1
  · have := congrArg List.length heq
    simp at this

end Exchange

end Effect
