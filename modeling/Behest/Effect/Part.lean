import Behest.Effect.Crowd

/-!
# A crowd seen through some of its calls

The calls of a crowd that a map keeps, and what they see of the state. Where the other calls
change nothing of what is seen, and the calls that are kept move by what they see, they are a
crowd of their own: they take the same turns as if the others were not there.
-/

namespace Effect

section Lists

variable {C D : Type} {f : C → Option D} {l : List C} {i : Nat} {c : C} {d : D}

/-- What is kept of a list, around one of its positions. -/
theorem filterMap_eq_around (h : l[i]? = some c) (hf : f c = some d) :
    l.filterMap f = (l.take i).filterMap f ++ d :: (l.drop (i + 1)).filterMap f := by
  obtain ⟨hi, rfl⟩ := List.getElem?_eq_some_iff.mp h
  conv_lhs => rw [← List.take_append_drop i l, ← List.getElem_cons_drop hi]
  rw [List.filterMap_append, List.filterMap_cons_some hf]

/-- What is kept stands behind what is kept of the list before it. -/
theorem getElem?_filterMap (h : l[i]? = some c) (hf : f c = some d) :
    (l.filterMap f)[((l.take i).filterMap f).length]? = some d := by
  rw [filterMap_eq_around h hf, List.getElem?_append_right (Nat.le_refl _), Nat.sub_self]
  rfl

/-- A change of what is kept. -/
theorem filterMap_set (h : l[i]? = some c) (hf : f c = some d) {c' : C} {d' : D}
    (hf' : f c' = some d') :
    (l.set i c').filterMap f = (l.filterMap f).set ((l.take i).filterMap f).length d' := by
  rw [filterMap_eq_around h hf, List.set_append_right _ _ (Nat.le_refl _), Nat.sub_self,
    List.set_eq_take_append_cons_drop, if_pos (List.getElem?_eq_some_iff.mp h).1,
    List.filterMap_append, List.filterMap_cons_some hf']
  rfl

end Lists

namespace Crowd

variable {Op C σ Op' D τ : Type}

/-- The calls that a map keeps, and what they see of the state. -/
def part (f : C → Option D) (g : σ → τ) (x : Crowd C σ) : Crowd D τ :=
  ⟨x.calls.filterMap f, g x.state⟩

/-- The turn among the calls that are kept; `none` when it is another call's. -/
def Turn.part (f : C → Option D) (own : Op → Option Op') (x : Crowd C σ) :
    Turn Op → Option (Turn Op')
  | .enter op => (own op).map .enter
  | .advance i =>
      match x.calls[i]? with
      | some c => (f c).map fun _ => .advance ((x.calls.take i).filterMap f).length
      | none => none

variable {start : Op → C} {move : C → σ → Option (C × σ)}
  {start' : Op' → D} {move' : D → τ → Option (D × τ)}
  {f : C → Option D} {g : σ → τ} {own : Op → Option Op'}

/-- Another call's step leaves what is kept as it was; a call that is kept moves by what it
sees. -/
def Apart (move : C → σ → Option (C × σ)) (move' : D → τ → Option (D × τ)) (f : C → Option D)
    (g : σ → τ) (c : C) (s : σ) : Prop :=
  ∀ c' s', move c s = some (c', s') →
    match f c with
    | none => f c' = none ∧ g s' = g s
    | some d => ∃ d', f c' = some d' ∧ move' d (g s) = some (d', g s')

/-- The projection rule: a turn is the same turn among the calls that are kept, or changes
nothing there. -/
theorem step_part {x y : Crowd C σ} {t : Turn Op}
    (hstart : ∀ op, f (start op) = (own op).map start')
    (hmove : ∀ c ∈ x.calls, Apart move move' f g c x.state) (h : x.step start move t = some y) :
    (t.part f own x).elim (some (x.part f g)) ((x.part f g).step start' move') =
      some (y.part f g) := by
  obtain ⟨op, rfl, rfl⟩ | ⟨i, c, c', s', rfl, hc, hstep, rfl⟩ := step_cases h
  · have hcalls : (x.calls ++ [start op]).filterMap f =
        x.calls.filterMap f ++ ((own op).map start').toList := by
      rw [List.filterMap_append, ← hstart]
      cases hf : f (start op) <;> simp [hf]
    cases hown : own op with
    | none => simp [Turn.part, part, hown, hcalls]
    | some op' => simp [Turn.part, part, step, hown, hcalls]
  · have hmove := hmove c (List.mem_of_getElem? hc) c' s' hstep
    cases hf : f c with
    | none =>
      rw [hf] at hmove
      have hcalls : (x.calls.set i c').filterMap f = x.calls.filterMap f :=
        filterMap_set_eq hc (hmove.1.trans hf.symm)
      simp [Turn.part, part, hc, hf, hcalls, hmove.2]
    | some d =>
      rw [hf] at hmove
      obtain ⟨d', hf', hstep'⟩ := hmove
      simp [Turn.part, part, step, hc, hf, getElem?_filterMap hc hf, hstep',
        filterMap_set hc hf hf']

end Crowd

end Effect
