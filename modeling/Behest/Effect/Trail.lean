import Behest.Effect.Logged

/-!
# Protocols over logged actions

A protocol says which actions are allowed in which phase, and to which phase each of them
leads; it may look at the state the action is applied to. A trail is a sequence of actions
that a protocol allows. What the steps preserve, a trail preserves; and a trail can be cut
at any of its actions.
-/

namespace Effect

variable {σ A P : Type} (apply : σ → A → σ) (step : σ → P → A → P → Prop)

/-- The actions are allowed one after the other, from one state and phase to another. -/
inductive Trail (s : σ) (p : P) : List A → σ → P → Prop where
  | refl : Trail s p [] s p
  | snoc {s' : σ} {p' p'' : P} {as : List A} {a : A} (before : Trail s p as s' p')
      (h : step s' p' a p'') : Trail s p (as ++ [a]) (apply s' a) p''

/-- Some trail leads from one state and phase to another. -/
def Arrives (s : σ) (p : P) (s' : σ) (p' : P) : Prop := ∃ as, Trail apply step s p as s' p'

variable {apply step}

namespace Trail

variable {s s' s'' : σ} {p p' p'' : P} {as bs : List A}

theorem trans (h : Trail apply step s p as s' p') (h' : Trail apply step s' p' bs s'' p'') :
    Trail apply step s p (as ++ bs) s'' p'' := by
  induction h' with
  | refl => simpa using h
  | snoc _ hstep ih =>
    rw [← List.append_assoc]
    exact .snoc ih hstep

/-- The run rule: what holds at the start and is preserved by every allowed action holds at
the end; it may speak of the actions so far. -/
theorem invariant (I : List A → σ → P → Prop) (h : Trail apply step s p as s' p') (hs : I [] s p)
    (hI : ∀ as t q a q', I as t q → step t q a q' → I (as ++ [a]) (apply t a) q') : I as s' p' := by
  induction h with
  | refl => exact hs
  | snoc _ hstep ih => exact hI _ _ _ _ _ ih hstep

/-- A trail cut at one of its actions. -/
theorem split {a : A} (h : Trail apply step s p (as ++ a :: bs) s' p') :
    ∃ t q q', Trail apply step s p as t q ∧ step t q a q' ∧
      Trail apply step (apply t a) q' bs s' p' := by
  generalize hcs : as ++ a :: bs = cs at h
  induction h generalizing bs with
  | refl => simp at hcs
  | @snoc s' p' p'' cs c before hstep ih =>
    rcases List.eq_nil_or_concat bs with rfl | ⟨bs', b, rfl⟩
    · obtain ⟨rfl, hac⟩ := List.append_inj' hcs rfl
      cases hac
      exact ⟨s', p', p'', before, hstep, .refl⟩
    · have hcs' : (as ++ a :: bs') ++ [b] = cs ++ [c] := by simpa using hcs
      obtain ⟨rfl, hbc⟩ := List.append_inj' hcs' rfl
      cases hbc
      obtain ⟨t, q, q', hbefore, ha, hafter⟩ := ih rfl
      rw [List.concat_eq_append]
      exact ⟨t, q, q', hbefore, ha, .snoc hafter hstep⟩

/-- The actions of a trail are what a log records. -/
theorem log_eq (log : σ → List A) (hlog : ∀ s a, log (apply s a) = log s ++ [a])
    (h : Trail apply step s p as s' p') : log s' = log s ++ as := by
  induction h with
  | refl => simp
  | snoc _ _ ih => rw [hlog, ih, List.append_assoc]

/-- The final state is the one the actions lead to. -/
theorem foldl_eq (h : Trail apply step s p as s' p') : as.foldl apply s = s' := by
  induction h with
  | refl => rfl
  | snoc _ _ ih => rw [List.foldl_append, ih]; rfl

end Trail

namespace Arrives

variable {s s' s'' : σ} {p p' p'' : P}

theorem refl (s : σ) (p : P) : Arrives apply step s p s p := ⟨[], .refl⟩

theorem snoc {a : A} (h : Arrives apply step s p s' p') (hstep : step s' p' a p'') :
    Arrives apply step s p (apply s' a) p'' := by
  obtain ⟨as, h⟩ := h
  exact ⟨as ++ [a], .snoc h hstep⟩

theorem trans (h : Arrives apply step s p s' p') (h' : Arrives apply step s' p' s'' p'') :
    Arrives apply step s p s'' p'' := by
  obtain ⟨as, h⟩ := h
  obtain ⟨bs, h'⟩ := h'
  exact ⟨as ++ bs, h.trans h'⟩

/-- Actions that are allowed in a phase and stay in it. -/
theorem stay {K : A → Prop} (h : Arrives apply step s p s' p') (hr : Reaches apply K s' s'')
    (hK : ∀ t a, K a → step t p' a p') : Arrives apply step s p s'' p' := by
  induction hr with
  | refl => exact h
  | step _ ha ih => exact ih.snoc (hK _ _ ha)

end Arrives

end Effect
