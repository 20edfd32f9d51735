import Behest.Effect.Program

/-!
# Programs that act through logged actions

A state that changes only by applying actions, and the programs that apply only actions of
a given kind and end only in failures of a given kind. What every such action preserves,
every such program preserves, whether it ends in a value or in a failure.
-/

namespace Effect

variable {ε σ α β δ A : Type} (apply : σ → A → σ)

/-- The second state is reached from the first by actions of the kind `P`. -/
inductive Reaches (P : A → Prop) : σ → σ → Prop where
  | refl (s : σ) : Reaches P s s
  | step {s s' : σ} {a : A} (before : Reaches P s s') (ha : P a) : Reaches P s (apply s' a)

/-- The program changes the state only by actions of the kind `P` and ends only in values
and in failures of the kind `F`. -/
def Performs (P : A → Prop) (F : ε → Prop) (x : EStateM ε σ α) : Prop :=
  ∀ s, wp x (fun _ s' => Reaches apply P s s') (fun e s' => F e ∧ Reaches apply P s s') s

variable {apply}

namespace Reaches

variable {P P' : A → Prop} {s s' s'' : σ}

theorem single {a : A} (h : P a) : Reaches apply P s (apply s a) := .step (.refl s) h

theorem trans (h : Reaches apply P s s') (h' : Reaches apply P s' s'') :
    Reaches apply P s s'' := by
  induction h' with
  | refl => exact h
  | step _ ha ih => exact .step ih ha

theorem mono (h : Reaches apply P s s') (hP : ∀ a, P a → P' a) : Reaches apply P' s s' := by
  induction h with
  | refl => exact .refl _
  | step _ ha ih => exact .step ih (hP _ ha)

/-- What every action of the kind preserves is preserved. -/
theorem invariant (I : σ → Prop) (hI : ∀ s a, P a → I s → I (apply s a))
    (h : Reaches apply P s s') (hs : I s) : I s' := by
  induction h with
  | refl => exact hs
  | step _ ha ih => exact hI _ _ ha ih

/-- What no action of the kind changes is unchanged. -/
theorem unchanged {γ : Type} (f : σ → γ) (hf : ∀ s a, P a → f (apply s a) = f s)
    (h : Reaches apply P s s') : f s' = f s :=
  h.invariant (fun t => f t = f s) (fun t a ha ht => (hf t a ha).trans ht) rfl

end Reaches

section Rules

variable {P P' : A → Prop} {F : ε → Prop}

theorem Performs.mono {x : EStateM ε σ α} (h : Performs apply P F x) (hP : ∀ a, P a → P' a) :
    Performs apply P' F x :=
  fun s => wp_mono (h s) (fun _ _ hr => hr.mono hP) (fun _ _ hr => ⟨hr.1, hr.2.mono hP⟩)

/-- A program of the kind meets every postcondition that holds where it can lead. -/
theorem Performs.wp {x : EStateM ε σ α} (h : Performs apply P F x) {Q : α → σ → Prop}
    {E : ε → σ → Prop} {s : σ} (hQ : ∀ a s', Reaches apply P s s' → Q a s')
    (hE : ∀ e s', F e → Reaches apply P s s' → E e s') : wp x Q E s :=
  wp_mono (h s) hQ fun e s' he => hE e s' he.1 he.2

theorem performs_pure (a : α) : Performs apply P F (pure a : EStateM ε σ α) := fun s => .refl s

theorem performs_throw {e : ε} (h : F e) : Performs apply P F (throw e : EStateM ε σ α) :=
  fun s => ⟨h, .refl s⟩

theorem performs_get : Performs apply P F (get : EStateM ε σ σ) := fun s => .refl s

theorem performs_modify {a : A} (h : P a) :
    Performs apply P F (modify fun s => apply s a : EStateM ε σ Unit) := fun _ => .single h

theorem performs_bind {x : EStateM ε σ α} {f : α → EStateM ε σ β} (hx : Performs apply P F x)
    (hf : ∀ a, Performs apply P F (f a)) : Performs apply P F (x >>= f) := by
  intro s
  rw [wp_bind]
  apply hx.wp
  · intro a s' hr
    exact wp_mono (hf a s') (fun _ _ hr' => hr.trans hr') (fun _ _ hr' => ⟨hr'.1, hr.trans hr'.2⟩)
  · exact fun _ _ he hr => ⟨he, hr⟩

theorem performs_attempt {recover : ε → Option δ} {x : EStateM ε σ α}
    (hx : Performs apply P F x) : Performs apply P F (attempt recover x) := by
  intro s
  rw [wp_attempt]
  apply hx.wp
  · exact fun _ _ hr => hr
  · intro e s' he hr
    cases recover e with
    | some d => exact hr
    | none => exact ⟨he, hr⟩

theorem performs_forM {f : α → EStateM ε σ PUnit} (hf : ∀ a, Performs apply P F (f a))
    (xs : List α) : Performs apply P F (xs.forM f) := by
  intro s
  have h := wp_forM (E := fun e s' => F e ∧ Reaches apply P s s')
    (fun _ s' => Reaches apply P s s')
    (fun a _ s' hr => wp_mono (hf a s') (fun _ _ hr' => hr.trans hr')
      (fun _ _ hr' => ⟨hr'.1, hr.trans hr'.2⟩)) xs s (.refl s)
  exact h

theorem performs_mapM {f : α → EStateM ε σ β} (hf : ∀ a, Performs apply P F (f a)) (xs : List α) :
    Performs apply P F (xs.mapM f) := by
  intro s
  have h := wp_mapM (E := fun e s' => F e ∧ Reaches apply P s s')
    (fun _ _ s' => Reaches apply P s s')
    (fun a _ _ s' hr => wp_mono (hf a s') (fun _ _ hr' => hr.trans hr')
      (fun _ _ hr' => ⟨hr'.1, hr.trans hr'.2⟩)) xs [] s (.refl s)
  exact h

theorem performs_ite {c : Prop} [Decidable c] {x y : EStateM ε σ α} (hx : Performs apply P F x)
    (hy : Performs apply P F y) : Performs apply P F (if c then x else y) := by
  split
  · exact hx
  · exact hy

end Rules

end Effect
