import Mathlib.Data.List.Basic

/-!
# Programs over a state with failure

Weakest preconditions for programs `EStateM ε σ α`: one postcondition for a value,
one for a failure, both reading the final state. A failing program keeps the state
it had reached, so effects made before the failure are visible to the failure
postcondition. Nothing here mentions a particular state or failure type.
-/

namespace Effect

variable {ε σ α β δ : Type}

/-- The run of `x` from `s` ends in a value satisfying `Q` or in a failure satisfying `E`. -/
def wp (x : EStateM ε σ α) (Q : α → σ → Prop) (E : ε → σ → Prop) (s : σ) : Prop :=
  match x s with
  | .ok a s' => Q a s'
  | .error e s' => E e s'

section Rules

variable {x : EStateM ε σ α} {Q Q' : α → σ → Prop} {E E' : ε → σ → Prop} {s : σ}

@[simp] theorem wp_pure (a : α) : wp (pure a : EStateM ε σ α) Q E s ↔ Q a s := Iff.rfl

@[simp] theorem wp_throw (e : ε) : wp (throw e : EStateM ε σ α) Q E s ↔ E e s := Iff.rfl

@[simp] theorem wp_get {Q : σ → σ → Prop} : wp (get : EStateM ε σ σ) Q E s ↔ Q s s := Iff.rfl

@[simp] theorem wp_modify {Q : Unit → σ → Prop} (f : σ → σ) :
    wp (modify f : EStateM ε σ Unit) Q E s ↔ Q () (f s) := Iff.rfl

@[simp] theorem wp_bind {R : β → σ → Prop} (f : α → EStateM ε σ β) :
    wp (x >>= f) R E s ↔ wp x (fun a s' => wp (f a) R E s') E s := by
  simp only [wp, bind, EStateM.bind]
  cases x s <;> rfl

@[simp] theorem wp_map {R : β → σ → Prop} (f : α → β) :
    wp (f <$> x) R E s ↔ wp x (fun a s' => R (f a) s') E s := by
  simp only [wp, Functor.map, EStateM.map]
  cases x s <;> rfl

/-- Weakening both postconditions. -/
theorem wp_mono (h : wp x Q E s) (hq : ∀ a s', Q a s' → Q' a s')
    (he : ∀ e s', E e s' → E' e s') : wp x Q' E' s := by
  unfold wp at h ⊢
  cases hx : x s with
  | ok a s' => rw [hx] at h; exact hq a s' h
  | error e s' => rw [hx] at h; exact he e s' h

/-- Two facts about the same run hold together. -/
theorem wp_and (h : wp x Q E s) (h' : wp x Q' E' s) :
    wp x (fun a s' => Q a s' ∧ Q' a s') (fun e s' => E e s' ∧ E' e s') s := by
  unfold wp at h h' ⊢
  cases hx : x s with
  | ok a s' => rw [hx] at h h'; exact ⟨h, h'⟩
  | error e s' => rw [hx] at h h'; exact ⟨h, h'⟩

/-- A weakest precondition is what every concrete outcome satisfies. -/
theorem wp_iff : wp x Q E s ↔
    (∀ a s', x s = .ok a s' → Q a s') ∧ (∀ e s', x s = .error e s' → E e s') := by
  unfold wp
  cases hx : x s with
  | ok a s' => simp
  | error e s' => simp

theorem wp_ok (h : wp x Q E s) {a : α} {s' : σ} (hx : x s = .ok a s') : Q a s' :=
  (wp_iff.mp h).1 a s' hx

theorem wp_error (h : wp x Q E s) {e : ε} {s' : σ} (hx : x s = .error e s') : E e s' :=
  (wp_iff.mp h).2 e s' hx

/-- A program that cannot fail ends in a value. -/
theorem exists_ok_of_wp (h : wp x Q (fun _ _ => False) s) : ∃ a s', x s = .ok a s' ∧ Q a s' := by
  cases hx : x s with
  | ok a s' => exact ⟨a, s', rfl, wp_ok h hx⟩
  | error e s' => exact (wp_error h hx).elim

/-- A run of the program from the first state ends in the second, with a value or a failure. -/
def Ends (x : EStateM ε σ α) (s s' : σ) : Prop :=
  (∃ a, x s = .ok a s') ∨ ∃ e, x s = .error e s'

/-- The state of an outcome. -/
def final : EStateM.Result ε σ α → σ
  | .ok _ s => s
  | .error _ s => s

theorem ends_final (x : EStateM ε σ α) (s : σ) : Ends x s (final (x s)) := by
  cases hx : x s with
  | ok a s' => exact .inl ⟨a, hx⟩
  | error e s' => exact .inr ⟨e, hx⟩

theorem wp_trivial : wp x (fun _ _ => True) (fun _ _ => True) s :=
  wp_iff.mpr ⟨fun _ _ _ => trivial, fun _ _ _ => trivial⟩

end Rules

/-- The outcome is a value that passes a test. -/
def okAnd (p : α → σ → Bool) : EStateM.Result ε σ α → Bool
  | .ok a s => p a s
  | .error _ _ => false

theorem exists_of_okAnd {x : EStateM ε σ α} {p : α → σ → Bool} {s : σ} (h : okAnd p (x s) = true) :
    ∃ a s', x s = .ok a s' ∧ p a s' = true := by
  unfold okAnd at h
  split at h
  · next a s' hx => exact ⟨a, s', hx, h⟩
  · cases h

/-- What fails first fails the whole. -/
theorem bind_error {x : EStateM ε σ α} {f : α → EStateM ε σ β} {e : ε} {s s' : σ}
    (h : x s = .error e s') : (x >>= f) s = .error e s' := by
  simp only [bind, EStateM.bind, h]

/-- Continuations that agree on the values a program can return. -/
theorem bind_congr_of_wp {x : EStateM ε σ α} {f g : α → EStateM ε σ β} {E : ε → σ → Prop} {s : σ}
    (h : wp x (fun a _ => f a = g a) E s) : (x >>= f) s = (x >>= g) s := by
  unfold wp at h
  simp only [bind, EStateM.bind]
  cases hx : x s with
  | ok a s' =>
    rw [hx] at h
    exact congrFun h s'
  | error e s' => rfl

/-! ### Failures read as values -/

/-- Run `x` and return its failure as a value where `recover` accepts it; any other
failure still ends the program. -/
def attempt (recover : ε → Option δ) (x : EStateM ε σ α) : EStateM ε σ (Except δ α) := fun s =>
  match x s with
  | .ok a s' => .ok (.ok a) s'
  | .error e s' =>
    match recover e with
    | some d => .ok (.error d) s'
    | none => .error e s'

theorem wp_attempt {recover : ε → Option δ} {x : EStateM ε σ α}
    {Q : Except δ α → σ → Prop} {E : ε → σ → Prop} {s : σ} :
    wp (attempt recover x) Q E s ↔
      wp x (fun a s' => Q (.ok a) s')
        (fun e s' => match recover e with
          | some d => Q (.error d) s'
          | none => E e s') s := by
  unfold wp attempt
  cases x s with
  | ok a s' => rfl
  | error e s' => cases h : recover e <;> simp [h]

/-! ### Iteration over a list -/

/-- An invariant of the elements still to come is carried through `forM`. -/
theorem wp_forM {f : α → EStateM ε σ PUnit} {E : ε → σ → Prop} (I : List α → σ → Prop)
    (step : ∀ a rest s, I (a :: rest) s → wp (f a) (fun _ s' => I rest s') E s)
    (xs : List α) (s : σ) (h : I xs s) : wp (xs.forM f) (fun _ s' => I [] s') E s := by
  induction xs generalizing s with
  | nil => exact h
  | cons a rest ih =>
    refine (wp_bind (x := f a) fun _ => rest.forM f).mpr ?_
    exact wp_mono (step a rest s h) (fun _ s' h' => ih s' h') (fun _ _ he => he)

/-- An invariant of the elements still to come and the values produced so far is
carried through `mapM`. -/
theorem wp_mapM {f : α → EStateM ε σ β} {E : ε → σ → Prop} (I : List α → List β → σ → Prop)
    (step : ∀ a rest done s, I (a :: rest) done s →
      wp (f a) (fun b s' => I rest (done ++ [b]) s') E s)
    (xs : List α) (done : List β) (s : σ) (h : I xs done s) :
    wp (xs.mapM f) (fun bs s' => I [] (done ++ bs) s') E s := by
  induction xs generalizing done s with
  | nil => simpa using h
  | cons a rest ih =>
    rw [List.mapM_cons, wp_bind]
    refine wp_mono (step a rest done s h) (fun b s' h' => ?_) (fun _ _ he => he)
    rw [wp_bind]
    refine wp_mono (ih (done ++ [b]) s' h') (fun bs s'' h'' => ?_) (fun _ _ he => he)
    simpa using h''

/-- Values produced one by one stand in the relation each of them is produced in. -/
theorem wp_mapM_forall₂ {f : α → EStateM ε σ β} {E : ε → σ → Prop} {R : α → β → Prop}
    (step : ∀ a s, wp (f a) (fun b _ => R a b) E s) (xs : List α) (s : σ) :
    wp (xs.mapM f) (fun bs _ => List.Forall₂ R xs bs) E s := by
  induction xs generalizing s with
  | nil => exact .nil
  | cons a rest ih =>
    rw [List.mapM_cons, wp_bind]
    apply wp_mono (step a s) _ fun _ _ he => he
    intro b s' hb
    rw [wp_bind]
    apply wp_mono (ih s') _ fun _ _ he => he
    intro bs s'' hbs
    exact .cons hb hbs

/-! ### Loops with a bounded number of passes -/

/-- What one pass of a loop decides: another pass from `a`, or leaving it with `b`. -/
inductive Pass (α β : Type) where
  | again (a : α)
  | done (b : β)

/-- Run `body` for at most the given number of passes; `exhausted` reports that the
passes ran out before the loop was left. -/
def iterate (body : α → EStateM ε σ (Pass α β)) (exhausted : ε) : Nat → α → EStateM ε σ β
  | 0, _ => throw exhausted
  | n + 1, a => do
    match ← body a with
    | .again a' => iterate body exhausted n a'
    | .done b => pure b

section Loop

variable {body : α → EStateM ε σ (Pass α β)} {exhausted : ε} {Q : β → σ → Prop} {E : ε → σ → Prop}

theorem wp_iterate_succ (n : Nat) (a : α) (s : σ) :
    wp (iterate body exhausted (n + 1) a) Q E s ↔
      wp (body a) (fun r s' => match r with
        | .again a' => wp (iterate body exhausted n a') Q E s'
        | .done b => Q b s') E s := by
  rw [iterate, wp_bind]
  constructor
  all_goals
    intro h
    refine wp_mono h (fun r s' hr => ?_) (fun _ _ he => he)
    cases r <;> exact hr

/-- The invariant rule: what every pass preserves holds when the loop is left. -/
theorem wp_iterate (I : α → σ → Prop)
    (step : ∀ a s, I a s → wp (body a) (fun r s' => match r with
      | .again a' => I a' s'
      | .done b => Q b s') E s)
    (out : ∀ a s, I a s → E exhausted s)
    (n : Nat) (a : α) (s : σ) (h : I a s) : wp (iterate body exhausted n a) Q E s := by
  induction n generalizing a s with
  | zero => exact out a s h
  | succ n ih =>
    rw [wp_iterate_succ]
    refine wp_mono (step a s h) (fun r s' hr => ?_) (fun _ _ he => he)
    cases r with
    | again a' => exact ih a' s' hr
    | done b => exact hr

/-- The ranking rule: passes that decrease a rank below the bound never exhaust it. -/
theorem wp_iterate_ranked (I : α → σ → Prop) (rank : α → Nat)
    (step : ∀ a s, I a s → wp (body a) (fun r s' => match r with
      | .again a' => I a' s' ∧ rank a' < rank a
      | .done b => Q b s') E s)
    (n : Nat) (a : α) (s : σ) (h : I a s) (hn : rank a < n) :
    wp (iterate body exhausted n a) Q E s := by
  induction n generalizing a s with
  | zero => exact absurd hn (Nat.not_lt_zero _)
  | succ n ih =>
    rw [wp_iterate_succ]
    refine wp_mono (step a s h) (fun r s' hr => ?_) (fun _ _ he => he)
    cases r with
    | again a' => exact ih a' s' hr.1 (by omega)
    | done b => exact hr

/-- A set of loop states that every pass maps into itself exhausts any bound. -/
theorem iterate_exhausted (I : α → σ → Prop)
    (step : ∀ a s, I a s → ∃ a' s', body a s = .ok (.again a') s' ∧ I a' s')
    (n : Nat) (a : α) (s : σ) (h : I a s) :
    ∃ s', iterate body exhausted n a s = .error exhausted s' := by
  induction n generalizing a s with
  | zero => exact ⟨s, rfl⟩
  | succ n ih =>
    obtain ⟨a', s', hb, hi⟩ := step a s h
    obtain ⟨s'', hs⟩ := ih a' s' hi
    refine ⟨s'', ?_⟩
    simp only [iterate, bind, EStateM.bind, hb]
    exact hs

end Loop

end Effect
