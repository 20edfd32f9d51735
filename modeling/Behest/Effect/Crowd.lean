import Mathlib.Algebra.GroupWithZero.Nat
import Mathlib.Data.List.Basic
import Mathlib.Logic.Relation

/-!
# Crowds of calls

A system that takes turns, and the states that turns of a kind lead it to. A crowd is a system
of calls that work on one state without locks: in a turn a call enters, or one of the calls
there takes its next step. A call that gets no further turn has failed where it stands.
-/

namespace Effect

section Turns

variable {X T : Type} (step : X → T → Option X)

/-- The states that allowed turns lead to. -/
def LeadsTo (allowed : X → T → Prop) : X → X → Prop :=
  Relation.ReflTransGen fun x y => ∃ t, allowed x t ∧ step x t = some y

/-- Turns one after the other, as long as they are allowed. -/
def takeTurns (allowed : X → T → Prop) [∀ x t, Decidable (allowed x t)] (x : X) (turns : List T) :
    Option X :=
  turns.foldlM (fun x t => if allowed x t then step x t else none) x

variable {step} {allowed : X → T → Prop} {x y : X}

/-- The run rule: what every allowed turn preserves holds of every state reached. -/
theorem LeadsTo.invariant (I : X → Prop) (h : LeadsTo step allowed x y) (hx : I x)
    (hI : ∀ x t y, I x → allowed x t → step x t = some y → I y) : I y := by
  induction h with
  | refl => exact hx
  | tail _ hstep ih =>
    obtain ⟨t, ht, hstep⟩ := hstep
    exact hI _ t _ ih ht hstep

theorem leadsTo_of_takeTurns [∀ x t, Decidable (allowed x t)] {turns : List T}
    (h : takeTurns step allowed x turns = some y) : LeadsTo step allowed x y := by
  induction turns generalizing x with
  | nil =>
    cases h
    exact .refl
  | cons t rest ih =>
    simp only [takeTurns, List.foldlM_cons, Option.bind_eq_bind, Option.bind_eq_some_iff] at h
    obtain ⟨x', hstep, hrest⟩ := h
    split at hstep
    · next hallowed => exact .head ⟨t, hallowed, hstep⟩ (ih hrest)
    · cases hstep

variable (step allowed x) in
/-- Turns that lead to a state of a kind. -/
theorem exists_leadsTo [∀ x t, Decidable (allowed x t)] (turns : List T) (p : X → Prop)
    [DecidablePred p] (h : (takeTurns step allowed x turns).any (fun y => decide (p y)) = true) :
    ∃ y, LeadsTo step allowed x y ∧ p y := by
  obtain ⟨y, hy, hp⟩ := Option.any_eq_true _ _ |>.mp h
  exact ⟨y, leadsTo_of_takeTurns hy, of_decide_eq_true hp⟩

end Turns

/-- Calls in their phases, and the state they share. -/
structure Crowd (C σ : Type) where
  calls : List C
  state : σ

namespace Crowd

/-- A call enters, or the call at a position takes its next step. -/
inductive Turn (Op : Type) where
  | enter (op : Op)
  | advance (i : Nat)

variable {Op C σ : Type} (start : Op → C) (move : C → σ → Option (C × σ))

/-- One turn; `none` when the call at the position has ended or is not there. -/
def step (x : Crowd C σ) : Turn Op → Option (Crowd C σ)
  | .enter op => some ⟨x.calls ++ [start op], x.state⟩
  | .advance i =>
      match x.calls[i]? with
      | some c => (move c x.state).map fun r => ⟨x.calls.set i r.1, r.2⟩
      | none => none

/-- The steps of a call that no other call disturbs, up to a number of them. -/
def alone : Nat → C → σ → C × σ
  | 0, c, s => (c, s)
  | n + 1, c, s =>
      match move c s with
      | some r => alone n r.1 r.2
      | none => (c, s)

variable {start move}

/-- Steps of a call, and then more of them. -/
theorem alone_add (m n : Nat) (c : C) (s : σ) :
    alone move (m + n) c s = alone move n (alone move m c s).1 (alone move m c s).2 := by
  induction m generalizing c s with
  | zero => rw [Nat.zero_add, alone]
  | succ m ih =>
    rw [Nat.succ_add, alone, alone]
    cases h : move c s with
    | some r => exact ih r.1 r.2
    | none => cases n <;> simp [alone, h]

/-- A turn adds a call at its start, or moves one call. -/
theorem step_cases {x y : Crowd C σ} {t : Turn Op} (h : x.step start move t = some y) :
    (∃ op, t = .enter op ∧ y = ⟨x.calls ++ [start op], x.state⟩) ∨
    ∃ i c c' s', t = .advance i ∧ x.calls[i]? = some c ∧ move c x.state = some (c', s') ∧
      y = ⟨x.calls.set i c', s'⟩ := by
  cases t with
  | enter op =>
    simp only [step, Option.some.injEq] at h
    exact .inl ⟨op, rfl, h.symm⟩
  | advance i =>
    simp only [step] at h
    split at h
    · next c hc =>
      obtain ⟨r, hr, rfl⟩ := Option.map_eq_some_iff.mp h
      exact .inr ⟨i, c, r.1, r.2, rfl, hc, hr, rfl⟩
    · cases h

end Crowd

section Parts

variable {C β : Type} {l : List C} {i : Nat} {c : C}

/-- A list around one of its positions. -/
theorem exists_around (h : l[i]? = some c) :
    ∃ before after, l = before ++ c :: after ∧ ∀ c', l.set i c' = before ++ c' :: after := by
  obtain ⟨hi, rfl⟩ := List.getElem?_eq_some_iff.mp h
  refine ⟨l.take i, l.drop (i + 1), ?_, fun c' => ?_⟩
  · rw [List.getElem_cons_drop, List.take_append_drop]
  · rw [List.set_eq_take_append_cons_drop, if_pos hi]

/-- A call that is there before a step is the one that moves, or is still there. -/
theorem eq_or_mem_set (h : l[i]? = some c) (c' : C) {a : C} (ha : a ∈ l) :
    a = c ∨ a ∈ l.set i c' := by
  obtain ⟨before, after, rfl, hset⟩ := exists_around h
  rw [hset]
  rcases List.mem_append.mp ha with ha | ha
  · exact .inr (List.mem_append_left _ ha)
  · rcases List.mem_cons.mp ha with rfl | ha
    · exact .inl rfl
    · exact .inr (List.mem_append_right _ (List.mem_cons_of_mem _ ha))

theorem mem_set_self (h : l[i]? = some c) (c' : C) : c' ∈ l.set i c' :=
  List.mem_set (List.getElem?_eq_some_iff.mp h).1 c'

variable {f : C → Option β}

/-- A part after a step is that of the call that has moved, or was there before. -/
theorem mem_filterMap_set {c' : C} {b : β} (hb : b ∈ (l.set i c').filterMap f) :
    f c' = some b ∨ b ∈ l.filterMap f := by
  obtain ⟨a, ha, hf⟩ := List.mem_filterMap.mp hb
  rcases List.mem_or_eq_of_mem_set ha with ha | rfl
  · exact .inr (List.mem_filterMap.mpr ⟨a, ha, hf⟩)
  · exact .inl hf

/-- A part before a step is that of the call that moves, or is still there. -/
theorem mem_filterMap_of_set (h : l[i]? = some c) {c' : C} {b : β} (hb : b ∈ l.filterMap f) :
    f c = some b ∨ b ∈ (l.set i c').filterMap f := by
  obtain ⟨before, after, rfl, hset⟩ := exists_around h
  rw [hset, List.filterMap_append]
  rw [List.filterMap_append, List.mem_append, List.mem_filterMap, List.mem_filterMap] at hb
  rcases hb with ⟨a, ha, hf⟩ | ⟨a, ha, hf⟩
  · exact .inr (List.mem_append_left _ (List.mem_filterMap.mpr ⟨a, ha, hf⟩))
  · rcases List.mem_cons.mp ha with rfl | ha
    · exact .inl hf
    · exact .inr (List.mem_append_right _
        (List.mem_filterMap.mpr ⟨a, List.mem_cons_of_mem _ ha, hf⟩))

/-- A call gains a part where it moves to. -/
theorem mem_filterMap_set_self (h : l[i]? = some c) {c' : C} {b : β} (hf : f c' = some b) :
    b ∈ (l.set i c').filterMap f := by
  obtain ⟨before, after, rfl, hset⟩ := exists_around h
  rw [hset]
  exact List.mem_filterMap.mpr ⟨c', by simp, hf⟩

/-- Fewer parts of the same calls. -/
theorem filterMap_sublist {g : C → Option β} (h : ∀ c b, g c = some b → f c = some b)
    (l : List C) : (l.filterMap g).Sublist (l.filterMap f) := by
  induction l with
  | nil => exact .slnil
  | cons c rest ih =>
    cases hg : g c with
    | none =>
      rw [List.filterMap_cons_none hg]
      cases hf : f c with
      | none => rwa [List.filterMap_cons_none hf]
      | some b =>
        rw [List.filterMap_cons_some hf]
        exact ih.cons _
    | some b =>
      rw [List.filterMap_cons_some hg, List.filterMap_cons_some (h c b hg)]
      exact ih.cons_cons _

/-- A step that does not change a call's part changes nothing. -/
theorem filterMap_set_eq (h : l[i]? = some c) {c' : C} (hf : f c' = f c) :
    (l.set i c').filterMap f = l.filterMap f := by
  obtain ⟨before, after, rfl, hset⟩ := exists_around h
  rw [hset, List.filterMap_append, List.filterMap_append, List.filterMap_cons, List.filterMap_cons,
    hf]

/-- A step exchanges the part of its call. -/
theorem count_filterMap_set [BEq β] [LawfulBEq β] [DecidableEq β] (h : l[i]? = some c)
    (c' : C) (b : β) :
    ((l.set i c').filterMap f).count b + (if f c = some b then 1 else 0) =
      (l.filterMap f).count b + if f c' = some b then 1 else 0 := by
  obtain ⟨before, after, rfl, hset⟩ := exists_around h
  have hcons (d : C) : ((d :: after).filterMap f).count b =
      (after.filterMap f).count b + if f d = some b then 1 else 0 := by
    cases hf : f d <;> simp [hf, List.count_cons]
  rw [hset, List.filterMap_append, List.filterMap_append, List.count_append, List.count_append,
    hcons, hcons]
  omega

/-- A step counts its call under the kind it is of now, no longer under the kind it was of. -/
theorem countP_set_add (p : C → Bool) (h : l[i]? = some c) (c' : C) :
    (l.set i c').countP p + (if p c then 1 else 0) = l.countP p + if p c' then 1 else 0 := by
  obtain ⟨before, after, rfl, hset⟩ := exists_around h
  rw [hset, List.countP_append, List.countP_append, List.countP_cons, List.countP_cons]
  omega

/-- Where at most one call is of a kind, and the call that moves is, the others are not. -/
theorem mem_set_of_countP_le_one {p : C → Bool} (h : l[i]? = some c) (hc : p c = true)
    (hcount : l.countP p ≤ 1) {c' a : C} (ha : a ∈ l.set i c') :
    a = c' ∨ a ∈ l ∧ p a = false := by
  obtain ⟨before, after, rfl, hset⟩ := exists_around h
  rw [hset] at ha
  rw [List.countP_append, List.countP_cons, if_pos hc] at hcount
  have hbefore : before.countP p = 0 := by omega
  have hafter : after.countP p = 0 := by omega
  rcases List.mem_append.mp ha with ha | ha
  · exact .inr ⟨List.mem_append_left _ ha, by simpa using List.countP_eq_zero.mp hbefore a ha⟩
  · rcases List.mem_cons.mp ha with rfl | ha
    · exact .inl rfl
    · exact .inr ⟨List.mem_append_right _ (List.mem_cons_of_mem _ ha),
        by simpa using List.countP_eq_zero.mp hafter a ha⟩

/-- A step exchanges what its call adds to a sum. -/
theorem sum_map_set_add (f : C → Nat) (h : l[i]? = some c) (c' : C) :
    ((l.set i c').map f).sum + f c = (l.map f).sum + f c' := by
  obtain ⟨before, after, rfl, hset⟩ := exists_around h
  rw [hset, List.map_append, List.map_append, List.sum_append, List.sum_append, List.map_cons,
    List.map_cons, List.sum_cons, List.sum_cons]
  omega

/-- A step that gives a call a part adds it. -/
theorem filterMap_set_perm_cons (h : l[i]? = some c) {c' : C} {b : β} (hf : f c = none)
    (hf' : f c' = some b) : ((l.set i c').filterMap f).Perm (b :: l.filterMap f) := by
  obtain ⟨before, after, rfl, hset⟩ := exists_around h
  rw [hset, List.filterMap_append, List.filterMap_append, List.filterMap_cons_some hf',
    List.filterMap_cons_none hf]
  exact List.perm_middle

/-- A step that takes a call's part away removes it. -/
theorem perm_cons_filterMap_set (h : l[i]? = some c) {c' : C} {b : β} (hf : f c = some b)
    (hf' : f c' = none) : (l.filterMap f).Perm (b :: (l.set i c').filterMap f) := by
  obtain ⟨before, after, rfl, hset⟩ := exists_around h
  rw [hset, List.filterMap_append, List.filterMap_append, List.filterMap_cons_none hf',
    List.filterMap_cons_some hf]
  exact List.perm_middle

end Parts

/-! ### Moments of a run

What was so at a moment of a run stays told as the run goes on: a state on the way that was like
this, or a step on the way, or the moment between two steps, that did this. Answers of calls
that take several steps are tied to such moments. -/

section Moments

variable {X T : Type} (step : X → T → Option X) (allowed : X → T → Prop) (origin x : X)

/-- A state on the way was like this. -/
def Seen (P : X → Prop) : Prop :=
  ∃ y, LeadsTo step allowed origin y ∧ LeadsTo step allowed y x ∧ P y

/-- A step on the way, or the moment between two, did this. -/
def Took (R : X → X → Prop) : Prop :=
  ∃ y z, LeadsTo step allowed origin y ∧ (z = y ∨ ∃ t, allowed y t ∧ step y t = some z) ∧
    LeadsTo step allowed z x ∧ R y z

variable {step} {allowed} {origin x} {allowed' : X → T → Prop} {y : X} {t : T}
  {P Q : X → Prop} {R : X → X → Prop}

/-- Turns that are allowed under more conditions lead nowhere else. -/
theorem LeadsTo.mono (h : LeadsTo step allowed x y)
    (hallowed : ∀ x t, allowed x t → allowed' x t) : LeadsTo step allowed' x y := by
  induction h with
  | refl => exact .refl
  | tail _ hstep ih =>
    obtain ⟨t, ht, hstep⟩ := hstep
    exact ih.tail ⟨t, hallowed _ t ht, hstep⟩

theorem leadsTo_step (ht : allowed x t) (h : step x t = some y) : LeadsTo step allowed x y :=
  .single ⟨t, ht, h⟩

theorem Seen.trans (h : Seen step allowed origin x P) (hxy : LeadsTo step allowed x y) :
    Seen step allowed origin y P := by
  obtain ⟨z, hz, hzx, hP⟩ := h
  exact ⟨z, hz, hzx.trans hxy, hP⟩

theorem Seen.imp (h : Seen step allowed origin x P) (hPQ : ∀ z, P z → Q z) :
    Seen step allowed origin x Q := by
  obtain ⟨z, hz, hzx, hP⟩ := h
  exact ⟨z, hz, hzx, hPQ z hP⟩

theorem Took.trans (h : Took step allowed origin x R) (hxy : LeadsTo step allowed x y) :
    Took step allowed origin y R := by
  obtain ⟨z, z', hz, hstep, hzx, hR⟩ := h
  exact ⟨z, z', hz, hstep, hzx.trans hxy, hR⟩

/-- A moment between two steps. -/
theorem Seen.took (h : Seen step allowed origin x P) (hR : ∀ z, P z → R z z) :
    Took step allowed origin x R := by
  obtain ⟨z, hz, hzx, hP⟩ := h
  exact ⟨z, z, hz, .inl rfl, hzx, hR z hP⟩

/-- The last step. -/
theorem took_step (h : LeadsTo step allowed origin x) (ht : allowed x t)
    (hstep : step x t = some y) (hR : R x y) : Took step allowed origin y R :=
  ⟨x, y, h, .inr ⟨t, ht, hstep⟩, .refl, hR⟩

end Moments

end Effect
