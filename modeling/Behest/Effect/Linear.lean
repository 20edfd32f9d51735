import Mathlib.Data.List.Induction
import Behest.Effect.Crowd

/-!
# Calls that take effect at one moment

A crowd of calls is linearizable when its calls can be put in an order in which a sequential
object gives every call the answer it returned, and in which no call stands before one that had
returned when it entered. It is so when each call takes effect in one of its steps: the order is
that of these steps. The calls complete when their steps count down and never all wait.
-/

namespace Effect

/-! ### A sequential object -/

section Sequential

variable {A Op Res : Type} (spec : A → Op → A × Res)

/-- The object after some operations. -/
def objectAfter (a : A) (ops : List Op) : A := ops.foldl (fun a op => (spec a op).1) a

/-- The answers to some operations. -/
def answers (a : A) : List Op → List Res
  | [] => []
  | op :: rest => (spec a op).2 :: answers (spec a op).1 rest

variable {spec}

theorem objectAfter_concat (a : A) (ops : List Op) (op : Op) :
    objectAfter spec a (ops ++ [op]) = (spec (objectAfter spec a ops) op).1 := by
  simp [objectAfter]

theorem answers_concat (a : A) (ops : List Op) (op : Op) :
    answers spec a (ops ++ [op]) =
      answers spec a ops ++ [(spec (objectAfter spec a ops) op).2] := by
  induction ops generalizing a with
  | nil => rfl
  | cons op' rest ih => exact congrArg ((spec a op').2 :: ·) (ih _)

end Sequential

/-- A call as it takes effect: its position in the crowd, its operation and its result. -/
structure Entry (Op Res : Type) where
  call : Nat
  op : Op
  result : Res

namespace Crowd

variable {Op C σ A Res : Type} (start : Op → C) (move : C → σ → Option (C × σ))

/-- The crowd after some turns. -/
def run (x : Crowd C σ) (turns : List (Turn Op)) : Option (Crowd C σ) :=
  turns.foldlM (fun x t => x.step start move t) x

/-- The answer of the call at a position, once it has returned. -/
def answerAt (answer : C → Option Res) (x : Crowd C σ) (i : Nat) : Option Res :=
  x.calls[i]?.bind answer

/-- The call at `i` has returned at a moment when the call at `j` has not entered. -/
def Precedes (answer : C → Option Res) (x : Crowd C σ) (turns : List (Turn Op)) (i j : Nat) :
    Prop :=
  ∃ before y, before <+: turns ∧ x.run start move before = some y ∧
    (y.answerAt answer i).isSome ∧ y.calls.length ≤ j

/-- An order of the calls in which the sequential object gives every call its answer, and which
respects the order in which they returned and entered. Calls that have not returned may be in it. -/
structure Linearizes (spec : A → Op → A × Res) (operation : C → Op) (answer : C → Option Res)
    (a : A) (x : Crowd C σ) (turns : List (Turn Op)) (y : Crowd C σ)
    (log : List (Entry Op Res)) : Prop where
  nodup : (log.map Entry.call).Nodup
  legal : answers spec a (log.map Entry.op) = log.map Entry.result
  entered : ∀ e ∈ log, ∃ c, y.calls[e.call]? = some c ∧ operation c = e.op ∧
    ∀ r, answer c = some r → r = e.result
  complete : ∀ i, (y.answerAt answer i).isSome → i ∈ log.map Entry.call
  realTime : ∀ i j, Precedes start move answer x turns i j → j ∈ log.map Entry.call →
    [i, j].Sublist (log.map Entry.call)

variable {start move}

theorem run_concat (x : Crowd C σ) (turns : List (Turn Op)) (t : Turn Op) :
    x.run start move (turns ++ [t]) =
      (x.run start move turns).bind fun y => y.step start move t := by
  simp [run, List.foldlM_append]

/-- Calls stay in the crowd. -/
theorem length_le_step {x y : Crowd C σ} {t : Turn Op} (h : x.step start move t = some y) :
    x.calls.length ≤ y.calls.length := by
  rcases step_cases h with ⟨op, rfl, rfl⟩ | ⟨i, c, c', s', rfl, -, -, rfl⟩ <;> simp

/-! ### Linearization points -/

/-- What each step does to the sequential object: nothing, or the effect of its call, whose
result is then settled. `Inv` holds along the run and `R` relates the state to the object. -/
structure Points (start : Op → C) (move : C → σ → Option (C × σ)) (spec : A → Op → A × Res)
    (operation : C → Op) (answer settled : C → Option Res) (Inv : Crowd C σ → Prop)
    (R : σ → A → Prop) : Prop where
  operation_start : ∀ op, operation (start op) = op
  pending : ∀ op, settled (start op) = none
  answered : ∀ c r, answer c = some r → settled c = some r
  enter : ∀ x op, Inv x → Inv ⟨x.calls ++ [start op], x.state⟩
  advance : ∀ (x : Crowd C σ) (i : Nat) c c' s' a, Inv x → R x.state a → x.calls[i]? = some c →
    move c x.state = some (c', s') → Inv ⟨x.calls.set i c', s'⟩ ∧ operation c' = operation c ∧
      (settled c' = settled c ∧ R s' a ∨
        settled c = none ∧ settled c' = some (spec a (operation c)).2 ∧
          R s' (spec a (operation c)).1)

section Points

variable {spec : A → Op → A × Res} {operation : C → Op} {answer settled : C → Option Res}
  {Inv : Crowd C σ → Prop} {R : σ → A → Prop} {a : A} {x : Crowd C σ}

/-- The calls that have taken effect, in that order. -/
structure Settled (start : Op → C) (move : C → σ → Option (C × σ)) (spec : A → Op → A × Res)
    (operation : C → Op) (answer settled : C → Option Res) (R : σ → A → Prop) (a : A)
    (x : Crowd C σ) (turns : List (Turn Op)) (y : Crowd C σ) (log : List (Entry Op Res)) :
    Prop where
  nodup : (log.map Entry.call).Nodup
  legal : answers spec a (log.map Entry.op) = log.map Entry.result
  related : R y.state (objectAfter spec a (log.map Entry.op))
  entered : ∀ e ∈ log, ∃ c, y.calls[e.call]? = some c ∧ operation c = e.op ∧
    settled c = some e.result
  complete : ∀ i, (y.answerAt settled i).isSome → i ∈ log.map Entry.call
  preceding : ∀ i j, Precedes start move answer x turns i j → i ∈ log.map Entry.call
  realTime : ∀ i j, Precedes start move answer x turns i j → j ∈ log.map Entry.call →
    [i, j].Sublist (log.map Entry.call)

theorem Settled.lt_length {turns : List (Turn Op)} {y : Crowd C σ} {log : List (Entry Op Res)}
    (h : Settled start move spec operation answer settled R a x turns y log) {i : Nat}
    (hi : i ∈ log.map Entry.call) : i < y.calls.length := by
  obtain ⟨e, he, rfl⟩ := List.mem_map.mp hi
  obtain ⟨c, hc, -⟩ := h.entered e he
  exact (List.getElem?_eq_some_iff.mp hc).1

/-- A call that precedes another one after one more turn preceded it before, unless the other
one has not entered yet. -/
theorem Precedes.of_concat {turns : List (Turn Op)} {t : Turn Op} {y : Crowd C σ} {i j : Nat}
    (h : Precedes start move answer x (turns ++ [t]) i j)
    (hrun : x.run start move (turns ++ [t]) = some y) :
    Precedes start move answer x turns i j ∨
      (y.answerAt answer i).isSome ∧ y.calls.length ≤ j := by
  obtain ⟨before, y', hbefore, hrun', hanswer, hle⟩ := h
  rcases List.prefix_concat_iff.mp hbefore with rfl | hbefore
  · obtain rfl := Option.some.inj (hrun.symm.trans hrun')
    exact .inr ⟨hanswer, hle⟩
  · exact .inl ⟨before, y', hbefore, hrun', hanswer, hle⟩

variable (hpoints : Points start move spec operation answer settled Inv R)
include hpoints

theorem isSome_settled {y : Crowd C σ} {i : Nat} (h : (y.answerAt answer i).isSome) :
    (y.answerAt settled i).isSome := by
  unfold answerAt at h ⊢
  obtain ⟨r, hr⟩ := Option.isSome_iff_exists.mp h
  obtain ⟨c, hc, hanswer⟩ := Option.bind_eq_some_iff.mp hr
  rw [hc, Option.bind_some, hpoints.answered c r hanswer]
  rfl

/-- One more turn that settles nothing new. -/
theorem Settled.keep {turns : List (Turn Op)} {t : Turn Op} {y z : Crowd C σ}
    {log : List (Entry Op Res)}
    (h : Settled start move spec operation answer settled R a x turns y log)
    (hrun : x.run start move (turns ++ [t]) = some z) (hlength : y.calls.length ≤ z.calls.length)
    (hstate : R z.state (objectAfter spec a (log.map Entry.op)))
    (hcalls : ∀ (i : Nat) c, y.calls[i]? = some c →
      ∃ c', z.calls[i]? = some c' ∧ operation c' = operation c ∧ settled c' = settled c)
    (hnew : ∀ i, (z.answerAt settled i).isSome → (y.answerAt settled i).isSome) :
    Settled start move spec operation answer settled R a x (turns ++ [t]) z log := by
  have hcomplete : ∀ i, (z.answerAt settled i).isSome → i ∈ log.map Entry.call :=
    fun i hi => h.complete i (hnew i hi)
  refine ⟨h.nodup, h.legal, hstate, fun e he => ?_, hcomplete, fun i j hij => ?_,
    fun i j hij hj => ?_⟩
  · obtain ⟨c, hc, hop, hsettled⟩ := h.entered e he
    obtain ⟨c', hc', hop', hsettled'⟩ := hcalls _ c hc
    exact ⟨c', hc', hop'.trans hop, hsettled'.trans hsettled⟩
  · rcases hij.of_concat hrun with hij | ⟨hanswer, -⟩
    · exact h.preceding i j hij
    · exact hcomplete i (isSome_settled hpoints hanswer)
  · rcases hij.of_concat hrun with hij | ⟨-, hle⟩
    · exact h.realTime i j hij hj
    · have := h.lt_length hj
      omega

/-- One more turn in which a call takes effect. -/
theorem Settled.settle {turns : List (Turn Op)} {y : Crowd C σ} {log : List (Entry Op Res)}
    {i : Nat} {c c' : C} {s' : σ}
    (h : Settled start move spec operation answer settled R a x turns y log)
    (hc : y.calls[i]? = some c)
    (hrun : x.run start move (turns ++ [.advance i]) = some ⟨y.calls.set i c', s'⟩)
    (hop : operation c' = operation c) (hpending : settled c = none)
    (hsettled : settled c' =
      some (spec (objectAfter spec a (log.map Entry.op)) (operation c)).2)
    (hstate : R s' (spec (objectAfter spec a (log.map Entry.op)) (operation c)).1) :
    Settled start move spec operation answer settled R a x (turns ++ [.advance i])
      ⟨y.calls.set i c', s'⟩ (log ++ [⟨i, operation c,
        (spec (objectAfter spec a (log.map Entry.op)) (operation c)).2⟩]) := by
  have hlt := (List.getElem?_eq_some_iff.mp hc).1
  have hfresh : i ∉ log.map Entry.call := by
    intro hi
    obtain ⟨e, he, rfl⟩ := List.mem_map.mp hi
    obtain ⟨d, hd, -, hdone⟩ := h.entered e he
    obtain rfl := Option.some.inj (hd.symm.trans hc)
    rw [hpending] at hdone
    cases hdone
  have hself : (y.calls.set i c')[i]? = some c' := by
    rw [List.getElem?_set_self hlt]
  have hother : ∀ j, j ≠ i → (y.calls.set i c')[j]? = y.calls[j]? := by
    intro j hj
    rw [List.getElem?_set_ne (Ne.symm hj)]
  have hcomplete : ∀ j, (answerAt settled ⟨y.calls.set i c', s'⟩ j).isSome →
      j ∈ log.map Entry.call ++ [i] := by
    intro j hj
    by_cases hji : j = i
    · simp [hji]
    · unfold answerAt at hj
      rw [hother j hji] at hj
      exact List.mem_append_left _ (h.complete j hj)
  have hpreceding : ∀ j k, Precedes start move answer x (turns ++ [.advance i]) j k →
      j ∈ log.map Entry.call ++ [i] := by
    intro j k hjk
    rcases hjk.of_concat hrun with hjk | ⟨hanswer, -⟩
    · exact List.mem_append_left _ (h.preceding j k hjk)
    · exact hcomplete j (isSome_settled hpoints hanswer)
  refine ⟨?_, ?_, ?_, fun e he => ?_, ?_, ?_, fun j k hjk hk => ?_⟩
  · rw [List.map_append, List.map_singleton]
    exact List.nodup_append.mpr ⟨h.nodup, by simp, by
      intro j hj k hk
      rw [List.mem_singleton.mp hk]
      rintro rfl
      exact hfresh hj⟩
  · rw [List.map_append, List.map_append, List.map_singleton, List.map_singleton, answers_concat,
      h.legal]
  · rw [List.map_append, List.map_singleton, objectAfter_concat]
    exact hstate
  · rcases List.mem_append.mp he with he | he
    · obtain ⟨d, hd, hdop, hdone⟩ := h.entered e he
      have hne : e.call ≠ i := fun heq => hfresh (heq ▸ List.mem_map_of_mem he)
      exact ⟨d, (hother _ hne).trans hd, hdop, hdone⟩
    · rw [List.mem_singleton.mp he]
      exact ⟨c', hself, hop, hsettled⟩
  · simpa using hcomplete
  · simpa using hpreceding
  · rw [List.map_append, List.map_singleton] at hk ⊢
    have hin : k < (y.calls.set i c').length := by
      rw [List.length_set]
      rcases List.mem_append.mp hk with hk | hk
      · exact h.lt_length hk
      · rw [List.mem_singleton.mp hk]
        exact hlt
    rcases hjk.of_concat hrun with hjk | ⟨-, hle⟩
    · rcases List.mem_append.mp hk with hk | hk
      · exact (h.realTime j k hjk hk).trans (List.sublist_append_left _ _)
      · -- a call that has returned has taken effect before
        rw [List.mem_singleton.mp hk]
        exact (List.singleton_sublist.mpr (h.preceding j k hjk)).append (.refl [i])
    · exact absurd hle (Nat.not_le.mpr hin)

theorem exists_settled {turns : List (Turn Op)} {y : Crowd C σ} (hempty : x.calls = [])
    (hinv : Inv x) (hrelated : R x.state a) (hrun : x.run start move turns = some y) :
    Inv y ∧ ∃ log, Settled start move spec operation answer settled R a x turns y log := by
  induction turns using List.reverseRecOn generalizing y with
  | nil =>
    obtain rfl : x = y := Option.some.inj hrun
    refine ⟨hinv, [], .nil, rfl, hrelated, by simp, ?_, ?_, by simp⟩
    · intro i hi
      simp [answerAt, hempty] at hi
    · rintro i j ⟨before, y, hbefore, hrun', hanswer, -⟩
      obtain rfl := List.prefix_nil.mp hbefore
      obtain rfl : x = y := Option.some.inj hrun'
      simp [answerAt, hempty] at hanswer
  | append_singleton turns t ih =>
    have hrun' := hrun
    rw [run_concat, Option.bind_eq_some_iff] at hrun'
    obtain ⟨z, hz, hstep⟩ := hrun'
    obtain ⟨hinv, log, hlog⟩ := ih hz
    have hlength := length_le_step hstep
    rcases step_cases hstep with ⟨op, rfl, rfl⟩ | ⟨i, c, c', s', rfl, hc, hmove, rfl⟩
    · refine ⟨hpoints.enter z op hinv, log, hlog.keep hpoints hrun hlength hlog.related ?_ ?_⟩
      · intro i c hc
        exact ⟨c, by rw [List.getElem?_append_left (List.getElem?_eq_some_iff.mp hc).1, hc], rfl,
          rfl⟩
      · intro i hi
        unfold answerAt at hi ⊢
        rcases Nat.lt_or_ge i z.calls.length with hlt | hge
        · rwa [List.getElem?_append_left hlt] at hi
        · rw [List.getElem?_append_right hge] at hi
          -- the call that enters has not taken effect
          cases hzero : i - z.calls.length with
          | zero => simp [hzero, hpoints.pending] at hi
          | succ n => simp [hzero] at hi
    · obtain ⟨hinv', hop, hsilent | ⟨hpending, hsettled, hrelated'⟩⟩ :=
        hpoints.advance z i c c' s' _ hinv hlog.related hc hmove
      · have hlt := (List.getElem?_eq_some_iff.mp hc).1
        refine ⟨hinv', log, hlog.keep hpoints hrun hlength hsilent.2 ?_ ?_⟩
        · intro j d hd
          by_cases hji : j = i
          · subst hji
            obtain rfl := Option.some.inj (hd.symm.trans hc)
            exact ⟨c', List.getElem?_set_self hlt, hop, hsilent.1⟩
          · exact ⟨d, (List.getElem?_set_ne (Ne.symm hji)).trans hd, rfl, rfl⟩
        · intro j hj
          unfold answerAt at hj ⊢
          by_cases hji : j = i
          · subst hji
            rw [List.getElem?_set_self hlt, Option.bind_some, hsilent.1] at hj
            rwa [hc, Option.bind_some]
          · rwa [List.getElem?_set_ne (Ne.symm hji)] at hj
      · exact ⟨hinv', _, hlog.settle hpoints hc hrun hop hpending hsettled hrelated'⟩

/-- **Calls that take effect in one of their steps are linearizable**. -/
theorem exists_linearization {turns : List (Turn Op)} {y : Crowd C σ} (hempty : x.calls = [])
    (hinv : Inv x) (hrelated : R x.state a) (hrun : x.run start move turns = some y) :
    ∃ log, Linearizes start move spec operation answer a x turns y log := by
  obtain ⟨-, log, hlog⟩ := exists_settled hpoints hempty hinv hrelated hrun
  refine ⟨log, hlog.nodup, hlog.legal, fun e he => ?_, fun i hi => ?_, hlog.realTime⟩
  · obtain ⟨c, hc, hop, hsettled⟩ := hlog.entered e he
    refine ⟨c, hc, hop, fun r hr => ?_⟩
    exact Option.some.inj ((hpoints.answered c r hr).symm.trans hsettled)
  · exact hlog.complete i (isSome_settled hpoints hi)

end Points

/-! ### Calls that all return -/

section Completes

/-- The turns that the calls there can still take come to an end, and they do not end before all
calls have returned. -/
def Completes (start : Op → C) (move : C → σ → Option (C × σ)) (answer : C → Option Res)
    (y : Crowd C σ) : Prop :=
  ∃ bound, ∀ (positions : List Nat) (z : Crowd C σ),
    y.run start move (positions.map .advance) = some z → positions.length ≤ bound ∧
      ((∀ c ∈ z.calls, (answer c).isSome) ∨ ∃ i, (z.step start move (.advance i)).isSome)

/-- A step can be taken where a call can move. -/
theorem isSome_advance {z : Crowd C σ} {c : C} (hc : c ∈ z.calls)
    (hmove : (move c z.state).isSome) : ∃ i, (z.step start move (.advance i)).isSome := by
  obtain ⟨i, hi⟩ := List.mem_iff_getElem?.mp hc
  exact ⟨i, by simpa [step, hi] using hmove⟩

/-- Calls whose steps count down, and one of which can move as long as one has not returned. -/
theorem completes_of_countdown {answer : C → Option Res} {Inv : Crowd C σ → Prop}
    {y : Crowd C σ} (remaining : C → Nat) (hy : Inv y)
    (hkeep : ∀ x i z, Inv x → x.step start move (.advance i) = some z → Inv z)
    (hless : ∀ c s c' s', move c s = some (c', s') → remaining c' < remaining c)
    (hfree : ∀ x, Inv x →
      (∀ c ∈ x.calls, (answer c).isSome) ∨ ∃ c ∈ x.calls, (move c x.state).isSome) :
    Completes start move answer y := by
  refine ⟨(y.calls.map remaining).sum, fun positions z hrun => ?_⟩
  have hrun' : Inv z ∧ positions.length + (z.calls.map remaining).sum ≤
      (y.calls.map remaining).sum := by
    induction positions using List.reverseRecOn generalizing z with
    | nil =>
      obtain rfl : y = z := Option.some.inj hrun
      exact ⟨hy, by simp⟩
    | append_singleton positions i ih =>
      rw [List.map_append, List.map_singleton, run_concat, Option.bind_eq_some_iff] at hrun
      obtain ⟨x, hx, hstep⟩ := hrun
      obtain ⟨hinv, hsum⟩ := ih x hx
      refine ⟨hkeep x i z hinv hstep, ?_⟩
      obtain ⟨op, hop, -⟩ | ⟨j, c, c', s', hj, hc, hmove, rfl⟩ := step_cases hstep
      · cases hop
      · have hset := sum_map_set_add remaining hc c'
        have hlt := hless c _ c' s' hmove
        rw [List.length_append, List.length_singleton]
        show _ + ((x.calls.set j c').map remaining).sum ≤ _
        omega
  refine ⟨by omega, (hfree z hrun'.1).imp_right ?_⟩
  rintro ⟨c, hc, hmove⟩
  exact isSome_advance hc hmove

end Completes

end Crowd

end Effect
