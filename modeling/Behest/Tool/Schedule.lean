import Behest.Tool.Parallel

/-!
# Batches as schedules

A batch whose concurrent calls complete in a given order is one of the ways in which the steps of
calls interleave: in the order given, each call of the concurrent group runs from its permit to its
end before the next one starts.
-/

namespace Behest.Parallel

open Effect ToolRuntime

variable {host : Host} {rt : ToolRuntime} {maxToolConcurrency : Nat}

variable (host rt maxToolConcurrency) in
/-- A batch that no other batch disturbs gets from one state to another one. -/
def Runs (b b' : Batch) : Prop :=
  LeadsTo (step host rt) (Permitted maxToolConcurrency) [b] [b']

theorem permitted_of_held {b : Batch} {turn : Turn} (h : b.held = 0) :
    Permitted maxToolConcurrency [b] turn := by
  intro _
  rw [taken, List.map_singleton, List.sum_singleton, h]
  exact Nat.lt_of_lt_of_le Nat.zero_lt_one (Nat.le_max_right ..)

theorem Runs.task {b b' : Batch} (position : Nat) (answer : ToolAnswer)
    (h : b.advanceTask host rt position answer = some b')
    (hpermit : b.taskAcquires position = true → b.held = 0) :
    Runs host rt maxToolConcurrency b b' :=
  .single ⟨.task 0 position answer, fun htakes => permitted_of_held (hpermit htakes) htakes,
    by simp [step, h]⟩

theorem Runs.advance {b b' : Batch} (answer : ToolAnswer)
    (h : b.advance host rt answer = some b') (hpermit : b.acquires = true → b.held = 0) :
    Runs host rt maxToolConcurrency b b' :=
  .single ⟨.advance 0 answer, fun htakes => permitted_of_held (hpermit htakes) htakes,
    by simp [step, h]⟩

/-- A step for which no permit is needed. -/
theorem Runs.settle {b b' : Batch} (h : b.advance host rt .elapsed = some b')
    (hpermit : b.acquires = false) : Runs host rt maxToolConcurrency b b' :=
  .advance .elapsed h fun hacquires => absurd hacquires (hpermit ▸ Bool.false_ne_true)

/-! ### What becomes of a call -/

/-- The attempt is one that the steps of its call lead to. -/
def Reached (host : Host) (rt : ToolRuntime) (a : Attempt) : Prop :=
  match a.reply with
  | .rejected e text => rejection host rt a.call = some (e, text)
  | .answered _ => rejection host rt a.call = none

/-- The attempt of the entry, as its steps lead to it. -/
def AttemptOf (host : Host) (rt : ToolRuntime) (entry : Indexed) (a : Attempt) : Prop :=
  (a.position, a.call) = entry ∧ Reached host rt a

theorem wp_attemptOf {E : Stop → World → Prop} [Tolerant E] (entry : Indexed) (w : World) :
    wp (rt.attempt host entry) (fun a _ => AttemptOf host rt entry a) E w := by
  simp only [ToolRuntime.attempt, wp_bind, wp_pure]
  unfold reach
  split
  · next htool => exact ⟨rfl, by simp [Reached, rejection, htool]⟩
  · next tool htool =>
    split
    · next message hmessage => exact ⟨rfl, by simp [Reached, rejection, htool, hmessage]⟩
    · next hmessage =>
      simp only [wp_bind, wp_get]
      apply wp_perform
      exact ⟨rfl, by simp [Reached, rejection, htool, hmessage]⟩

theorem AttemptOf.next {entry : Indexed} {a : Attempt} (h : AttemptOf host rt entry a) :
    Progress.next host rt entry.2 .elapsed .waiting = some (.done (rt.result a)) ∨
    Progress.next host rt entry.2 .elapsed .waiting = some .running ∧
      ∃ answer, Progress.next host rt entry.2 answer .running = some (.done (rt.result a)) := by
  obtain ⟨position, call, reply⟩ := a
  obtain ⟨rfl, hreached⟩ := h
  cases reply with
  | rejected e text =>
    left
    have hrejected : rejection host rt call = some (e, text) := hreached
    simp only [Progress.next, hrejected]
    rfl
  | answered answer =>
    right
    have haccepted : rejection host rt call = none := hreached
    exact ⟨by simp only [Progress.next, haccepted], answer, rfl⟩

section Joining

variable {calls : List ToolCall} {slots : List (Option ToolExecutionOutcome)}

/-- A waiting call of the concurrent group runs to its end. -/
theorem runs_task {tasks : List (Indexed × Progress)} {position : Nat} {entry : Indexed}
    {a : Attempt} (hidle : (Batch.mk calls slots (.joining tasks)).held = 0)
    (htask : tasks[position]? = some (entry, .waiting)) (ha : AttemptOf host rt entry a) :
    Runs host rt maxToolConcurrency ⟨calls, slots, .joining tasks⟩
      ⟨calls, slots, .joining (tasks.set position (entry, .done (rt.result a)))⟩ := by
  rcases ha.next with hdone | ⟨hrunning, answer, hdone⟩
  · refine .task position .elapsed ?_ fun _ => hidle
    simp [Batch.advanceTask, htask, hdone]
  · have hstart : Runs host rt maxToolConcurrency ⟨calls, slots, .joining tasks⟩
        ⟨calls, slots, .joining (tasks.set position (entry, .running))⟩ := by
      refine .task position .elapsed ?_ fun _ => hidle
      simp [Batch.advanceTask, htask, hrunning]
    obtain ⟨hlt, -⟩ := List.getElem?_eq_some_iff.mp htask
    have hset : (tasks.set position (entry, .running))[position]? = some (entry, .running) :=
      List.getElem?_set_self hlt
    refine hstart.trans (Runs.task position answer ?_ ?_)
    · simp [Batch.advanceTask, hlt, hdone]
    · intro hacquires
      simp [Batch.taskAcquires, hlt, Progress.isWaiting] at hacquires

variable (rt) in
/-- The concurrent group after some attempts. -/
def tasksOf (group : List Indexed) (attempts : List Attempt) : List (Indexed × Progress) :=
  group.map fun entry => (entry, match attempts.find? fun a => a.position == entry.1 with
    | some a => .done (rt.result a)
    | none => .waiting)

theorem held_tasksOf (group : List Indexed) (attempts : List Attempt) :
    (Batch.mk calls slots (.joining (tasksOf rt group attempts))).held = 0 := by
  refine List.sum_eq_zero fun k hk => ?_
  obtain ⟨task, htask, rfl⟩ := List.mem_map.mp hk
  obtain ⟨entry, _, rfl⟩ := List.mem_map.mp htask
  dsimp only
  split <;> rfl

theorem tasksOf_concat {group : List Indexed} {attempts : List Attempt} {a : Attempt}
    {entry : Indexed} {position : Nat} (hnodup : (group.map Prod.fst).Nodup)
    (hentry : group[position]? = some entry) (ha : a.position = entry.1)
    (hfresh : ∀ b ∈ attempts, b.position ≠ entry.1) :
    tasksOf rt group (attempts ++ [a]) =
      (tasksOf rt group attempts).set position (entry, .done (rt.result a)) := by
  apply List.ext_getElem?
  intro i
  rw [List.getElem?_set, tasksOf, tasksOf, List.getElem?_map, List.getElem?_map, List.length_map]
  split
  · next heq =>
    subst heq
    have hnone : attempts.find? (fun b => b.position == entry.1) = none :=
      List.find?_eq_none.mpr fun b hb => by simpa using hfresh b hb
    have hfound : (attempts ++ [a]).find? (fun b => b.position == entry.1) = some a := by
      rw [List.find?_append, hnone, Option.none_or]
      exact List.find?_cons_of_pos (beq_iff_eq.mpr ha)
    rw [if_pos (List.getElem?_eq_some_iff.mp hentry).1, hentry, Option.map_some, hfound]
  · next hne =>
    cases hother : group[i]? with
    | none => rfl
    | some other =>
      have hskip : a.position ≠ other.1 := by
        intro heq
        have hlt : position < (group.map Prod.fst).length := by
          rw [List.length_map]
          exact (List.getElem?_eq_some_iff.mp hentry).1
        refine hne ((List.getElem?_inj hlt hnodup).mp ?_)
        rw [List.getElem?_map, List.getElem?_map, hentry, hother, Option.map_some, Option.map_some,
          ← ha, heq]
      have hfind : (attempts ++ [a]).find? (fun b => b.position == other.1) =
          attempts.find? fun b => b.position == other.1 := by
        rw [List.find?_append, List.find?_singleton, if_neg (by simpa using hskip), Option.or_none]
      rw [Option.map_some, Option.map_some, hfind]

/-- The calls of the concurrent group run one after the other, in the order given. -/
theorem runs_attempts {group order : List Indexed} {done attempts : List Attempt}
    (hnodup : (group.map Prod.fst).Nodup) (hsub : order ⊆ group)
    (hfresh : (done.map Attempt.position ++ order.map Prod.fst).Nodup)
    (h : List.Forall₂ (AttemptOf host rt) order attempts) :
    Runs host rt maxToolConcurrency ⟨calls, slots, .joining (tasksOf rt group done)⟩
      ⟨calls, slots, .joining (tasksOf rt group (done ++ attempts))⟩ := by
  induction h generalizing done with
  | nil =>
    rw [List.append_nil]
    exact .refl
  | @cons entry a order attempts ha _ ih =>
    obtain ⟨position, hentry⟩ := List.mem_iff_getElem?.mp (hsub List.mem_cons_self)
    have hposition : a.position = entry.1 := congrArg Prod.fst ha.1
    have hnew : ∀ b ∈ done, b.position ≠ entry.1 := by
      intro b hb heq
      exact (List.nodup_append.mp hfresh).2.2 _ (List.mem_map_of_mem hb) _ List.mem_cons_self heq
    have htask : (tasksOf rt group done)[position]? = some (entry, .waiting) := by
      have hnone : done.find? (fun a => a.position == entry.1) = none :=
        List.find?_eq_none.mpr fun b hb => by simpa using hnew b hb
      rw [tasksOf, List.getElem?_map, hentry, Option.map_some, hnone]
    have hrun : Runs host rt maxToolConcurrency ⟨calls, slots, _⟩ ⟨calls, slots, _⟩ :=
      runs_task (held_tasksOf group done) htask ha
    rw [← tasksOf_concat hnodup hentry hposition hnew] at hrun
    have hfresh' : ((done ++ [a]).map Attempt.position ++ order.map Prod.fst).Nodup := by
      simpa [hposition] using hfresh
    have hrest := ih (fun e he => hsub (List.mem_cons_of_mem _ he)) hfresh'
    rw [List.append_assoc, List.singleton_append] at hrest
    exact hrun.trans hrest

end Joining

/-! ### What becomes of the results -/

/-- The slots with results at their positions. -/
def fill (slots : List (Option ToolExecutionOutcome))
    (results : List (Nat × ToolExecutionOutcome)) : List (Option ToolExecutionOutcome) :=
  results.foldl (fun slots r => slots.set r.1 (some r.2)) slots

variable (host rt maxToolConcurrency) in
/-- The batch ends with the error, or it stores results at the positions and gets further. -/
def Settles (b : Batch) (next : Stage) (positions : List Nat) :
    Except RuntimeError (List (Nat × ToolExecutionOutcome)) → Prop
  | .error e => ∃ slots, Runs host rt maxToolConcurrency b ⟨b.calls, slots, .ended (.error e)⟩
  | .ok results => results.map Prod.fst = positions ∧
      Runs host rt maxToolConcurrency b ⟨b.calls, fill b.slots results, next⟩

theorem Settles.cons {b : Batch} {stage next : Stage} {i : Nat} {positions : List Nat}
    {outcome : ToolExecutionOutcome}
    {others : Except RuntimeError (List (Nat × ToolExecutionOutcome))}
    (hrun : Runs host rt maxToolConcurrency b ⟨b.calls, b.slots.set i (some outcome), stage⟩)
    (h : Settles host rt maxToolConcurrency ⟨b.calls, b.slots.set i (some outcome), stage⟩ next
      positions others) :
    Settles host rt maxToolConcurrency b next (i :: positions)
      (others.map fun results => (i, outcome) :: results) := by
  cases others with
  | error e =>
    obtain ⟨slots, hrest⟩ := h
    exact ⟨slots, hrun.trans hrest⟩
  | ok results => exact ⟨congrArg (i :: ·) h.1, hrun.trans h.2⟩

theorem runs_store {b : Batch} {i : Nat} {outcome : ToolExecutionOutcome} {stage : Stage}
    (h : b.advance host rt .elapsed = some (b.store i outcome stage)) (hpermit : b.acquires = false)
    (hlt : i < b.slots.length) :
    Runs host rt maxToolConcurrency b ⟨b.calls, b.slots.set i (some outcome), stage⟩ := by
  rw [Batch.store, if_pos hlt] at h
  exact .settle h hpermit

section Results

variable {E : Stop → World → Prop} [Tolerant E] {sessionId messageId : Uuid}
  {calls : List ToolCall}

variable (rt) in
def settlement (a : Attempt) : Indexed × Except RuntimeError ToolExecutionOutcome :=
  ((a.position, a.call), rt.result a)

variable (maxToolConcurrency) (calls) in
/-- The results of the concurrent group are stored up to the first error. -/
theorem wp_settleAttempts_settles (attempts : List Attempt) (w : World) :
    wp (rt.settleAttempts host sessionId messageId attempts)
      (fun r _ => ∀ slots, (∀ a ∈ attempts, a.position < slots.length) →
        Settles host rt maxToolConcurrency ⟨calls, slots, .settling (attempts.map (settlement rt))⟩
          (.settling []) (attempts.map Attempt.position) r) E w := by
  induction attempts generalizing w with
  | nil => exact fun slots _ => ⟨rfl, .refl⟩
  | cons a rest ih =>
    unfold settleAttempts
    cases ha : rt.result a with
    | error e =>
      refine fun slots _ => ⟨slots, .settle ?_ rfl⟩
      simp [Batch.advance, settlement, ha]
    | ok outcome =>
      simp only [wp_bind, wp_pure]
      refine wp_recorded fun w₁ => wp_mono (ih w₁) ?_ fun _ _ he => he
      intro others _ hothers slots hlt
      refine .cons (runs_store ?_ rfl (hlt a List.mem_cons_self)) (hothers _ ?_)
      · simp [Batch.advance, settlement, ha]
      · intro b hb
        rw [List.length_set]
        exact hlt b (List.mem_cons_of_mem _ hb)

variable (maxToolConcurrency) (calls) in
/-- The other calls run one at a time up to the first error. -/
theorem wp_attemptExclusive_settles (group : List Indexed) (w : World) :
    wp (rt.attemptExclusive host sessionId messageId group)
      (fun x _ => ∀ slots, (∀ entry ∈ group, entry.1 < slots.length) →
        Settles host rt maxToolConcurrency ⟨calls, slots, .exclusive .waiting group⟩
          (.exclusive .waiting []) (group.map Prod.fst) x.2) E w := by
  induction group generalizing w with
  | nil => exact fun slots _ => ⟨rfl, .refl⟩
  | cons entry rest ih =>
    unfold attemptExclusive
    rw [wp_bind]
    apply wp_mono (wp_attemptOf entry w) _ fun _ _ he => he
    intro a w₁ hattempt
    have hposition : a.position = entry.1 := congrArg Prod.fst hattempt.1
    have hdone (slots : List (Option ToolExecutionOutcome)) : Runs host rt maxToolConcurrency
        ⟨calls, slots, .exclusive .waiting (entry :: rest)⟩
        ⟨calls, slots, .exclusive (.done (rt.result a)) (entry :: rest)⟩ := by
      rcases hattempt.next with hdone | ⟨hrunning, answer, hdone⟩
      · refine .advance .elapsed ?_ fun _ => rfl
        simp [Batch.advance, hdone]
      · have hstart : Runs host rt maxToolConcurrency
            ⟨calls, slots, .exclusive .waiting (entry :: rest)⟩
            ⟨calls, slots, .exclusive .running (entry :: rest)⟩ := by
          refine .advance .elapsed ?_ fun _ => rfl
          simp [Batch.advance, hrunning]
        refine hstart.trans (Runs.advance answer ?_ fun h => by cases h)
        simp [Batch.advance, hdone]
    cases ha : rt.result a with
    | error e =>
      refine fun slots _ => ⟨slots, (hdone slots).trans (Runs.settle ?_ rfl)⟩
      rw [ha]
      rfl
    | ok outcome =>
      simp only [wp_bind, wp_pure]
      refine wp_recorded fun w₂ => wp_mono (ih w₂) ?_ fun _ _ he => he
      intro others _ hothers slots hlt
      rw [hposition]
      refine .cons ((hdone slots).trans (runs_store ?_ rfl (hlt entry List.mem_cons_self)))
        (hothers _ ?_)
      · rw [ha]
        rfl
      · intro other hother
        rw [List.length_set]
        exact hlt other (List.mem_cons_of_mem _ hother)

/-! ### The whole batch -/

theorem joined_map (results : List (Indexed × Except RuntimeError ToolExecutionOutcome)) :
    joined (results.map fun r => (r.1, .done r.2)) = some results := by
  induction results with
  | nil => rfl
  | cons r rest ih => simp [joined, ih]

/-- The attempt stands for the entry among the attempts made. -/
def Stands (attempts : List Attempt) (entry : Indexed) (a : Attempt) : Prop :=
  attempts.find? (fun a => a.position == entry.1) = some a ∧ (a.position, a.call) = entry

theorem forall₂_arrange {group : List Indexed} {attempts : List Attempt}
    (h : ∀ entry ∈ group, ∃ a, Stands attempts entry a) :
    List.Forall₂ (Stands attempts) group (arrange group attempts) := by
  induction group with
  | nil => exact .nil
  | cons entry rest ih =>
    obtain ⟨a, hstands⟩ := h entry List.mem_cons_self
    rw [arrange, List.filterMap_cons, hstands.1]
    exact .cons hstands (ih fun other hother => h other (List.mem_cons_of_mem _ hother))

theorem tasksOf_arrange {group : List Indexed} {attempts : List Attempt}
    (h : ∀ entry ∈ group, ∃ a, Stands attempts entry a) :
    tasksOf rt group attempts =
      ((arrange group attempts).map (settlement rt)).map fun r => (r.1, .done r.2) := by
  have hall := forall₂_arrange h
  clear h
  rw [tasksOf]
  generalize arrange group attempts = arranged at hall
  induction hall with
  | nil => rfl
  | cons hstands _ ih => simp [ih, hstands.1, hstands.2, settlement]

theorem map_position_arrange {group : List Indexed} {attempts : List Attempt}
    (h : ∀ entry ∈ group, ∃ a, Stands attempts entry a) :
    (arrange group attempts).map Attempt.position = group.map Prod.fst := by
  refine map_position ((forall₂_arrange h).imp fun entry a hstands => ?_)
  exact ⟨congrArg Prod.fst hstands.2, congrArg Prod.snd hstands.2⟩

/-- Slots hold the results by position. -/
theorem getElem?_fill {slots : List (Option ToolExecutionOutcome)}
    {results : List (Nat × ToolExecutionOutcome)} (hnodup : (results.map Prod.fst).Nodup) {i : Nat}
    (hlt : i < slots.length) :
    (fill slots results)[i]? =
      ((results.find? fun r => r.1 == i).map fun r => some r.2).or slots[i]? := by
  induction results generalizing slots with
  | nil => rfl
  | cons r rest ih =>
    obtain ⟨hr, hrest⟩ := List.nodup_cons.mp hnodup
    have hlt' : i < (slots.set r.1 (some r.2)).length := by rwa [List.length_set]
    have hfill := ih hrest hlt'
    rw [fill, List.foldl_cons]
    refine hfill.trans ?_
    by_cases heq : r.1 = i
    · subst heq
      have hnone : rest.find? (fun other => other.1 == r.1) = none := by
        refine List.find?_eq_none.mpr fun other hother => ?_
        rw [beq_iff_eq]
        exact fun hposition => hr (hposition ▸ List.mem_map_of_mem hother)
      have hfound : (r :: rest).find? (fun other => other.1 == r.1) = some r :=
        List.find?_cons_of_pos (beq_self_eq_true _)
      rw [hnone, hfound, List.getElem?_set_self hlt]
      rfl
    · rw [List.find?_cons_of_neg (by simpa using heq), List.getElem?_set_ne heq]

theorem length_fill (slots : List (Option ToolExecutionOutcome))
    (results : List (Nat × ToolExecutionOutcome)) : (fill slots results).length = slots.length := by
  induction results generalizing slots with
  | nil => rfl
  | cons r rest ih => exact (ih _).trans List.length_set

theorem all_isSome_of_mapM {α β : Type} {f : α → Option β} {xs : List α} {ys : List β}
    (h : xs.mapM f = some ys) :
    (xs.map f).all Option.isSome = true ∧ (xs.map f).filterMap id = ys := by
  induction xs generalizing ys with
  | nil =>
    cases h
    exact ⟨rfl, rfl⟩
  | cons x rest ih =>
    rw [List.mapM_cons] at h
    obtain ⟨y, hy, h⟩ := Option.bind_eq_some_iff.mp h
    obtain ⟨ys', hrest, h⟩ := Option.bind_eq_some_iff.mp h
    obtain rfl : y :: ys' = ys := Option.some.inj h
    obtain ⟨hall, hvalues⟩ := ih hrest
    rw [List.map_cons, hy, List.all_cons, hall]
    exact ⟨rfl, congrArg (y :: ·) hvalues⟩

/-- Slots that hold every result are collected in the order of the calls. -/
theorem collect_fill {results : List (Nat × ToolExecutionOutcome)}
    {outcomes : List ToolExecutionOutcome} {stage : Stage}
    (hnodup : (results.map Prod.fst).Nodup) (h : inOrder calls.length results = some outcomes) :
    (Batch.mk calls (fill (List.replicate calls.length none) results) stage).collect =
      ⟨calls, fill (List.replicate calls.length none) results, .ended (.ok outcomes)⟩ := by
  have hslots : fill (List.replicate calls.length none) results =
      (List.range calls.length).map fun i => (results.find? fun r => r.1 == i).map Prod.snd := by
    apply List.ext_getElem?
    intro i
    rcases Nat.lt_or_ge i calls.length with hlt | hge
    · rw [getElem?_fill hnodup (by rwa [List.length_replicate]), List.getElem?_map,
        List.getElem?_range hlt, List.getElem?_replicate, if_pos hlt, Option.map_some]
      cases results.find? fun r => r.1 == i with
      | none => rfl
      | some r => rfl
    · rw [List.getElem?_eq_none (by rwa [length_fill, List.length_replicate]),
        List.getElem?_eq_none (by rwa [List.length_map, List.length_range])]
  obtain ⟨hall, hvalues⟩ := all_isSome_of_mapM h
  rw [← hslots] at hall hvalues
  rw [Batch.collect, if_pos hall, hvalues]

/-- Every call of the group has its attempt. -/
theorem exists_stands {order : List Indexed} {attempts : List Attempt}
    (horder : order.Perm (rt.concurrentGroup calls))
    (h : List.Forall₂ (AttemptOf host rt) order attempts) {entry : Indexed}
    (hentry : entry ∈ rt.concurrentGroup calls) : ∃ a, Stands attempts entry a := by
  obtain ⟨b, hb, hbentry⟩ := exists_right h (horder.mem_iff.mpr hentry)
  have hposition : b.position = entry.1 := congrArg Prod.fst hbentry.1
  cases hfind : attempts.find? fun a => a.position == entry.1 with
  | none => simpa [hposition] using List.find?_eq_none.mp hfind b hb
  | some a =>
    obtain ⟨other, hother, haother⟩ := exists_right h.flip (List.mem_of_find?_eq_some hfind)
    have hsame : other.1 = entry.1 := by
      rw [← haother.1]
      simpa using List.find?_some hfind
    -- a call is at one position only
    have hcall := mem_indexed.mp (List.mem_filter.mp hentry).1
    have hcall' := mem_indexed.mp (List.mem_filter.mp (horder.mem_iff.mp hother)).1
    rw [hsame] at hcall'
    have hentries : other = entry := Prod.ext hsame (Option.some.inj (hcall'.symm.trans hcall))
    exact ⟨a, hfind, haother.1.trans hentries⟩

variable (maxToolConcurrency) in
/-- The batch gets to the results of its concurrent group. -/
theorem leadsTo_settling {order : List Indexed} {attempts : List Attempt} (hcalls : calls ≠ [])
    (horder : order.Perm (rt.concurrentGroup calls))
    (h : List.Forall₂ (AttemptOf host rt) order attempts) :
    LeadsTo (step host rt) (Permitted maxToolConcurrency) []
      [⟨calls, List.replicate calls.length none,
        .settling ((arrange (rt.concurrentGroup calls) attempts).map (settlement rt))⟩] := by
  have hbegin : LeadsTo (step host rt) (Permitted maxToolConcurrency) []
      [⟨calls, List.replicate calls.length none,
        .joining (tasksOf rt (rt.concurrentGroup calls) [])⟩] := by
    refine .single ⟨.begin calls, ⟨fun htakes => absurd htakes Bool.false_ne_true, ?_⟩⟩
    rw [step, Batch.begin, if_neg (by simpa using hcalls)]
    rfl
  have hnodup : ((rt.concurrentGroup calls).map Prod.fst).Nodup := nodup_concurrentGroup calls
  have hrun : Runs host rt maxToolConcurrency
      ⟨calls, List.replicate calls.length none, .joining (tasksOf rt (rt.concurrentGroup calls) [])⟩
      ⟨calls, List.replicate calls.length none,
        .joining (tasksOf rt (rt.concurrentGroup calls) ([] ++ attempts))⟩ :=
    runs_attempts hnodup horder.subset ((horder.map Prod.fst).nodup_iff.mpr hnodup) h
  refine (hbegin.trans hrun).trans (Runs.settle ?_ rfl)
  rw [List.nil_append, tasksOf_arrange fun entry => exists_stands horder h]
  simp only [Batch.advance, joined_map, Option.map_some]

theorem nodup_groups (calls : List ToolCall) :
    ((rt.concurrentGroup calls).map Prod.fst ++ (rt.exclusiveGroup calls).map Prod.fst).Nodup := by
  have hperm := List.filter_append_perm (fun entry : Indexed => rt.isConcurrent entry.2)
    (calls.zipIdx.map Prod.swap)
  rw [← List.map_append]
  refine ((hperm.map Prod.fst).nodup_iff).mpr ?_
  rw [List.Nodup, List.pairwise_map]
  exact (pairwise_indexed calls).imp Nat.ne_of_lt

variable (maxToolConcurrency) in
/-- **A batch whose concurrent calls complete in any order is one that its calls' steps lead to**,
with the same outcomes or the same error. -/
theorem wp_auditBatch_leadsTo (hE : ∀ w, E .panicked w) {order : List Indexed}
    (horder : order.Perm (rt.concurrentGroup calls)) (w : World) :
    wp (rt.auditBatch host order calls sessionId messageId)
      (fun x _ => ∃ slots, LeadsTo (step host rt) (Permitted maxToolConcurrency) []
        [⟨calls, slots, .ended x.2⟩]) E w := by
  by_cases hcalls : calls = []
  · subst hcalls
    obtain rfl : order = [] := horder.eq_nil
    exact ⟨[], .single ⟨.begin [], ⟨fun htakes => absurd htakes Bool.false_ne_true, rfl⟩⟩⟩
  unfold auditBatch
  rw [wp_bind]
  apply wp_mono (wp_mapM_forall₂ (fun entry w => wp_attemptOf entry w) order w) _ fun _ _ he => he
  intro concurrent w₁ hconcurrent
  have hpositions := map_position_arrange fun _ => exists_stands horder hconcurrent
  have hbound : ∀ entry ∈ calls.zipIdx.map Prod.swap, entry.1 < calls.length := fun entry hentry =>
    (List.getElem?_eq_some_iff.mp (mem_indexed.mp hentry)).1
  rw [wp_bind]
  apply wp_mono (wp_settleAttempts_settles maxToolConcurrency calls _ w₁) _ fun _ _ he => he
  intro r w₂ hsettles
  have hsettles := hsettles (List.replicate calls.length none) <| by
    intro a ha
    have hposition : a.position ∈ (rt.concurrentGroup calls).map Prod.fst :=
      hpositions ▸ List.mem_map_of_mem ha
    obtain ⟨entry, hentry, heq⟩ := List.mem_map.mp hposition
    rw [List.length_replicate, ← heq]
    exact hbound entry (List.mem_filter.mp hentry).1
  have hstart := leadsTo_settling maxToolConcurrency hcalls horder hconcurrent
  cases r with
  | error e =>
    obtain ⟨slots, hrun⟩ := hsettles
    exact ⟨slots, hstart.trans hrun⟩
  | ok settled =>
    obtain ⟨hsettled, hrun⟩ := hsettles
    have hexclusive := (hstart.trans hrun).trans (Runs.settle rfl rfl)
    simp only [wp_bind]
    apply wp_mono (wp_attemptExclusive_settles maxToolConcurrency calls _ w₂) _ fun _ _ he => he
    intro exclusive w₃ hothers
    have hothers := hothers (fill (List.replicate calls.length none) settled) <| by
      intro entry hentry
      rw [length_fill, List.length_replicate]
      exact hbound entry (List.mem_filter.mp hentry).1
    obtain ⟨attempts, r⟩ := exclusive
    cases r with
    | error e =>
      obtain ⟨slots, hrun⟩ := hothers
      exact ⟨slots, hexclusive.trans hrun⟩
    | ok others =>
      obtain ⟨hother, hrun⟩ := hothers
      have hnodup : ((settled ++ others).map Prod.fst).Nodup := by
        rw [List.map_append, hsettled, hother, hpositions]
        exact nodup_groups calls
      dsimp only
      cases hread : inOrder calls.length (settled ++ others) with
      | none => exact hE w₃
      | some outcomes =>
        refine ⟨fill (List.replicate calls.length none) (settled ++ others),
          (hexclusive.trans hrun).trans (Runs.settle ?_ rfl)⟩
        have hfill : fill (fill (List.replicate calls.length none) settled) others =
            fill (List.replicate calls.length none) (settled ++ others) :=
          (List.foldl_append ..).symm
        rw [Batch.advance, hfill, collect_fill hnodup hread]

/-- **What a batch of the runtime returns, outcomes or an error, its calls' steps lead to**. -/
theorem wp_executeBatch_leadsTo (maxToolConcurrency : Nat) (calls : List ToolCall) (w : World) :
    wp (rt.executeBatch host calls sessionId messageId)
      (fun outcomes _ => ∃ slots, LeadsTo (step host rt) (Permitted maxToolConcurrency) []
        [⟨calls, slots, .ended (.ok outcomes)⟩])
      (Fails fun e _ => ∃ slots, LeadsTo (step host rt) (Permitted maxToolConcurrency) []
        [⟨calls, slots, .ended (.error e)⟩]) w := by
  rw [executeBatch_eq, wp_bind]
  refine wp_mono (wp_auditBatch_leadsTo maxToolConcurrency (fun _ => trivial) (.refl _) w) ?_
    fun _ _ he => he
  rintro ⟨attempts, r⟩ w₁ hrun
  cases r with
  | ok outcomes => exact hrun
  | error e => exact hrun

end Results

end Behest.Parallel
