import Mathlib.Algebra.Order.BigOperators.Group.List
import Mathlib.Algebra.Order.Group.Nat
import Behest.Effect.Crowd
import Behest.Tool.Audit

/-!
# Calls beside each other

The batches that share the semaphore of a tool runtime
(`behest-runtime/src/tool_runtime.rs:115–211`), step by step. The calls of a concurrent group take
their steps in any order and are joined, their results are stored at the positions of their calls,
and the other calls follow one at a time. A tool gives any answer, and a batch may be dropped.
-/

namespace Behest.Parallel

open Effect ToolRuntime

/-- How far a call is: its tool is executed while it is `running`. -/
inductive Progress where
  | waiting
  | running
  | done (result : Except RuntimeError ToolExecutionOutcome)

/-- How far a batch is. -/
inductive Stage where
  | joining (tasks : List (Indexed × Progress))
  | settling (results : List (Indexed × Except RuntimeError ToolExecutionOutcome))
  | exclusive (progress : Progress) (group : List Indexed)
  | ended (result : Except RuntimeError (List ToolExecutionOutcome))
  | panicked

/-- A batch with a slot for the outcome of each call. -/
structure Batch where
  calls : List ToolCall
  slots : List (Option ToolExecutionOutcome)
  stage : Stage

/-! ### Permits -/

namespace Progress

/-- A call of the concurrent group holds its permit while its tool is executed. -/
def held : Progress → Nat
  | running => 1
  | waiting | done _ => 0

/-- An exclusive call holds it until its outcome is stored. -/
def heldAlone : Progress → Nat
  | waiting => 0
  | running | done _ => 1

def isWaiting : Progress → Bool
  | waiting => true
  | running | done _ => false

def isRunning : Progress → Bool
  | running => true
  | waiting | done _ => false

end Progress

namespace Batch

/-- The permits that the batch holds. -/
def held (b : Batch) : Nat :=
  match b.stage with
  | .joining tasks => (tasks.map fun task => task.2.held).sum
  | .exclusive progress (_ :: _) => progress.heldAlone
  | _ => 0

/-- The calls whose tools are executed. -/
def running (b : Batch) : List Indexed :=
  match b.stage with
  | .joining tasks => (tasks.filter fun task => task.2.isRunning).map Prod.fst
  | .exclusive .running (entry :: _) => [entry]
  | _ => []

end Batch

/-! ### Steps -/

variable (host : Host) (rt : ToolRuntime)

/-- Why a call does not reach its tool. Source: `tool_runtime.rs:220–264`. -/
def rejection (call : ToolCall) : Option (ToolError × String) :=
  match rt.registry.get call.name with
  | none => some (.notFound call.name, "tool not found: " ++ call.name)
  | some tool =>
      (validateArguments host tool.spec.parametersSchema call.arguments).map fun message =>
        (.invalidArguments call.name message, message)

/-- The next step of a call, whose tool gives the answer. -/
def Progress.next (call : ToolCall) (answer : ToolAnswer) : Progress → Option Progress
  | waiting =>
      match rejection host rt call with
      | some (e, text) => some (.done (rt.resultOf call (.rejected e text)))
      | none => some .running
  | running => some (.done (rt.resultOf call (.answered answer)))
  | done _ => none

/-- The results of a group whose calls are all done. -/
def joined : List (Indexed × Progress) →
    Option (List (Indexed × Except RuntimeError ToolExecutionOutcome))
  | [] => some []
  | (entry, .done result) :: tasks => (joined tasks).map ((entry, result) :: ·)
  | _ :: _ => none

namespace Batch

/-- Source: `tool_runtime.rs:122–141`. -/
def begin (calls : List ToolCall) : Batch :=
  if calls.isEmpty then ⟨calls, [], .ended (.ok [])⟩
  else ⟨calls, List.replicate calls.length none,
    .joining ((rt.concurrentGroup calls).map fun entry => (entry, .waiting))⟩

/-- The outcome in its slot; there is no slot out of bounds. -/
def store (b : Batch) (i : Nat) (outcome : ToolExecutionOutcome) (stage : Stage) : Batch :=
  if i < b.slots.length then ⟨b.calls, b.slots.set i (some outcome), stage⟩
  else { b with stage := .panicked }

/-- Every slot is taken to be filled. Source: `tool_runtime.rs:207–210`. -/
def collect (b : Batch) : Batch :=
  if b.slots.all Option.isSome then { b with stage := .ended (.ok (b.slots.filterMap id)) }
  else { b with stage := .panicked }

/-- The next step of a call of the concurrent group. Source: `tool_runtime.rs:143–166`. -/
def advanceTask (position : Nat) (answer : ToolAnswer) (b : Batch) : Option Batch :=
  match b.stage with
  | .joining tasks =>
      match tasks[position]? with
      | some (entry, progress) =>
          (progress.next host rt entry.2 answer).map fun progress' =>
            { b with stage := .joining (tasks.set position (entry, progress')) }
      | none => none
  | _ => none

/-- The next step of the batch itself. Source: `tool_runtime.rs:169–210`. -/
def advance (answer : ToolAnswer) (b : Batch) : Option Batch :=
  match b.stage with
  | .joining tasks =>
      (joined tasks).map fun results => { b with stage := .settling results }
  | .settling [] => some { b with stage := .exclusive .waiting (rt.exclusiveGroup b.calls) }
  | .settling ((entry, .ok outcome) :: results) =>
      some (b.store entry.1 outcome (.settling results))
  | .settling ((_, .error e) :: _) => some { b with stage := .ended (.error e) }
  | .exclusive _ [] => some b.collect
  | .exclusive (.done (.ok outcome)) (entry :: group) =>
      some (b.store entry.1 outcome (.exclusive .waiting group))
  | .exclusive (.done (.error e)) (_ :: _) => some { b with stage := .ended (.error e) }
  | .exclusive progress (entry :: group) =>
      (progress.next host rt entry.2 answer).map fun progress' =>
        { b with stage := .exclusive progress' (entry :: group) }
  | .ended _ | .panicked => none

/-- The next step of the call takes a permit. -/
def taskAcquires (position : Nat) (b : Batch) : Bool :=
  match b.stage with
  | .joining tasks => tasks[position]?.any fun task => task.2.isWaiting
  | _ => false

def acquires (b : Batch) : Bool :=
  match b.stage with
  | .exclusive progress (_ :: _) => progress.isWaiting
  | _ => false

end Batch

/-- A batch begins, one of its calls or the batch takes a step, or it is dropped. -/
inductive Turn where
  | begin (calls : List ToolCall)
  | task (i position : Nat) (answer : ToolAnswer)
  | advance (i : Nat) (answer : ToolAnswer)
  | drop (i : Nat)

def step (batches : List Batch) : Turn → Option (List Batch)
  | .begin calls => some (batches ++ [.begin rt calls])
  | .task i position answer =>
      (batches[i]?.bind (Batch.advanceTask host rt position answer)).map (batches.set i)
  | .advance i answer => (batches[i]?.bind (Batch.advance host rt answer)).map (batches.set i)
  | .drop i => some (batches.eraseIdx i)

/-- The turn takes a permit of the semaphore. -/
def takesPermit (batches : List Batch) : Turn → Bool
  | .task i position _ => batches[i]?.any (Batch.taskAcquires position)
  | .advance i _ => batches[i]?.any Batch.acquires
  | .begin _ | .drop _ => false

/-- The permits that are taken. -/
def taken (batches : List Batch) : Nat := (batches.map Batch.held).sum

/-- The permits of the semaphore. Source: `tool_runtime.rs:54–55`. -/
def permits (maxToolConcurrency : Nat) : Nat := max maxToolConcurrency 1

/-- A permit is taken only when one is left. -/
def Permitted (maxToolConcurrency : Nat) (batches : List Batch) (turn : Turn) : Prop :=
  takesPermit batches turn = true → taken batches < permits maxToolConcurrency

instance (maxToolConcurrency : Nat) (batches : List Batch) (turn : Turn) :
    Decidable (Permitted maxToolConcurrency batches turn) :=
  inferInstanceAs (Decidable (_ → _))

/-! ### Permits taken -/

section Permits

variable {host rt}

theorem held_next {call : ToolCall} {answer : ToolAnswer} {progress progress' : Progress}
    (h : progress.next host rt call answer = some progress') :
    progress'.held ≤ progress.held + progress.isWaiting.toNat ∧
      progress'.heldAlone ≤ progress.heldAlone + progress.isWaiting.toNat := by
  cases progress with
  | waiting =>
    simp only [Progress.next] at h
    split at h
    · cases h
      exact ⟨Nat.zero_le _, Nat.le_refl _⟩
    · cases h
      exact ⟨Nat.le_refl _, Nat.le_refl _⟩
  | running =>
    cases h
    exact ⟨Nat.zero_le _, Nat.le_refl _⟩
  | done result => cases h

theorem held_exclusive_waiting (calls : List ToolCall)
    (slots : List (Option ToolExecutionOutcome)) (group : List Indexed) :
    (Batch.mk calls slots (.exclusive .waiting group)).held = 0 := by
  cases group <;> rfl

theorem held_store (b : Batch) (i : Nat) (outcome : ToolExecutionOutcome) {stage : Stage}
    (h : (Batch.mk b.calls (b.slots.set i (some outcome)) stage).held = 0) :
    (b.store i outcome stage).held = 0 := by
  unfold Batch.store
  split
  · exact h
  · rfl

theorem held_collect (b : Batch) : b.collect.held = 0 := by
  unfold Batch.collect
  split <;> rfl

theorem held_begin (calls : List ToolCall) : (Batch.begin rt calls).held = 0 := by
  unfold Batch.begin
  split
  · rfl
  · simp only [Batch.held, List.map_map, Function.comp_def, Progress.held]
    simp

theorem held_advanceTask {position : Nat} {answer : ToolAnswer} {b b' : Batch}
    (h : b.advanceTask host rt position answer = some b') :
    b'.held ≤ b.held + (b.taskAcquires position).toNat := by
  obtain ⟨calls, slots, stage⟩ := b
  cases stage with
  | joining tasks =>
    simp only [Batch.advanceTask] at h
    cases htask : tasks[position]? with
    | none => simp [htask] at h
    | some task =>
      obtain ⟨entry, progress⟩ := task
      rw [htask] at h
      obtain ⟨progress', hnext, rfl⟩ := Option.map_eq_some_iff.mp h
      have hsum := sum_map_set_add (fun task : Indexed × Progress => task.2.held) htask
        (entry, progress')
      have hle := (held_next hnext).1
      simp only [Batch.held, Batch.taskAcquires, htask, Option.any_some] at hsum hle ⊢
      omega
  | settling _ | exclusive _ _ | ended _ | panicked => cases h

theorem held_advance {answer : ToolAnswer} {b b' : Batch}
    (h : b.advance host rt answer = some b') : b'.held ≤ b.held + b.acquires.toNat := by
  obtain ⟨calls, slots, stage⟩ := b
  cases stage with
  | joining tasks =>
    obtain ⟨results, _, rfl⟩ := Option.map_eq_some_iff.mp h
    exact Nat.zero_le _
  | settling results =>
    match results with
    | [] =>
      cases h
      rw [held_exclusive_waiting]
      exact Nat.zero_le _
    | (entry, .ok outcome) :: results =>
      cases h
      rw [held_store _ _ _ rfl]
      exact Nat.zero_le _
    | (_, .error e) :: _ =>
      cases h
      exact Nat.zero_le _
  | exclusive progress group =>
    cases group with
    | nil =>
      cases h
      rw [held_collect]
      exact Nat.zero_le _
    | cons entry group =>
      cases progress with
      | waiting =>
        obtain ⟨progress', hnext, rfl⟩ := Option.map_eq_some_iff.mp h
        exact (held_next hnext).2
      | running =>
        cases h
        exact Nat.le_refl _
      | done result =>
        cases result with
        | ok outcome =>
          cases h
          rw [held_store _ _ _ (held_exclusive_waiting ..)]
          exact Nat.zero_le _
        | error e =>
          cases h
          exact Nat.zero_le _
  | ended _ => cases h
  | panicked => cases h

/-- Permits are only taken where they are left. -/
theorem taken_step {maxToolConcurrency : Nat} {batches batches' : List Batch} {turn : Turn}
    (h : taken batches ≤ permits maxToolConcurrency)
    (hpermitted : Permitted maxToolConcurrency batches turn)
    (hstep : step host rt batches turn = some batches') :
    taken batches' ≤ permits maxToolConcurrency := by
  -- a batch that steps to another one holds one more permit at most, if the step takes one
  have hset {i : Nat} {b b' : Batch} (hb : batches[i]? = some b)
      (hle : b'.held ≤ b.held + (takesPermit batches turn).toNat) :
      taken (batches.set i b') ≤ permits maxToolConcurrency := by
    have hsum := sum_map_set_add Batch.held hb b'
    unfold taken at h ⊢
    cases htakes : takesPermit batches turn with
    | false =>
      rw [htakes, Bool.toNat_false] at hle
      omega
    | true =>
      have hfree := hpermitted htakes
      rw [htakes, Bool.toNat_true] at hle
      unfold taken at hfree
      omega
  cases turn with
  | begin calls =>
    cases hstep
    simpa [taken, held_begin] using h
  | task i position answer =>
    obtain ⟨b', hb', rfl⟩ := Option.map_eq_some_iff.mp hstep
    obtain ⟨b, hb, hadvance⟩ := Option.bind_eq_some_iff.mp hb'
    exact hset hb (by simpa [takesPermit, hb] using held_advanceTask hadvance)
  | advance i answer =>
    obtain ⟨b', hb', rfl⟩ := Option.map_eq_some_iff.mp hstep
    obtain ⟨b, hb, hadvance⟩ := Option.bind_eq_some_iff.mp hb'
    exact hset hb (by simpa [takesPermit, hb] using held_advance hadvance)
  | drop i =>
    cases hstep
    have hsublist := (List.eraseIdx_sublist batches i).map Batch.held
    exact (hsublist.sum_le_sum fun _ _ => Nat.zero_le _).trans h

theorem length_running_le (b : Batch) : b.running.length ≤ b.held := by
  obtain ⟨calls, slots, stage⟩ := b
  cases stage with
  | joining tasks =>
    simp only [Batch.running, Batch.held, List.length_map]
    induction tasks with
    | nil => exact Nat.le_refl _
    | cons task rest ih =>
      obtain ⟨entry, progress⟩ := task
      simp only [List.map_cons, List.sum_cons]
      cases progress with
      | running =>
        rw [List.filter_cons_of_pos rfl, List.length_cons, Progress.held]
        omega
      | waiting | done _ =>
        rw [List.filter_cons_of_neg Bool.false_ne_true]
        exact ih.trans (Nat.le_add_left ..)
  | exclusive progress group =>
    cases group with
    | nil => cases progress <;> exact Nat.le_refl _
    | cons entry group =>
      cases progress with
      | waiting | running => exact Nat.le_refl _
      | done _ => exact Nat.zero_le _
  | settling _ | ended _ | panicked => exact Nat.le_refl _

theorem length_running_le_taken (batches : List Batch) :
    (batches.flatMap Batch.running).length ≤ taken batches := by
  rw [List.length_flatMap]
  exact List.sum_le_sum fun b _ => length_running_le b

end Permits

/-! ### Outcomes and their slots -/

/-- The slots of a batch with calls whose outcomes are pending. -/
structure Slots (calls : List ToolCall) (slots : List (Option ToolExecutionOutcome))
    (pending : List Indexed) : Prop where
  length_eq : slots.length = calls.length
  own : ∀ entry ∈ pending, calls[entry.1]? = some entry.2
  filled : ∀ (i : Nat) (outcome : ToolExecutionOutcome), slots[i]? = some (some outcome) →
    ∃ call, calls[i]? = some call ∧ Answers call outcome
  empty : ∀ i : Nat, slots[i]? = some none → ∃ entry ∈ pending, entry.1 = i

/-- The invariant of a batch. -/
def Batch.Valid (b : Batch) : Prop :=
  match b.stage with
  | .joining tasks =>
      Slots b.calls b.slots (tasks.map Prod.fst ++ rt.exclusiveGroup b.calls) ∧
        ∀ task ∈ tasks, rt.isConcurrent task.1.2 = true ∧
          ∀ outcome, task.2 = .done (.ok outcome) → Answers task.1.2 outcome
  | .settling results =>
      Slots b.calls b.slots (results.map Prod.fst ++ rt.exclusiveGroup b.calls) ∧
        ∀ result ∈ results, ∀ outcome, result.2 = .ok outcome → Answers result.1.2 outcome
  | .exclusive progress group =>
      Slots b.calls b.slots group ∧
        ∀ entry ∈ group.head?, ∀ outcome, progress = .done (.ok outcome) → Answers entry.2 outcome
  | .ended result => ∀ outcomes, result = .ok outcomes → List.Forall₂ Answers b.calls outcomes
  | .panicked => False

section Valid

variable {host rt}

theorem answers_resultOf {call : ToolCall} {reply : Reply} {outcome : ToolExecutionOutcome}
    (h : rt.resultOf call reply = .ok outcome) : Answers call outcome := by
  cases reply with
  | rejected e text => exact answers_failedOutcome h
  | answered answer => exact answers_outcomeOf h

theorem answers_next {call : ToolCall} {answer : ToolAnswer} {progress : Progress}
    {outcome : ToolExecutionOutcome}
    (h : progress.next host rt call answer = some (.done (.ok outcome))) :
    Answers call outcome := by
  cases progress with
  | waiting =>
    simp only [Progress.next] at h
    split at h
    · simp only [Option.some.injEq, Progress.done.injEq] at h
      exact answers_resultOf h
    · cases h
  | running =>
    simp only [Progress.next, Option.some.injEq, Progress.done.injEq] at h
    exact answers_resultOf h
  | done result => cases h

namespace Slots

variable {calls : List ToolCall} {slots : List (Option ToolExecutionOutcome)}
  {entry : Indexed} {pending : List Indexed} {outcome : ToolExecutionOutcome}

theorem lt_length (h : Slots calls slots (entry :: pending)) : entry.1 < slots.length := by
  rw [h.length_eq]
  exact (List.getElem?_eq_some_iff.mp (h.own entry List.mem_cons_self)).1

theorem store (h : Slots calls slots (entry :: pending)) (hanswers : Answers entry.2 outcome) :
    Slots calls (slots.set entry.1 (some outcome)) pending where
  length_eq := by rw [List.length_set, h.length_eq]
  own other hother := h.own other (List.mem_cons_of_mem _ hother)
  filled i other hi := by
    by_cases heq : entry.1 = i
    · rw [← heq, List.getElem?_set_self h.lt_length, Option.some.injEq, Option.some.injEq] at hi
      exact ⟨entry.2, heq ▸ h.own entry List.mem_cons_self, hi ▸ hanswers⟩
    · rw [List.getElem?_set_ne heq] at hi
      exact h.filled i other hi
  empty i hi := by
    by_cases heq : entry.1 = i
    · rw [← heq, List.getElem?_set_self h.lt_length] at hi
      cases hi
    · rw [List.getElem?_set_ne heq] at hi
      obtain ⟨other, hother, rfl⟩ := h.empty i hi
      rcases List.mem_cons.mp hother with rfl | hother
      · exact absurd rfl heq
      · exact ⟨other, hother, rfl⟩

/-- Slots that are filled in order hold the outcomes. -/
theorem collect (h : Slots calls slots []) :
    slots.all Option.isSome = true ∧ List.Forall₂ Answers calls (slots.filterMap id) := by
  have hfilled : List.Forall₂ (fun call slot => ∃ outcome, slot = some outcome ∧
      Answers call outcome) calls slots := by
    rw [List.forall₂_iff_get]
    refine ⟨h.length_eq.symm, fun i hi hi' => ?_⟩
    have hslot : slots[i]? = some (slots.get ⟨i, hi'⟩) := List.getElem?_eq_getElem hi'
    cases hget : slots.get ⟨i, hi'⟩ with
    | none =>
      rw [hget] at hslot
      obtain ⟨entry, hentry, _⟩ := h.empty i hslot
      cases hentry
    | some outcome =>
      rw [hget] at hslot
      obtain ⟨call, hcall, hanswers⟩ := h.filled i outcome hslot
      obtain ⟨_, rfl⟩ := List.getElem?_eq_some_iff.mp hcall
      exact ⟨outcome, rfl, hanswers⟩
  clear h
  induction hfilled with
  | nil => exact ⟨rfl, .nil⟩
  | cons hslot _ ih =>
    obtain ⟨outcome, rfl, hanswers⟩ := hslot
    exact ⟨ih.1, .cons hanswers ih.2⟩

end Slots

theorem slots_begin (calls : List ToolCall) :
    Slots calls (List.replicate calls.length none)
      (rt.concurrentGroup calls ++ rt.exclusiveGroup calls) where
  length_eq := List.length_replicate
  own entry hentry := by
    refine mem_indexed.mp ?_
    rcases List.mem_append.mp hentry with hentry | hentry
    · exact (List.mem_filter.mp hentry).1
    · exact (List.mem_filter.mp hentry).1
  filled i outcome hi := by
    have hmem := List.mem_of_getElem? hi
    rw [List.mem_replicate] at hmem
    cases hmem.2
  empty i hi := by
    obtain ⟨hlt, _⟩ := List.getElem?_eq_some_iff.mp hi
    rw [List.length_replicate] at hlt
    have hentry : (i, calls.get ⟨i, hlt⟩) ∈ calls.zipIdx.map Prod.swap :=
      mem_indexed.mpr (List.getElem?_eq_getElem hlt)
    refine ⟨(i, calls.get ⟨i, hlt⟩), ?_, rfl⟩
    rw [concurrentGroup, exclusiveGroup, List.mem_append, List.mem_filter, List.mem_filter]
    cases rt.isConcurrent (calls.get ⟨i, hlt⟩) with
    | true => exact .inl ⟨hentry, rfl⟩
    | false => exact .inr ⟨hentry, rfl⟩

namespace Batch

theorem valid_begin (calls : List ToolCall) : (begin rt calls).Valid rt := by
  unfold begin
  split
  · next h =>
    intro outcomes heq
    cases heq
    rw [List.isEmpty_iff.mp h]
    exact .nil
  · refine ⟨?_, ?_⟩
    · rw [List.map_map]
      simpa [Function.comp_def] using slots_begin calls
    · intro task htask
      obtain ⟨entry, hentry, rfl⟩ := List.mem_map.mp htask
      exact ⟨(List.mem_filter.mp hentry).2, fun _ h => by cases h⟩

theorem valid_store {calls : List ToolCall} {slots : List (Option ToolExecutionOutcome)}
    {entry : Indexed} {pending : List Indexed} {outcome : ToolExecutionOutcome}
      {before next : Stage}
    (h : Slots calls slots (entry :: pending)) (hanswers : Answers entry.2 outcome)
    (hnext : ∀ slots', Slots calls slots' pending → (Batch.mk calls slots' next).Valid rt) :
    ((Batch.mk calls slots before).store entry.1 outcome next).Valid rt := by
  rw [store, if_pos h.lt_length]
  exact hnext _ (h.store hanswers)

theorem valid_advanceTask {position : Nat} {answer : ToolAnswer} {b b' : Batch} (h : b.Valid rt)
    (hadvance : b.advanceTask host rt position answer = some b') : b'.Valid rt := by
  obtain ⟨calls, slots, stage⟩ := b
  cases stage with
  | joining tasks =>
    obtain ⟨hslots, htasks⟩ := h
    simp only [advanceTask] at hadvance
    split at hadvance
    · next entry progress htask =>
      obtain ⟨progress', hnext, rfl⟩ := Option.map_eq_some_iff.mp hadvance
      have hconcurrent := (htasks _ (List.mem_of_getElem? htask)).1
      refine ⟨?_, ?_⟩
      · have hsame : (tasks.set position (entry, progress')).map Prod.fst = tasks.map Prod.fst := by
          obtain ⟨hlt, hget⟩ := List.getElem?_eq_some_iff.mp htask
          have hentry : (tasks.map Prod.fst)[position]? = some entry := by
            rw [List.getElem?_map, htask]
            rfl
          obtain ⟨hlt, hget⟩ := List.getElem?_eq_some_iff.mp hentry
          rw [List.map_set]
          exact hget ▸ List.set_getElem_self hlt
        rw [hsame]
        exact hslots
      · intro task hmem
        rcases List.mem_or_eq_of_mem_set hmem with hmem | rfl
        · exact htasks task hmem
        · refine ⟨hconcurrent, fun outcome heq => ?_⟩
          obtain rfl : progress' = .done (.ok outcome) := heq
          exact answers_next hnext
    · cases hadvance
  | settling _ | exclusive _ _ | ended _ | panicked => cases hadvance

theorem eq_of_joined {tasks : List (Indexed × Progress)}
    {results : List (Indexed × Except RuntimeError ToolExecutionOutcome)}
    (h : joined tasks = some results) : tasks = results.map fun r => (r.1, .done r.2) := by
  induction tasks generalizing results with
  | nil =>
    cases h
    rfl
  | cons task rest ih =>
    obtain ⟨entry, progress⟩ := task
    cases progress with
    | waiting | running => cases h
    | done result =>
      obtain ⟨results', hrest, rfl⟩ := Option.map_eq_some_iff.mp h
      rw [List.map_cons, ← ih hrest]

theorem valid_exclusive {calls : List ToolCall} {slots : List (Option ToolExecutionOutcome)}
    {group : List Indexed} (h : Slots calls slots group) :
    (Batch.mk calls slots (.exclusive .waiting group)).Valid rt :=
  ⟨h, fun _ _ _ heq => by cases heq⟩

theorem valid_advance {answer : ToolAnswer} {b b' : Batch} (h : b.Valid rt)
    (hadvance : b.advance host rt answer = some b') : b'.Valid rt := by
  obtain ⟨calls, slots, stage⟩ := b
  cases stage with
  | joining tasks =>
    obtain ⟨hslots, htasks⟩ := h
    obtain ⟨results, hjoined, rfl⟩ := Option.map_eq_some_iff.mp hadvance
    rw [eq_of_joined hjoined] at hslots htasks
    refine ⟨by simpa [Function.comp_def] using hslots, fun result hresult outcome heq => ?_⟩
    exact (htasks _ (List.mem_map_of_mem hresult)).2 outcome (heq ▸ rfl)
  | settling results =>
    obtain ⟨hslots, hresults⟩ := h
    match results with
    | [] =>
      cases hadvance
      exact valid_exclusive hslots
    | (entry, .ok outcome) :: results =>
      cases hadvance
      refine valid_store hslots (hresults _ List.mem_cons_self outcome rfl) fun _ hslots' => ?_
      exact ⟨hslots', fun result hresult => hresults result (List.mem_cons_of_mem _ hresult)⟩
    | (_, .error e) :: _ =>
      cases hadvance
      exact fun _ heq => by cases heq
  | exclusive progress group =>
    obtain ⟨hslots, hanswers⟩ := h
    cases group with
    | nil =>
      cases hadvance
      obtain ⟨hall, hforall⟩ := hslots.collect
      rw [collect, if_pos hall]
      exact fun _ heq => by
        cases heq
        exact hforall
    | cons entry group =>
      cases progress with
      | waiting =>
        obtain ⟨progress', hnext, rfl⟩ := Option.map_eq_some_iff.mp hadvance
        refine ⟨hslots, fun other hother outcome heq => ?_⟩
        cases hother
        exact answers_next (heq ▸ hnext)
      | running =>
        cases hadvance
        refine ⟨hslots, fun other hother outcome heq => ?_⟩
        cases hother
        exact answers_resultOf (Progress.done.inj heq)
      | done result =>
        cases result with
        | ok outcome =>
          cases hadvance
          exact valid_store hslots (hanswers entry rfl outcome rfl) fun _ => valid_exclusive
        | error e =>
          cases hadvance
          exact fun _ heq => by cases heq
  | ended _ => cases hadvance
  | panicked => cases hadvance

/-- A call that may not run beside others is the only one of its batch whose tool is executed. -/
theorem Valid.alone {b : Batch} (h : b.Valid rt) {entry : Indexed} (hentry : entry ∈ b.running)
    (hexclusive : rt.isConcurrent entry.2 = false) : b.running = [entry] := by
  obtain ⟨calls, slots, stage⟩ := b
  cases stage with
  | joining tasks =>
    obtain ⟨task, htask, rfl⟩ := List.mem_map.mp hentry
    have hconcurrent := (h.2 task (List.mem_filter.mp htask).1).1
    rw [hexclusive] at hconcurrent
    cases hconcurrent
  | exclusive progress group =>
    cases group with
    | nil => cases progress <;> cases hentry
    | cons other group =>
      cases progress with
      | running =>
        rw [List.mem_singleton.mp hentry]
        rfl
      | waiting | done _ => cases hentry
  | settling _ | ended _ | panicked => cases hentry

end Batch

theorem valid_step {batches batches' : List Batch} {turn : Turn}
    (h : ∀ b ∈ batches, b.Valid rt) (hstep : step host rt batches turn = some batches') :
    ∀ b ∈ batches', b.Valid rt := by
  have hset {i : Nat} {b' : Batch} (hb' : b'.Valid rt) : ∀ b ∈ batches.set i b', b.Valid rt := by
    intro b hb
    rcases List.mem_or_eq_of_mem_set hb with hb | rfl
    · exact h b hb
    · exact hb'
  cases turn with
  | begin calls =>
    cases hstep
    intro b hb
    rcases List.mem_append.mp hb with hb | hb
    · exact h b hb
    · rw [List.mem_singleton.mp hb]
      exact Batch.valid_begin calls
  | task i position answer =>
    obtain ⟨b', hb', rfl⟩ := Option.map_eq_some_iff.mp hstep
    obtain ⟨b, hb, hadvance⟩ := Option.bind_eq_some_iff.mp hb'
    exact hset (Batch.valid_advanceTask (h b (List.mem_of_getElem? hb)) hadvance)
  | advance i answer =>
    obtain ⟨b', hb', rfl⟩ := Option.map_eq_some_iff.mp hstep
    obtain ⟨b, hb, hadvance⟩ := Option.bind_eq_some_iff.mp hb'
    exact hset (Batch.valid_advance (h b (List.mem_of_getElem? hb)) hadvance)
  | drop i =>
    cases hstep
    exact fun b hb => h b (List.mem_of_mem_eraseIdx hb)

end Valid

/-! ### Progress -/

section Progress

variable {host rt}

/-- The batch has returned. -/
def Batch.Over (b : Batch) : Prop := b.stage = .panicked ∨ ∃ result, b.stage = .ended result

variable (host rt) in
/-- The batch or one of its calls has a next step; with permits to take, or without. -/
def Batch.Goes (withPermit : Bool) (b : Batch) : Prop :=
  (∃ position answer b', b.advanceTask host rt position answer = some b' ∧
    (b.taskAcquires position = true → withPermit = true)) ∨
  ∃ answer b', b.advance host rt answer = some b' ∧ (b.acquires = true → withPermit = true)

variable (host rt) in
theorem exists_next_waiting (call : ToolCall) (answer : ToolAnswer) :
    ∃ progress, Progress.next host rt call answer .waiting = some progress := by
  simp only [Progress.next]
  split
  · exact ⟨_, rfl⟩
  · exact ⟨_, rfl⟩

/-- A call that holds its permit gets on without another one. -/
theorem Batch.goes_of_held {b : Batch} (h : b.held ≠ 0) : b.Goes host rt false := by
  obtain ⟨calls, slots, stage⟩ := b
  cases stage with
  | joining tasks =>
    obtain ⟨k, hk, hpositive⟩ : ∃ k ∈ tasks.map fun task => task.2.held, k ≠ 0 := by
      by_contra hall
      push Not at hall
      exact h (List.sum_eq_zero hall)
    obtain ⟨⟨entry, progress⟩, htask, rfl⟩ := List.mem_map.mp hk
    obtain ⟨position, hposition⟩ := List.mem_iff_getElem?.mp htask
    cases progress with
    | running =>
      refine .inl ⟨position, .elapsed, ?_⟩
      simp [advanceTask, taskAcquires, hposition, Progress.next, Progress.isWaiting]
    | waiting | done _ => exact absurd rfl hpositive
  | exclusive progress group =>
    cases group with
    | nil => exact absurd rfl h
    | cons entry group =>
      cases progress with
      | waiting => exact absurd rfl h
      | running => exact .inr ⟨.elapsed, _, rfl, fun hacquires => hacquires⟩
      | done result =>
        cases result with
        | ok outcome => exact .inr ⟨.elapsed, _, rfl, fun hacquires => hacquires⟩
        | error e => exact .inr ⟨.elapsed, _, rfl, fun hacquires => hacquires⟩
  | settling _ | ended _ | panicked => exact absurd rfl h

theorem exists_joined_or_not_done (tasks : List (Indexed × Progress)) :
    (∃ results, joined tasks = some results) ∨ ∃ task ∈ tasks, ∀ result, task.2 ≠ .done result := by
  induction tasks with
  | nil => exact .inl ⟨[], rfl⟩
  | cons task rest ih =>
    obtain ⟨entry, progress⟩ := task
    cases progress with
    | waiting | running => exact .inr ⟨_, List.mem_cons_self, nofun⟩
    | done result =>
      rcases ih with ⟨results, hresults⟩ | ⟨task, htask, hnot⟩
      · exact .inl ⟨(entry, result) :: results, by rw [joined, hresults]; rfl⟩
      · exact .inr ⟨task, List.mem_cons_of_mem _ htask, hnot⟩

/-- With a permit to take, a batch goes on until it has returned. -/
theorem Batch.goes_of_not_over {b : Batch} (h : ¬ b.Over) : b.Goes host rt true := by
  obtain ⟨calls, slots, stage⟩ := b
  cases stage with
  | joining tasks =>
    rcases exists_joined_or_not_done tasks with
      ⟨results, hresults⟩ | ⟨⟨entry, progress⟩, htask, hnot⟩
    · refine .inr ⟨.elapsed, ⟨calls, slots, .settling results⟩, ?_, fun _ => rfl⟩
      simp only [advance, hresults, Option.map_some]
    · obtain ⟨position, hposition⟩ := List.mem_iff_getElem?.mp htask
      have hnext : ∃ progress', progress.next host rt entry.2 .elapsed = some progress' := by
        cases progress with
        | waiting => exact exists_next_waiting host rt entry.2 .elapsed
        | running => exact ⟨_, rfl⟩
        | done result => exact absurd rfl (hnot result)
      obtain ⟨progress', hnext⟩ := hnext
      refine .inl ⟨position, .elapsed,
        ⟨calls, slots, .joining (tasks.set position (entry, progress'))⟩, ?_, fun _ => rfl⟩
      simp only [advanceTask, hposition, hnext, Option.map_some]
  | settling results =>
    match results with
    | [] => exact .inr ⟨.elapsed, _, rfl, fun _ => rfl⟩
    | (_, .ok _) :: _ => exact .inr ⟨.elapsed, _, rfl, fun _ => rfl⟩
    | (_, .error _) :: _ => exact .inr ⟨.elapsed, _, rfl, fun _ => rfl⟩
  | exclusive progress group =>
    cases group with
    | nil => exact .inr ⟨.elapsed, _, rfl, fun _ => rfl⟩
    | cons entry group =>
      cases progress with
      | waiting =>
        obtain ⟨progress', hnext⟩ := exists_next_waiting host rt entry.2 .elapsed
        refine .inr ⟨.elapsed, ⟨calls, slots, .exclusive progress' (entry :: group)⟩, ?_,
          fun _ => rfl⟩
        simp only [advance, hnext, Option.map_some]
      | running => exact .inr ⟨.elapsed, _, rfl, fun _ => rfl⟩
      | done result =>
        cases result with
        | ok outcome => exact .inr ⟨.elapsed, _, rfl, fun _ => rfl⟩
        | error e => exact .inr ⟨.elapsed, _, rfl, fun _ => rfl⟩
  | ended result => exact absurd (.inr ⟨result, rfl⟩) h
  | panicked => exact absurd (.inl rfl) h

/-- A batch that goes on takes a turn. -/
theorem exists_turn_of_goes {maxToolConcurrency i : Nat} {batches : List Batch} {b : Batch}
    {withPermit : Bool} (hb : batches[i]? = some b) (hgoes : b.Goes host rt withPermit)
    (hfree : withPermit = true → taken batches < permits maxToolConcurrency) :
    ∃ i b' turn, Permitted maxToolConcurrency batches turn ∧
      step host rt batches turn = some (batches.set i b') := by
  rcases hgoes with ⟨position, answer, b', hadvance, hpermit⟩ | ⟨answer, b', hadvance, hpermit⟩
  · refine ⟨i, b', .task i position answer, fun htakes => hfree (hpermit ?_), ?_⟩
    · simpa [takesPermit, hb] using htakes
    · simp [step, hb, hadvance]
  · refine ⟨i, b', .advance i answer, fun htakes => hfree (hpermit ?_), ?_⟩
    · simpa [takesPermit, hb] using htakes
    · simp [step, hb, hadvance]

/-- **As long as a batch has not returned, some batch takes a step**: nobody waits for a permit that
nobody gives back. -/
theorem exists_turn (maxToolConcurrency : Nat) {batches : List Batch} {b : Batch}
    (hb : b ∈ batches) (hopen : ¬ b.Over) :
    ∃ i b' turn, Permitted maxToolConcurrency batches turn ∧
      step host rt batches turn = some (batches.set i b') := by
  by_cases hheld : ∃ c ∈ batches, c.held ≠ 0
  · obtain ⟨c, hc, hheld⟩ := hheld
    obtain ⟨i, hi⟩ := List.mem_iff_getElem?.mp hc
    exact exists_turn_of_goes hi (Batch.goes_of_held hheld) fun h => by cases h
  · push Not at hheld
    obtain ⟨i, hi⟩ := List.mem_iff_getElem?.mp hb
    refine exists_turn_of_goes hi (Batch.goes_of_not_over hopen) fun _ => ?_
    have htaken : taken batches = 0 := List.sum_eq_zero fun k hk => by
      obtain ⟨c, hc, rfl⟩ := List.mem_map.mp hk
      exact hheld c hc
    rw [htaken]
    exact Nat.lt_of_lt_of_le Nat.zero_lt_one (Nat.le_max_right ..)

end Progress

/-- **However batches interleave, no more tools are executed at once than the semaphore has
permits, an exclusive tool never beside another one of its batch, every slot is filled when it is
read, and a batch that returns outcomes has one for each call, in order, with a tool message of the
call's identifier and name**. -/
theorem batches_answered (maxToolConcurrency : Nat) (batches : List Batch)
    (h : LeadsTo (step host rt) (Permitted maxToolConcurrency) [] batches) :
    (batches.flatMap Batch.running).length ≤ permits maxToolConcurrency ∧
    ∀ b ∈ batches, b.stage ≠ .panicked ∧
      (∀ entry ∈ b.running, rt.isConcurrent entry.2 = false → b.running = [entry]) ∧
      ∀ outcomes, b.stage = .ended (.ok outcomes) → List.Forall₂ Answers b.calls outcomes := by
  have hinvariant : taken batches ≤ permits maxToolConcurrency ∧ ∀ b ∈ batches, b.Valid rt := by
    apply h.invariant (fun batches => taken batches ≤ permits maxToolConcurrency ∧
      ∀ b ∈ batches, b.Valid rt) ⟨Nat.zero_le _, fun b hb => by cases hb⟩
    rintro batches turn batches' ⟨htaken, hvalid⟩ hpermitted hstep
    exact ⟨taken_step htaken hpermitted hstep, valid_step hvalid hstep⟩
  obtain ⟨htaken, hvalid⟩ := hinvariant
  refine ⟨(length_running_le_taken batches).trans htaken, fun b hb => ⟨?_, ?_, ?_⟩⟩
  · intro hpanicked
    have hfalse := hvalid b hb
    rw [Batch.Valid, hpanicked] at hfalse
    exact hfalse
  · exact fun entry hentry hexclusive => (hvalid b hb).alone hentry hexclusive
  · intro outcomes hended
    have houtcomes := hvalid b hb
    rw [Batch.Valid, hended] at houtcomes
    exact houtcomes outcomes rfl

/-- The batch has returned outcomes. -/
def Batch.returned (b : Batch) : Bool :=
  match b.stage with
  | .ended (.ok _) => true
  | _ => false

theorem Batch.exists_of_returned {b : Batch} (h : b.returned = true) :
    ∃ outcomes, b.stage = .ended (.ok outcomes) := by
  unfold returned at h
  split at h
  · next outcomes hstage => exact ⟨outcomes, hstage⟩
  · cases h

/-- A tool that runs alone, and one that may run beside others. -/
def writeAndRead : ToolRuntime where
  registry :=
    ⟨[⟨⟨"write", "", .null, none⟩, false, fun _ arguments => .finished arguments⟩,
      ⟨⟨"read", "", .null, none⟩, true, fun _ arguments => .finished arguments⟩]⟩
  policy := {}

def writeThenRead : List ToolCall := [⟨"a", "write", .null⟩, ⟨"b", "read", .null⟩]

/-- The second call is executed first, beside a batch that waits for the permit. -/
theorem writeThenRead_answered :
    ∃ batches, LeadsTo (step .benign writeAndRead) (Permitted 0) [] batches ∧
      (batches.flatMap Batch.running).length = 1 ∧
      ∃ b ∈ batches, b.calls = writeThenRead ∧ ∃ outcomes, b.stage = .ended (.ok outcomes) ∧
        List.Forall₂ Answers writeThenRead outcomes := by
  obtain ⟨batches, hbatches, hrunning, hreturned⟩ := exists_leadsTo (step .benign writeAndRead)
    (Permitted 0) []
    ([.begin writeThenRead, .begin writeThenRead, .task 0 0 .elapsed,
      .task 0 0 (.finished .null)] ++
      List.replicate 7 (.advance 0 (.finished .null)) ++ [.task 1 0 .elapsed])
    (fun batches => (batches.flatMap Batch.running).length = 1 ∧
      (batches.any fun b => decide (b.calls = writeThenRead) && b.returned) = true)
    (by decide +kernel)
  obtain ⟨b, hb, hcheck⟩ := List.any_eq_true.mp hreturned
  rw [Bool.and_eq_true, decide_eq_true_eq] at hcheck
  obtain ⟨outcomes, hstage⟩ := Batch.exists_of_returned hcheck.2
  refine ⟨batches, hbatches, hrunning, b, hb, hcheck.1, outcomes, hstage, ?_⟩
  rw [← hcheck.1]
  exact ((batches_answered .benign writeAndRead 0 batches hbatches).2 b hb).2.2 outcomes hstage

end Behest.Parallel
