import Mathlib.Data.List.Perm.Subperm
import Mathlib.Data.List.TakeWhile
import Behest.Tool.Batch

/-!
# The execution audit

A batch whose concurrent calls complete in any order, with what became of each call beside
its result, and the records it leaves in the execution store. The records are those of the
calls before the first failure; a call that completed after it, or that is itself the
failure, has none.
-/

namespace Behest

open Effect

/-- What became of a call: it was rejected before it reached its tool, or the tool ran. -/
inductive Reply where
  | rejected (e : ToolError) (text : String)
  | answered (answer : ToolAnswer)

/-- A call at its position in the batch, with what became of it. -/
structure Attempt where
  position : Nat
  call : ToolCall
  reply : Reply

namespace Attempt

/-- The tool was executed to completion, with a value or with an error. -/
def completed (a : Attempt) : Bool :=
  match a.reply with
  | .answered (.finished _) | .answered (.errored _) => true
  | _ => false

/-- The tool returned an error. -/
def errored (a : Attempt) : Bool :=
  match a.reply with
  | .answered (.errored _) => true
  | _ => false

theorem completed_of_errored {a : Attempt} (h : a.errored = true) : a.completed = true := by
  unfold errored at h
  split at h
  · next hreply => simp [completed, hreply]
  · cases h

end Attempt

namespace ToolRuntime

variable (host : Host) (rt : ToolRuntime)

/-- One call as far as its tool. Source: `tool_runtime.rs:220–264`. -/
def reach (call : ToolCall) : M Reply :=
  match rt.registry.get call.name with
  | none => return .rejected (.notFound call.name) ("tool not found: " ++ call.name)
  | some tool =>
      match validateArguments host tool.spec.parametersSchema call.arguments with
      | some message => return .rejected (.invalidArguments call.name message) message
      | none => do
          let w ← get
          host.perform (.toolCalled call)
          return .answered (tool.execute w call.arguments)

/-- The result of a call. Source: `tool_runtime.rs:226–318`. -/
def resultOf (call : ToolCall) : Reply → Except RuntimeError ToolExecutionOutcome
  | .rejected e text => rt.failedOutcome call e text (.tool e)
  | .answered answer => rt.outcomeOf call answer

theorem executeSingle_eq (call : ToolCall) :
    rt.executeSingle host call = rt.resultOf call <$> rt.reach host call := by
  unfold executeSingle reach
  cases rt.registry.get call.name with
  | none => rfl
  | some tool =>
    dsimp only
    cases validateArguments host tool.spec.parametersSchema call.arguments with
    | some message => rfl
    | none => simp only [map_bind, map_pure, resultOf]

def attempt (entry : Indexed) : M Attempt := do
  return ⟨entry.1, entry.2, ← rt.reach host entry.2⟩

/-- The result of an attempt. -/
def result (a : Attempt) : Except RuntimeError ToolExecutionOutcome := rt.resultOf a.call a.reply

/-- The attempts by the positions of a group. -/
def arrange (group : List Indexed) (attempts : List Attempt) : List Attempt :=
  group.filterMap fun entry => attempts.find? fun a => a.position == entry.1

/-- Record the results up to the first error. Source: `tool_runtime.rs:172–179`. -/
def settleAttempts (sessionId messageId : Uuid) :
    List Attempt → M (Except RuntimeError (List (Nat × ToolExecutionOutcome)))
  | [] => return .ok []
  | a :: rest =>
      match rt.result a with
      | .error e => return .error e
      | .ok outcome => do
          recordExecution host sessionId messageId outcome
          let others ← settleAttempts sessionId messageId rest
          return others.map fun outcomes => (a.position, outcome) :: outcomes

/-- Run and record calls one at a time, up to the first error. Source: `tool_runtime.rs:182–205`. -/
def attemptExclusive (sessionId messageId : Uuid) :
    List Indexed → M (List Attempt × Except RuntimeError (List (Nat × ToolExecutionOutcome)))
  | [] => return ([], .ok [])
  | entry :: rest => do
      let a ← rt.attempt host entry
      match rt.result a with
      | .error e => return ([a], .error e)
      | .ok outcome => do
          recordExecution host sessionId messageId outcome
          let others ← attemptExclusive sessionId messageId rest
          return (a :: others.1, others.2.map fun outcomes => (a.position, outcome) :: outcomes)

/-- The calls that may run beside each other, in the order of the batch. -/
def concurrentGroup (calls : List ToolCall) : List Indexed :=
  (calls.zipIdx.map Prod.swap).filter fun entry => rt.isConcurrent entry.2

/-- The calls that run one at a time. -/
def exclusiveGroup (calls : List ToolCall) : List Indexed :=
  (calls.zipIdx.map Prod.swap).filter fun entry => !rt.isConcurrent entry.2

/-- The batch, with the calls of its concurrent group completing in the given order: its
attempts as they were made, and what it returns. Source: `tool_runtime.rs:115–211`. -/
def auditBatch (order : List Indexed) (calls : List ToolCall) (sessionId messageId : Uuid) :
    M (List Attempt × Except RuntimeError (List ToolExecutionOutcome)) := do
  let concurrent ← order.mapM (rt.attempt host)
  match ← rt.settleAttempts host sessionId messageId
      (arrange (rt.concurrentGroup calls) concurrent) with
  | .error e => return (concurrent, .error e)
  | .ok settled => do
      let exclusive ← rt.attemptExclusive host sessionId messageId (rt.exclusiveGroup calls)
      match exclusive.2 with
      | .error e => return (concurrent ++ exclusive.1, .error e)
      | .ok others =>
          match inOrder calls.length (settled ++ others) with
          | some outcomes => return (concurrent ++ exclusive.1, .ok outcomes)
          | none => throw Stop.panicked

/-- What a batch returns, as a program that fails. -/
def returned {α β : Type} (x : α × Except RuntimeError β) : M β :=
  match x.2 with
  | .ok b => pure b
  | .error e => fail e

/-! ### The batch of the runtime -/

variable {host rt} {E : Stop → World → Prop}

theorem runConcurrent_eq (group : List Indexed) :
    rt.runConcurrent host group =
      (fun attempts : List Attempt => attempts.map fun a => (a.position, rt.result a)) <$>
        group.mapM (rt.attempt host) := by
  have hbody : ∀ entry : Indexed, (do
      let result ← rt.executeSingle host entry.2
      return (entry.1, result)) =
        (fun a : Attempt => (a.position, rt.result a)) <$> rt.attempt host entry := by
    intro entry
    simp only [executeSingle_eq, attempt, result, map_eq_pure_bind, bind_assoc, pure_bind]
  unfold runConcurrent
  simp only [hbody]
  induction group with
  | nil => rfl
  | cons entry rest ih =>
    rw [List.mapM_cons, ih, List.mapM_cons]
    simp only [map_eq_pure_bind, bind_assoc, pure_bind, List.map_cons]

theorem settleConcurrent_eq (sessionId messageId : Uuid) (attempts : List Attempt) :
    settleConcurrent host sessionId messageId (attempts.map fun a => (a.position, rt.result a)) =
      (rt.settleAttempts host sessionId messageId attempts >>= fun r => returned ((), r)) := by
  unfold settleConcurrent
  induction attempts with
  | nil => rfl
  | cons a rest ih =>
    simp only [List.map_cons, List.mapM_cons, settleAttempts, ih]
    cases rt.result a with
    | error e => rfl
    | ok outcome =>
      simp only [bind_assoc, pure_bind]
      congr 1
      ext1 _
      congr 1
      ext1 others
      cases others with
      | error e => rfl
      | ok outcomes => rfl

theorem runExclusive_eq (sessionId messageId : Uuid) (group : List Indexed) :
    rt.runExclusive host sessionId messageId group =
      rt.attemptExclusive host sessionId messageId group >>= returned := by
  unfold runExclusive
  simp only [executeSingle_eq, map_eq_pure_bind, bind_assoc, pure_bind]
  induction group with
  | nil => rfl
  | cons entry rest ih =>
    simp only [List.mapM_cons, attemptExclusive, ih, attempt, bind_assoc, pure_bind]
    congr 1
    funext reply
    simp only [result]
    cases rt.resultOf entry.2 reply with
    | error e => rfl
    | ok outcome =>
      simp only [bind_assoc, pure_bind]
      congr 1
      ext1 _
      congr 1
      ext1 others
      obtain ⟨attempts, r⟩ := others
      cases r with
      | error e => rfl
      | ok outcomes => rfl

/-- The attempt stands for the entry. -/
def Of (entry : Indexed) (a : Attempt) : Prop := a.position = entry.1 ∧ a.call = entry.2

theorem wp_attempt [Tolerant E] (entry : Indexed) (w : World) :
    wp (rt.attempt host entry) (fun a w' => Of entry a ∧ w'.executions = w.executions) E w := by
  simp only [attempt, wp_bind, wp_pure]
  unfold reach
  split
  · exact ⟨⟨rfl, rfl⟩, rfl⟩
  · split
    · exact ⟨⟨rfl, rfl⟩, rfl⟩
    · simp only [wp_bind, wp_get]
      apply wp_perform
      exact ⟨⟨rfl, rfl⟩, rfl⟩

theorem wp_attempts [Tolerant E] (order : List Indexed) (w : World) :
    wp (order.mapM (rt.attempt host))
      (fun attempts w' => List.Forall₂ Of order attempts ∧ w'.executions = w.executions) E w := by
  induction order generalizing w with
  | nil => exact ⟨.nil, rfl⟩
  | cons entry rest ih =>
    rw [List.mapM_cons, wp_bind]
    apply wp_mono (wp_attempt entry w) _ fun _ _ he => he
    intro a w₁ ⟨ha, hw₁⟩
    rw [wp_bind]
    apply wp_mono (ih w₁) _ fun _ _ he => he
    intro attempts w₂ ⟨hattempts, hw₂⟩
    exact ⟨.cons ha hattempts, hw₂.trans hw₁⟩

/-- Attempts made in the order of their group are arranged already. -/
theorem arrange_eq_self {group : List Indexed} {attempts : List Attempt}
    (h : List.Forall₂ Of group attempts) (hnodup : (group.map Prod.fst).Nodup) :
    arrange group attempts = attempts := by
  induction h with
  | nil => rfl
  | @cons entry a group attempts ha hrest ih =>
    rw [List.map_cons, List.nodup_cons] at hnodup
    have hskip : ∀ other ∈ group, ((a :: attempts).find? fun a => a.position == other.1) =
        attempts.find? fun a => a.position == other.1 := by
      intro other hother
      apply List.find?_cons_of_neg
      rw [ha.1, beq_iff_eq]
      intro heq
      exact hnodup.1 (heq ▸ List.mem_map_of_mem hother)
    have hhead : ((a :: attempts).find? fun a => a.position == entry.1) = some a :=
      List.find?_cons_of_pos (beq_iff_eq.mpr ha.1)
    simp only [arrange, List.filterMap_cons, hhead]
    rw [List.filterMap_congr hskip]
    exact congrArg (a :: ·) (ih hnodup.2)

theorem pairwise_indexed (calls : List ToolCall) :
    (calls.zipIdx.map Prod.swap).Pairwise fun (a b : Indexed) => a.1 < b.1 := by
  have hmap : ((calls.zipIdx.map Prod.swap).map Prod.fst) = List.range' 0 calls.length := by
    rw [List.map_map, ← List.zipIdx_map_snd 0 calls]
    rfl
  have hlt : (List.range' 0 calls.length).Pairwise (· < ·) := List.pairwise_lt_range'
  rw [← hmap, List.pairwise_map] at hlt
  exact hlt

theorem pairwise_concurrentGroup (calls : List ToolCall) :
    (rt.concurrentGroup calls).Pairwise fun a b => a.1 < b.1 :=
  (pairwise_indexed calls).filter _

theorem nodup_concurrentGroup (calls : List ToolCall) :
    ((rt.concurrentGroup calls).map Prod.fst).Nodup := by
  rw [List.Nodup, List.pairwise_map]
  exact (pairwise_concurrentGroup calls).imp Nat.ne_of_lt

theorem map_position {group : List Indexed} {attempts : List Attempt}
    (h : List.Forall₂ Of group attempts) :
    attempts.map Attempt.position = group.map Prod.fst := by
  induction h with
  | nil => rfl
  | cons ha _ ih => rw [List.map_cons, List.map_cons, ha.1, ih]

/-- Arranged attempts stand in the order of the batch. -/
theorem pairwise_arrange {group : List Indexed} (h : group.Pairwise fun a b => a.1 < b.1)
    (attempts : List Attempt) :
    (arrange group attempts).Pairwise fun a b => a.position < b.position := by
  rw [arrange, List.pairwise_filterMap]
  apply h.imp
  intro entry entry' hlt a ha b hb
  have hposition : a.position = entry.1 := by simpa using List.find?_some ha
  have hposition' : b.position = entry'.1 := by simpa using List.find?_some hb
  rw [hposition, hposition']
  exact hlt

/-- **The batch of the runtime is the one whose concurrent calls complete in call order**. -/
theorem executeBatch_eq (calls : List ToolCall) (sessionId messageId : Uuid) :
    rt.executeBatch host calls sessionId messageId =
      rt.auditBatch host (rt.concurrentGroup calls) calls sessionId messageId >>= returned := by
  funext w
  simp only [executeBatch, auditBatch, runConcurrent_eq, runExclusive_eq, map_eq_pure_bind,
    bind_assoc, pure_bind, settleConcurrent_eq]
  apply bind_congr_of_wp (E := fun e _ => e.Clean)
  apply wp_mono (wp_attempts _ w) _ fun _ _ he => he
  intro attempts _ hattempts
  have hsame : arrange (rt.concurrentGroup calls) attempts = attempts :=
    arrange_eq_self hattempts.1 (nodup_concurrentGroup calls)
  rw [hsame]
  congr 1
  funext r
  cases r with
  | error e => rfl
  | ok settled =>
    simp only [returned, pure_bind, bind_assoc]
    congr 1
    funext exclusive
    obtain ⟨others, r⟩ := exclusive
    cases r with
    | error e => rfl
    | ok others =>
      simp only [pure_bind]
      cases inOrder calls.length (settled ++ others) with
      | none => rfl
      | some outcomes => rfl

/-! ### What is recorded -/

/-- The entry of the execution store is about the call. -/
structure Records (sessionId messageId : Uuid) (call : ToolCall) (e : ToolExecution) : Prop where
  sessionId_eq : e.sessionId = sessionId
  messageId_eq : e.messageId = messageId
  callId_eq : e.callId = call.id
  toolName_eq : e.toolName = call.name
  arguments_eq : e.arguments = call.arguments

/-- The store has gained one entry for each attempt, in order. -/
def Recorded (sessionId messageId : Uuid) (attempts : List Attempt) (w w' : World) : Prop :=
  ∃ records, w'.executions = w.executions ++ records ∧
    List.Forall₂ (fun (a : Attempt) e => Records sessionId messageId a.call e) attempts records

section Recorded

variable {sessionId messageId : Uuid} {as bs : List Attempt} {w w' w'' : World}

theorem Recorded.nil (h : w'.executions = w.executions) : Recorded sessionId messageId [] w w' :=
  ⟨[], by simp [h], .nil⟩

theorem Recorded.append (h : Recorded sessionId messageId as w w')
    (h' : Recorded sessionId messageId bs w' w'') :
    Recorded sessionId messageId (as ++ bs) w w'' := by
  obtain ⟨records, heq, hall⟩ := h
  obtain ⟨records', heq', hall'⟩ := h'
  exact ⟨records ++ records', by rw [heq', heq, List.append_assoc], List.rel_append hall hall'⟩

end Recorded

/-- The call's result is not an error. -/
def succeeds (rt : ToolRuntime) (a : Attempt) : Bool := (rt.result a).isOk

variable {sessionId messageId : Uuid}

theorem call_of_result {a : Attempt} {outcome : ToolExecutionOutcome}
    (h : rt.result a = .ok outcome) : outcome.call = a.call := by
  obtain ⟨position, call, reply⟩ := a
  cases reply with
  | rejected e text => exact (answers_failedOutcome h).call_eq
  | answered answer => exact (answers_outcomeOf h).call_eq

theorem wp_recordExecution [Tolerant E] (hstore : ∀ w, host.executionFault w = none) {a : Attempt}
    {outcome : ToolExecutionOutcome} (ha : rt.result a = .ok outcome) (w : World) :
    wp (recordExecution host sessionId messageId outcome)
      (fun _ w' => Recorded sessionId messageId [a] w w') E w := by
  unfold recordExecution
  simp only [wp_bind, wp_get]
  apply wp_newId
  intro id
  apply wp_readClock
  intro createdAt
  apply wp_perform
  refine ⟨_, by rw [hstore]; rfl, .cons ?_ .nil⟩
  rw [← call_of_result ha]
  exact ⟨rfl, rfl, rfl, rfl, rfl⟩

theorem wp_settleAttempts [Tolerant E] (hstore : ∀ w, host.executionFault w = none)
    (attempts : List Attempt) (w : World) :
    wp (rt.settleAttempts host sessionId messageId attempts)
      (fun r w' => Recorded sessionId messageId (attempts.takeWhile rt.succeeds) w w' ∧
        (r.isOk = true → ∀ a ∈ attempts, rt.succeeds a = true)) E w := by
  induction attempts generalizing w with
  | nil => exact ⟨.nil rfl, by rintro - _ ⟨⟩⟩
  | cons a rest ih =>
    unfold settleAttempts
    cases ha : rt.result a with
    | error e =>
      have hfails : ¬ rt.succeeds a = true := by simp [succeeds, ha, Except.isOk, Except.toBool]
      rw [List.takeWhile_cons_of_neg hfails]
      exact ⟨.nil rfl, by rintro ⟨⟩⟩
    | ok outcome =>
      have hok : rt.succeeds a = true := by simp [succeeds, ha, Except.isOk, Except.toBool]
      rw [List.takeWhile_cons_of_pos hok]
      simp only [wp_bind, wp_pure]
      apply wp_mono (wp_recordExecution hstore ha w) _ fun _ _ he => he
      intro _ w₁ hrecorded
      apply wp_mono (ih w₁) _ fun _ _ he => he
      rintro r w₂ ⟨hrest, hall⟩
      refine ⟨hrecorded.append hrest, ?_⟩
      intro hr b hb
      rcases List.mem_cons.mp hb with rfl | hb
      · exact hok
      · cases r with
        | error e => cases hr
        | ok outcomes => exact hall rfl b hb

theorem wp_attemptExclusive [Tolerant E] (hstore : ∀ w, host.executionFault w = none)
    (group : List Indexed) (w : World) :
    wp (rt.attemptExclusive host sessionId messageId group)
      (fun r w' => Recorded sessionId messageId (r.1.takeWhile rt.succeeds) w w' ∧
        r.1.Pairwise (fun a _ => rt.succeeds a = true) ∧
        ∃ reached, reached <+: group ∧ List.Forall₂ Of reached r.1) E w := by
  induction group generalizing w with
  | nil => exact ⟨.nil rfl, .nil, [], List.nil_prefix, .nil⟩
  | cons entry rest ih =>
    unfold attemptExclusive
    rw [wp_bind]
    apply wp_mono (wp_attempt entry w) _ fun _ _ he => he
    rintro a w₁ ⟨hof, hw₁⟩
    have hone : [entry] <+: entry :: rest := ⟨rest, rfl⟩
    cases ha : rt.result a with
    | error e =>
      have hfails : ¬ rt.succeeds a = true := by simp [succeeds, ha, Except.isOk, Except.toBool]
      simp only [wp_pure]
      rw [List.takeWhile_cons_of_neg hfails]
      exact ⟨.nil hw₁, List.pairwise_singleton _ _, [entry], hone, .cons hof .nil⟩
    | ok outcome =>
      have hok : rt.succeeds a = true := by simp [succeeds, ha, Except.isOk, Except.toBool]
      simp only [wp_bind, wp_pure]
      apply wp_mono (wp_recordExecution hstore ha w₁) _ fun _ _ he => he
      intro _ w₂ hrecorded
      have hrecorded : Recorded sessionId messageId [a] w w₂ := by
        obtain ⟨records, heq, hall⟩ := hrecorded
        exact ⟨records, heq.trans (by rw [hw₁]), hall⟩
      apply wp_mono (ih w₂) _ fun _ _ he => he
      rintro r w₃ ⟨hrest, hordered, reached, hinitial, hreached⟩
      rw [List.takeWhile_cons_of_pos hok]
      exact ⟨hrecorded.append hrest, .cons (fun _ _ => hok) hordered, entry :: reached,
        (List.prefix_cons_inj entry).mpr hinitial, .cons hof hreached⟩

/-- The course of a batch: the attempts of the concurrent group in the order of the calls, and
those made one at a time, of which only the last can have failed; without the first group
succeeding there are none of the second. -/
structure Course (rt : ToolRuntime) (calls : List ToolCall) (concurrent exclusive : List Attempt) :
    Prop where
  placed : ∀ a ∈ concurrent ++ exclusive, calls[a.position]? = some a.call
  isConcurrent : ∀ a ∈ concurrent, rt.isConcurrent a.call = true
  isExclusive : ∀ a ∈ exclusive, rt.isConcurrent a.call = false
  inOrder : concurrent.Pairwise fun a b => a.position < b.position
  oneByOne : exclusive.Pairwise fun a b => a.position < b.position
  onward : exclusive.Pairwise fun a _ => rt.succeeds a = true
  gate : exclusive = [] ∨ ∀ a ∈ concurrent, rt.succeeds a = true

/-- **The records of a batch are those of the attempts before the first failure**. -/
theorem wp_auditBatch [Tolerant E] (hE : ∀ w, E .panicked w)
    (hstore : ∀ w, host.executionFault w = none) {order : List Indexed} {calls : List ToolCall}
    (horder : order.Perm (rt.concurrentGroup calls)) (w : World) :
    wp (rt.auditBatch host order calls sessionId messageId)
      (fun r w' => ∃ concurrent exclusive, r.1.Perm (concurrent ++ exclusive) ∧
        Course rt calls concurrent exclusive ∧
        Recorded sessionId messageId ((concurrent ++ exclusive).takeWhile rt.succeeds) w w')
      E w := by
  unfold auditBatch
  rw [wp_bind]
  apply wp_mono (wp_attempts order w) _ fun _ _ he => he
  rintro attempts w₁ ⟨hattempts, hw₁⟩
  have hnodup : (order.map Prod.fst).Nodup :=
    (horder.map Prod.fst).nodup_iff.mpr (nodup_concurrentGroup calls)
  have hperm : attempts.Perm (arrange (rt.concurrentGroup calls) attempts) := by
    have h : (arrange order attempts).Perm (arrange (rt.concurrentGroup calls) attempts) :=
      horder.filterMap _
    rwa [arrange_eq_self hattempts hnodup] at h
  have hconcurrent : ∀ a ∈ arrange (rt.concurrentGroup calls) attempts,
      calls[a.position]? = some a.call ∧ rt.isConcurrent a.call = true := by
    intro a ha
    obtain ⟨entry, hentry, hof⟩ := exists_right hattempts.flip (hperm.mem_iff.mpr ha)
    have hmem := List.mem_filter.mp (horder.mem_iff.mp hentry)
    rw [hof.1, hof.2]
    exact ⟨mem_indexed.mp hmem.1, hmem.2⟩
  have hgrouped : (rt.concurrentGroup calls).Pairwise fun a b => a.1 < b.1 :=
    pairwise_concurrentGroup calls
  have hinOrder := pairwise_arrange hgrouped attempts
  generalize arrange (rt.concurrentGroup calls) attempts = concurrent at *
  rw [wp_bind]
  apply wp_mono (wp_settleAttempts hstore concurrent w₁) _ fun _ _ he => he
  rintro r w₂ ⟨hrecorded, hall⟩
  have hrecorded : Recorded sessionId messageId (concurrent.takeWhile rt.succeeds) w w₂ := by
    obtain ⟨records, heq, hrecords⟩ := hrecorded
    exact ⟨records, heq.trans (by rw [hw₁]), hrecords⟩
  cases r with
  | error e =>
    simp only [wp_pure]
    refine ⟨concurrent, [], by simpa using hperm, ?_, by simpa using hrecorded⟩
    exact ⟨fun a ha => (hconcurrent a (by simpa using ha)).1, fun a ha => (hconcurrent a ha).2,
      by rintro _ ⟨⟩, hinOrder, .nil, .nil, .inl rfl⟩
  | ok settled =>
    have hgate := hall rfl
    rw [List.takeWhile_eq_self_iff.mpr hgate] at hrecorded
    rw [wp_bind]
    apply wp_mono (wp_attemptExclusive hstore (rt.exclusiveGroup calls) w₂) _ fun _ _ he => he
    rintro ⟨exclusive, result⟩ w₃ ⟨hrest, honward, reached, hinitial, hreached⟩
    have hexclusive : ∀ a ∈ exclusive,
        calls[a.position]? = some a.call ∧ rt.isConcurrent a.call = false := by
      intro a ha
      obtain ⟨entry, hentry, hof⟩ := exists_right hreached.flip ha
      have hmem := List.mem_filter.mp (hinitial.subset hentry)
      rw [hof.1, hof.2]
      exact ⟨mem_indexed.mp hmem.1, by simpa using hmem.2⟩
    have honeByOne : exclusive.Pairwise fun a b => a.position < b.position := by
      have hgroup : (rt.exclusiveGroup calls).Pairwise fun a b => a.1 < b.1 :=
        (pairwise_indexed calls).filter _
      have hlt := hgroup.sublist hinitial.sublist
      rw [← List.pairwise_map (f := Prod.fst) (R := (· < ·)), ← map_position hreached,
        List.pairwise_map] at hlt
      exact hlt
    have hcourse : Course rt calls concurrent exclusive := by
      refine ⟨?_, fun a ha => (hconcurrent a ha).2, fun a ha => (hexclusive a ha).2, hinOrder,
        honeByOne, honward, .inr hgate⟩
      intro a ha
      rcases List.mem_append.mp ha with ha | ha
      · exact (hconcurrent a ha).1
      · exact (hexclusive a ha).1
    have hboth : Recorded sessionId messageId ((concurrent ++ exclusive).takeWhile rt.succeeds)
        w w₃ := by
      rw [List.takeWhile_append_of_pos hgate]
      exact hrecorded.append hrest
    have hpost := And.intro hcourse hboth
    cases result with
    | error e =>
      simp only [wp_pure]
      exact ⟨concurrent, exclusive, hperm.append_right _, hpost⟩
    | ok others =>
      simp only []
      cases inOrder calls.length (settled ++ others) with
      | none => exact hE w₃
      | some outcomes =>
        simp only [wp_pure]
        exact ⟨concurrent, exclusive, hperm.append_right _, hpost⟩

/-! ### When the audit is complete -/

/-- Every attempt whose tool was executed to completion has an entry of its own among those the
store has gained, and none has two. -/
def Audited (sessionId messageId : Uuid) (attempts : List Attempt) (w w' : World) : Prop :=
  ∃ records, w'.executions = w.executions ++ records ∧
    ∃ positions : List Nat, positions.Nodup ∧
      List.Forall₂
        (fun i e => ∃ a ∈ attempts, a.position = i ∧ Records sessionId messageId a.call e)
        positions records ∧
      ∀ a ∈ attempts, a.completed = true → a.position ∈ positions

/-- Failures are turned into outcomes; or no tool returns an error, and no concurrent call that
is rejected or runs out of time stands before one that completes. -/
def Conclusive (rt : ToolRuntime) (attempts : List Attempt) : Prop :=
  rt.policy.continueOnToolFailure = true ∨
    (∀ a ∈ attempts, a.errored = false) ∧
      ∀ a ∈ attempts, ∀ b ∈ attempts,
        rt.isConcurrent a.call = true → rt.isConcurrent b.call = true →
        a.position < b.position → b.completed = true → a.completed = true

theorem succeeds_of_continue (h : rt.policy.continueOnToolFailure = true) (a : Attempt) :
    rt.succeeds a = true := by
  obtain ⟨position, call, reply⟩ := a
  cases reply with
  | rejected e text =>
      simp [succeeds, result, resultOf, failedOutcome, h, Except.isOk, Except.toBool]
  | answered answer =>
    cases answer <;>
      simp [succeeds, result, resultOf, outcomeOf, failedOutcome, h, Except.isOk, Except.toBool]

/-- Where a failure fails the batch, a call succeeds with the value of its tool only. -/
theorem succeeds_iff (h : rt.policy.continueOnToolFailure = false) (a : Attempt) :
    rt.succeeds a = true ↔ a.completed = true ∧ a.errored = false := by
  obtain ⟨position, call, reply⟩ := a
  cases reply with
  | rejected e text =>
    simp [succeeds, result, resultOf, failedOutcome, h, Except.isOk, Except.toBool,
      Attempt.completed]
  | answered answer =>
    cases answer <;> simp [succeeds, result, resultOf, outcomeOf, failedOutcome, h, Except.isOk,
      Except.toBool, Attempt.completed, Attempt.errored]

namespace Course

variable {calls : List ToolCall} {concurrent exclusive : List Attempt}

theorem nodup (h : Course rt calls concurrent exclusive) :
    ((concurrent ++ exclusive).map Attempt.position).Nodup := by
  rw [List.Nodup, List.pairwise_map, List.pairwise_append]
  refine ⟨h.inOrder.imp Nat.ne_of_lt, h.oneByOne.imp Nat.ne_of_lt, ?_⟩
  intro a ha b hb heq
  have hcall : a.call = b.call := by
    have hplaced := h.placed a (by simp [ha])
    rw [heq, h.placed b (by simp [hb])] at hplaced
    exact (Option.some.inj hplaced).symm
  have hconcurrent := h.isConcurrent a ha
  rw [hcall, h.isExclusive b hb] at hconcurrent
  cases hconcurrent

/-- Concurrent attempts are settled in the order of the batch. -/
theorem ordered (h : Course rt calls concurrent exclusive) :
    (concurrent ++ exclusive).Pairwise fun a b => rt.isConcurrent a.call = true →
      rt.isConcurrent b.call = true → a.position < b.position := by
  rw [List.pairwise_append]
  refine ⟨h.inOrder.imp fun hlt _ _ => hlt, ?_, ?_⟩
  · apply h.oneByOne.imp
    intro a b hlt _ _
    exact hlt
  · intro a ha b hb _ hconcurrent
    rw [h.isExclusive b hb] at hconcurrent
    cases hconcurrent

/-- Only a concurrent attempt can fail before another attempt, which is concurrent too. -/
theorem before (h : Course rt calls concurrent exclusive) :
    (concurrent ++ exclusive).Pairwise fun a b => rt.succeeds a = true ∨
      rt.isConcurrent a.call = true ∧ rt.isConcurrent b.call = true ∧ a.position < b.position := by
  rw [List.pairwise_append]
  refine ⟨?_, h.onward.imp .inl, ?_⟩
  · apply h.inOrder.imp_of_mem
    intro a b ha hb hlt
    exact .inr ⟨h.isConcurrent a ha, h.isConcurrent b hb, hlt⟩
  · intro a ha b hb
    rcases h.gate with rfl | hgate
    · cases hb
    · exact .inl (hgate a ha)

/-- The audit is complete when every completed attempt comes before the first failure. -/
theorem audited_iff (h : Course rt calls concurrent exclusive) {w w' : World}
    (hrecorded : Recorded sessionId messageId ((concurrent ++ exclusive).takeWhile rt.succeeds)
      w w') :
    Audited sessionId messageId (concurrent ++ exclusive) w w' ↔
      ∀ a ∈ concurrent ++ exclusive, a.completed = true →
        a ∈ (concurrent ++ exclusive).takeWhile rt.succeeds := by
  have hnodup := h.nodup
  generalize concurrent ++ exclusive = attempts at *
  obtain ⟨records, hrecords, hall⟩ := hrecorded
  constructor
  · rintro ⟨records', hrecords', positions, hpositions, hown, hcompleted⟩ a ha hcomplete
    obtain rfl : records' = records := List.append_cancel_left (hrecords'.symm.trans hrecords)
    by_cases hcontinue : rt.policy.continueOnToolFailure = true
    · rwa [List.takeWhile_eq_self_iff.mpr fun b _ => succeeds_of_continue hcontinue b]
    · -- there are as many records as attempts before the failure, and all of these completed
      rw [Bool.not_eq_true] at hcontinue
      have hbefore : ∀ b ∈ attempts.takeWhile rt.succeeds, b.completed = true :=
        fun b hb => ((succeeds_iff hcontinue b).mp (List.mem_takeWhile_imp hb)).1
      have hsublist : (attempts.takeWhile rt.succeeds).Sublist
          (attempts.filter Attempt.completed) := by
        have hfilter :=
          (List.takeWhile_sublist rt.succeeds (l := attempts)).filter Attempt.completed
        rwa [List.filter_eq_self.mpr hbefore] at hfilter
      have hdistinct : ((attempts.filter Attempt.completed).map Attempt.position).Nodup :=
        hnodup.sublist (List.filter_sublist.map _)
      have hsubset : (attempts.filter Attempt.completed).map Attempt.position ⊆ positions := by
        intro i hi
        obtain ⟨b, hb, rfl⟩ := List.mem_map.mp hi
        exact hcompleted b (List.mem_of_mem_filter hb) (List.mem_filter.mp hb).2
      have hlength := (List.Nodup.subperm hdistinct hsubset).length_le
      rw [List.length_map, hown.length_eq, ← hall.length_eq] at hlength
      rw [hsublist.eq_of_length_le hlength]
      exact List.mem_filter.mpr ⟨ha, hcomplete⟩
  · intro hcompleted
    have hsublist := List.takeWhile_sublist rt.succeeds (l := attempts)
    refine ⟨records, hrecords, (attempts.takeWhile rt.succeeds).map Attempt.position,
      hnodup.sublist (hsublist.map _), ?_, ?_⟩
    · rw [List.forall₂_map_left_iff]
      apply List.Forall₂.imp _
        ((List.forall₂_and_left _ _).mpr ⟨fun a ha => hsublist.subset ha, hall⟩)
      rintro a e ⟨ha, hrecord⟩
      exact ⟨a, ha, rfl, hrecord⟩
    · intro a ha hcomplete
      exact List.mem_map_of_mem (hcompleted a ha hcomplete)

theorem complete_iff (h : Course rt calls concurrent exclusive) :
    (∀ a ∈ concurrent ++ exclusive, a.completed = true →
        a ∈ (concurrent ++ exclusive).takeWhile rt.succeeds) ↔
      Conclusive rt (concurrent ++ exclusive) := by
  have hordered := h.ordered
  have hbefore := h.before
  generalize concurrent ++ exclusive = attempts at *
  by_cases hcontinue : rt.policy.continueOnToolFailure = true
  · rw [List.takeWhile_eq_self_iff.mpr fun b _ => succeeds_of_continue hcontinue b]
    exact ⟨fun _ => .inl hcontinue, fun _ a ha _ => ha⟩
  · have hstop := Bool.not_eq_true _ ▸ hcontinue
    have hsplit := List.takeWhile_append_dropWhile (p := rt.succeeds) (l := attempts)
    simp only [Conclusive, hcontinue, false_or, Bool.false_eq_true]
    constructor
    · intro hcompleted
      constructor
      · intro a ha
        by_contra herrored
        rw [Bool.not_eq_false] at herrored
        have hcomplete : a.completed = true := Attempt.completed_of_errored herrored
        have hsucceeds := List.mem_takeWhile_imp (hcompleted a ha hcomplete)
        rw [succeeds_iff hstop, herrored] at hsucceeds
        cases hsucceeds.2
      · intro a ha b hb hca hcb hlt hcomplete
        have hb' := hcompleted b hb hcomplete
        rw [← hsplit, List.pairwise_append] at hordered
        rw [← hsplit, List.mem_append] at ha
        rcases ha with ha | ha
        · exact ((succeeds_iff hstop a).mp (List.mem_takeWhile_imp ha)).1
        · have hgt := hordered.2.2 b hb' a ha hcb hca
          omega
    · rintro ⟨herrored, hlate⟩ b hb hcomplete
      by_contra hnot
      -- the attempt, or one before it, is the first failure
      rw [← hsplit, List.mem_append] at hb
      have hdrop := hb.resolve_left hnot
      cases hlist : attempts.dropWhile rt.succeeds with
      | nil =>
        rw [hlist] at hdrop
        cases hdrop
      | cons first rest =>
        have hfails : ¬ rt.succeeds first = true := by
          have hhead := List.head_dropWhile_not rt.succeeds (l := attempts) (by simp [hlist])
          simpa [hlist] using hhead
        have hfirst : first ∈ attempts := by
          rw [← hsplit, hlist]
          simp
        have hincomplete : ¬ first.completed = true :=
          fun hc => hfails ((succeeds_iff hstop first).mpr ⟨hc, herrored first hfirst⟩)
        rw [hlist] at hdrop
        rcases List.mem_cons.mp hdrop with rfl | hrest
        · exact hincomplete hcomplete
        · rw [← hsplit, hlist, List.pairwise_append, List.pairwise_cons] at hbefore
          rcases hbefore.2.1.1 b hrest with hsucceeds | ⟨hca, hcb, hlt⟩
          · exact hfails hsucceeds
          · have hmem : b ∈ attempts := by
              rw [← hsplit, hlist]
              simp [hrest]
            exact hincomplete (hlate first hfirst b hmem hca hcb hlt hcomplete)

end Course

variable (host) (rt)

/-- **Whenever a batch returns, with its outcomes or with an error, and in whatever order its
concurrent calls complete, every call that was executed to completion has been recorded exactly
once, exactly when failures are turned into outcomes, or no tool returns an error and no
concurrent call that is rejected or runs out of time stands before one that completes**. -/
theorem audited_iff_conclusive (hstore : ∀ w, host.executionFault w = none)
    (order : List Indexed) (calls : List ToolCall)
    (horder : order.Perm (rt.concurrentGroup calls)) (sessionId messageId : Uuid) (w w' : World)
    (attempts : List Attempt) (r : Except RuntimeError (List ToolExecutionOutcome))
    (hrun : rt.auditBatch host order calls sessionId messageId w = .ok (attempts, r) w') :
    Audited sessionId messageId attempts w w' ↔ Conclusive rt attempts := by
  obtain ⟨concurrent, exclusive, hperm, hcourse, hrecorded⟩ :=
    wp_ok (wp_auditBatch (E := Fails fun _ _ => True) (fun _ => trivial) hstore horder w) hrun
  have haudited : Audited sessionId messageId attempts w w' ↔
      Audited sessionId messageId (concurrent ++ exclusive) w w' := by
    simp only [Audited, hperm.mem_iff]
  have hconclusive : Conclusive rt attempts ↔ Conclusive rt (concurrent ++ exclusive) := by
    simp only [Conclusive, hperm.mem_iff]
  rw [haudited, hconclusive, hcourse.audited_iff hrecorded, hcourse.complete_iff]

/-- Two tools that may run beside each other; "fail" returns an error. -/
def echoAndFail : ToolRegistry where
  tools :=
    [⟨⟨"fail", "", .null, none⟩, true, fun _ _ => .errored (.execution "fail" "boom")⟩,
      ⟨⟨"echo", "", .null, none⟩, true, fun _ arguments => .finished arguments⟩]

/-- The failing call stands before the other one. -/
def failThenEcho : List ToolCall := [⟨"a", "fail", .null⟩, ⟨"b", "echo", .null⟩]

/-- Both calls complete, the batch returns the error of the first, and neither is recorded. -/
theorem failThenEcho_unrecorded :
    let rt : ToolRuntime := ⟨echoAndFail, { continueOnToolFailure := false }⟩
    let w := World.ofSession 7 []
    ∃ attempts r w', rt.auditBatch .benign (rt.concurrentGroup failThenEcho) failThenEcho 7 1 w =
        .ok (attempts, r) w' ∧ r.isOk = false ∧ attempts.length = 2 ∧
      (∀ a ∈ attempts, a.completed = true) ∧ w'.executions = [] ∧ ¬ Audited 7 1 attempts w w' := by
  intro rt w
  have hcheck : okAnd (fun x w' => !x.2.isOk && (x.1.length == 2 &&
      (x.1.all Attempt.completed && w'.executions.isEmpty))) (rt.auditBatch .benign
        (rt.concurrentGroup failThenEcho) failThenEcho 7 1 w) = true := by decide +kernel
  obtain ⟨⟨attempts, r⟩, w', hrun, hpassed⟩ := exists_of_okAnd hcheck
  simp only [Bool.and_eq_true, Bool.not_eq_true', beq_iff_eq, List.all_eq_true,
    List.isEmpty_iff] at hpassed
  obtain ⟨hr, hlength, hcompleted, hexecutions⟩ := hpassed
  refine ⟨attempts, r, w', hrun, hr, hlength, hcompleted, hexecutions, ?_⟩
  rintro ⟨records, hrecords, positions, _, hown, hall⟩
  rw [hexecutions] at hrecords
  obtain rfl : records = [] := hrecords.symm
  obtain rfl : positions = [] := List.forall₂_nil_right_iff.mp hown
  cases attempts with
  | nil => cases hlength
  | cons a rest => cases hall a (by simp) (hcompleted a (by simp))

/-- The same batch where failures are turned into outcomes has both calls recorded. -/
theorem failThenEcho_recorded :
    let rt : ToolRuntime := ⟨echoAndFail, { continueOnToolFailure := true }⟩
    let w := World.ofSession 7 []
    ∃ attempts r w', rt.auditBatch .benign (rt.concurrentGroup failThenEcho) failThenEcho 7 1 w =
        .ok (attempts, r) w' ∧ attempts.length = 2 ∧ Audited 7 1 attempts w w' := by
  intro rt w
  have hcheck : okAnd (fun x _ => x.1.length == 2) (rt.auditBatch .benign
      (rt.concurrentGroup failThenEcho) failThenEcho 7 1 w) = true := by decide +kernel
  obtain ⟨⟨attempts, r⟩, w', hrun, hlength⟩ := exists_of_okAnd hcheck
  have hiff := audited_iff_conclusive .benign rt (fun _ => rfl) (rt.concurrentGroup failThenEcho)
    failThenEcho (.refl _) 7 1 w w' attempts r hrun
  exact ⟨attempts, r, w', hrun, beq_iff_eq.mp hlength, hiff.mpr (.inl rfl)⟩

end ToolRuntime

end Behest
