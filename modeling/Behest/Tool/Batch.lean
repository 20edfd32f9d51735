import Mathlib.Data.List.Forall2
import Behest.Tool.Runtime

/-!
# Every call of a batch is answered

A batch that returns gives one outcome for each call, in the order of the calls, and the
outcome's message is a tool message with the identifier and the name of its call. A batch
never panics, and touches nothing but the transcript and the execution store.
-/

namespace Behest

open Effect

/-- The outcome of the call, with a message that answers it. -/
structure Answers (call : ToolCall) (outcome : ToolExecutionOutcome) : Prop where
  call_eq : outcome.call = call
  message_eq : ∃ content, outcome.message = .tool call.id call.name content

/-- The outcomes of some calls are those of their own calls. -/
theorem answers_call {calls : List ToolCall} {outcomes : List ToolExecutionOutcome}
    (h : List.Forall₂ Answers calls outcomes) :
    outcomes.map ToolExecutionOutcome.call = calls ∧ ∀ o ∈ outcomes, Answers o.call o := by
  induction h with
  | nil => exact ⟨rfl, by simp⟩
  | @cons call outcome _ _ ho _ ih =>
    have hcall := ho.call_eq
    refine ⟨by rw [List.map_cons, hcall, ih.1], ?_⟩
    intro o hmem
    rcases List.mem_cons.mp hmem with rfl | hmem
    · exact hcall.symm ▸ ho
    · exact ih.2 o hmem

namespace ToolRuntime

variable {host : Host} {rt : ToolRuntime} {E : Stop → World → Prop}

theorem answers_failed (call : ToolCall) (e : ToolError) (text : String) :
    Answers call (.failed call e text) := ⟨rfl, _, rfl⟩

theorem answers_failedOutcome {call : ToolCall} {e : ToolError} {text : String}
    {thrown : RuntimeError} {outcome : ToolExecutionOutcome}
    (h : rt.failedOutcome call e text thrown = .ok outcome) : Answers call outcome := by
  unfold failedOutcome at h
  split at h
  · cases h
    exact answers_failed call e text
  · cases h

theorem answers_outcomeOf {call : ToolCall} {answer : ToolAnswer} {outcome : ToolExecutionOutcome}
    (h : rt.outcomeOf call answer = .ok outcome) : Answers call outcome := by
  cases answer with
  | finished value =>
    cases h
    exact ⟨rfl, _, rfl⟩
  | errored e => exact answers_failedOutcome h
  | elapsed => exact answers_failedOutcome h

theorem wp_executeSingle [Tolerant E] (call : ToolCall) (w : World) :
    wp (rt.executeSingle host call) (fun r _ => ∀ outcome, r = .ok outcome → Answers call outcome)
      E w := by
  unfold executeSingle
  split
  · exact fun outcome h => answers_failedOutcome h
  · split
    · exact fun outcome h => answers_failedOutcome h
    · simp only [wp_bind, wp_get]
      apply wp_perform
      exact fun outcome h => answers_outcomeOf h

/-! ### What a batch performs -/

section Performs

variable {K : Action → Prop}

/-- The actions of a batch. -/
structure BatchActions (K : Action → Prop) : Prop where
  drew : K .drew
  toolCalled (call : ToolCall) : K (.toolCalled call)
  recorded (execution : ToolExecution) (fault : Option StorageError) :
    K (.recordedExecution execution fault)

theorem performs_executeSingle (hK : BatchActions K) (call : ToolCall) :
    Performs K (rt.executeSingle host call) := by
  unfold executeSingle
  split
  · exact performs_pure _
  · split
    · exact performs_pure _
    · apply performs_bind performs_get
      intro w
      exact performs_bind (performs_perform (hK.toolCalled call)) fun _ => performs_pure _

theorem performs_recordExecution (hK : BatchActions K) (sessionId messageId : Uuid)
    (outcome : ToolExecutionOutcome) :
    Performs K (recordExecution host sessionId messageId outcome) := by
  apply performs_bind (performs_newId hK.drew)
  intro id
  apply performs_bind (performs_readClock hK.drew)
  intro createdAt
  apply performs_bind performs_get
  intro w
  exact performs_perform (hK.recorded _ _)

theorem performs_runConcurrent (hK : BatchActions K) (group : List Indexed) :
    Performs K (rt.runConcurrent host group) := by
  apply performs_mapM
  intro entry
  exact performs_bind (performs_executeSingle hK entry.2) fun _ => performs_pure _

theorem performs_settleConcurrent (hK : BatchActions K) (sessionId messageId : Uuid)
    (results : List (Nat × Except RuntimeError ToolExecutionOutcome)) :
    Performs K (settleConcurrent host sessionId messageId results) := by
  apply performs_mapM
  intro entry
  cases entry.2 with
  | error e => exact performs_fail e
  | ok outcome =>
    exact performs_bind (performs_recordExecution hK _ _ outcome) fun _ => performs_pure _

theorem performs_runExclusive (hK : BatchActions K) (sessionId messageId : Uuid)
    (group : List Indexed) : Performs K (rt.runExclusive host sessionId messageId group) := by
  apply performs_mapM
  intro entry
  apply performs_bind (performs_executeSingle hK entry.2)
  intro result
  cases result with
  | error e => exact performs_fail e
  | ok outcome =>
    exact performs_bind (performs_recordExecution hK _ _ outcome) fun _ => performs_pure _

end Performs

/-! ### The outcomes by position -/

/-- The result at a position answers the call at that position. -/
def AnswersAt (entry : Indexed) (result : Nat × ToolExecutionOutcome) : Prop :=
  result.1 = entry.1 ∧ Answers entry.2 result.2

theorem wp_runConcurrent [Tolerant E] (group : List Indexed) (w : World) :
    wp (rt.runConcurrent host group) (fun results _ => List.Forall₂
      (fun entry r => r.1 = entry.1 ∧ ∀ outcome, r.2 = .ok outcome → Answers entry.2 outcome)
      group results) E w := by
  apply wp_mapM_forall₂
  intro entry s
  rw [wp_bind]
  apply wp_mono (wp_executeSingle entry.2 s) _ fun _ _ he => he
  exact fun result s' h => ⟨rfl, h⟩

theorem wp_recorded [Tolerant E] {sessionId messageId : Uuid} {outcome : ToolExecutionOutcome}
    {w : World} {Q : Unit → World → Prop} (h : ∀ w', Q () w') :
    wp (recordExecution host sessionId messageId outcome) Q E w := by
  unfold recordExecution
  simp only [wp_bind, wp_get]
  apply wp_newId
  intro id
  apply wp_readClock
  intro createdAt
  apply wp_perform
  exact h _

theorem wp_settleConcurrent [Tolerant E] (hE : ∀ e w, E (.failed e) w) (sessionId messageId : Uuid)
    {group : List Indexed} {results : List (Nat × Except RuntimeError ToolExecutionOutcome)}
    (h : List.Forall₂
      (fun entry r => r.1 = entry.1 ∧ ∀ outcome, r.2 = .ok outcome → Answers entry.2 outcome)
      group results) (w : World) :
    wp (settleConcurrent host sessionId messageId results)
      (fun settled _ => List.Forall₂ AnswersAt group settled) E w := by
  induction h generalizing w with
  | nil => exact .nil
  | @cons entry r _ _ hr _ ih =>
    unfold settleConcurrent
    rw [List.mapM_cons, wp_bind]
    obtain ⟨i, result⟩ := r
    cases result with
    | error e => exact hE e w
    | ok outcome =>
      rw [wp_bind]
      apply wp_recorded
      intro w'
      rw [wp_pure, wp_bind]
      apply wp_mono (ih w') _ fun _ _ he => he
      intro settled w'' hsettled
      exact .cons ⟨hr.1, hr.2 outcome rfl⟩ hsettled

theorem wp_runExclusive [Tolerant E] (hE : ∀ e w, E (.failed e) w) (sessionId messageId : Uuid)
    (group : List Indexed) (w : World) :
    wp (rt.runExclusive host sessionId messageId group)
      (fun results _ => List.Forall₂ AnswersAt group results) E w := by
  apply wp_mapM_forall₂
  intro entry s
  rw [wp_bind]
  apply wp_mono (wp_executeSingle entry.2 s) _ fun _ _ he => he
  intro result s' h
  cases result with
  | error e => exact hE e s'
  | ok outcome =>
    rw [wp_bind]
    apply wp_recorded
    exact fun w' => ⟨rfl, h outcome rfl⟩

/-- Reading a function at every element, when it is defined there. -/
private theorem mapM_some {α β : Type} {f : α → Option β} {R : α → β → Prop} {xs : List α}
    (h : ∀ x ∈ xs, ∃ y, f x = some y ∧ R x y) :
    ∃ ys, xs.mapM f = some ys ∧ List.Forall₂ R xs ys := by
  induction xs with
  | nil => exact ⟨[], rfl, .nil⟩
  | cons x rest ih =>
    obtain ⟨y, hy, hR⟩ := h x (by simp)
    obtain ⟨ys, hys, hall⟩ := ih fun a ha => h a (by simp [ha])
    exact ⟨y :: ys, by simp [hy, hys], .cons hR hall⟩

/-- Results that answer every position, each with its own call, are read back in order. -/
theorem inOrder_answers {calls : List ToolCall} {results : List (Nat × ToolExecutionOutcome)}
    (hall : ∀ i < calls.length, ∃ r ∈ results, r.1 = i)
    (hown : ∀ r ∈ results, ∃ call, calls[r.1]? = some call ∧ Answers call r.2) :
    ∃ outcomes, inOrder calls.length results = some outcomes ∧
      List.Forall₂ Answers calls outcomes := by
  have hread : ∀ i ∈ List.range calls.length, ∃ outcome,
      (results.find? fun r => r.1 == i).map Prod.snd = some outcome ∧
        ∃ call, calls[i]? = some call ∧ Answers call outcome := by
    intro i hi
    obtain ⟨r, hr, hri⟩ := hall i (List.mem_range.mp hi)
    cases hfind : results.find? fun r => r.1 == i with
    | none => simpa [hri] using List.find?_eq_none.mp hfind r hr
    | some found =>
      have hfi : found.1 = i := by simpa using List.find?_some hfind
      obtain ⟨call, hcall, hans⟩ := hown found (List.mem_of_find?_eq_some hfind)
      exact ⟨found.2, rfl, call, hfi ▸ hcall, hans⟩
  obtain ⟨outcomes, houtcomes, hforall⟩ := mapM_some hread
  refine ⟨outcomes, houtcomes, ?_⟩
  rw [List.forall₂_iff_get] at hforall ⊢
  obtain ⟨hlen, hget⟩ := hforall
  rw [List.length_range] at hlen
  refine ⟨hlen, ?_⟩
  intro i hi hi'
  obtain ⟨call, hcall, hans⟩ := hget i (by simpa using hi) hi'
  simp only [List.get_eq_getElem, List.getElem_range] at hcall hans ⊢
  rw [List.getElem?_eq_getElem hi, Option.some.injEq] at hcall
  rw [hcall]
  exact hans

theorem exists_right {α β : Type} {R : α → β → Prop} {xs : List α} {ys : List β}
    (h : List.Forall₂ R xs ys) {x : α} (hx : x ∈ xs) : ∃ y ∈ ys, R x y := by
  induction h with
  | nil => cases hx
  | cons hR _ ih =>
    rcases List.mem_cons.mp hx with rfl | hx
    · exact ⟨_, List.mem_cons_self, hR⟩
    · obtain ⟨y, hy, hxy⟩ := ih hx
      exact ⟨y, List.mem_cons_of_mem _ hy, hxy⟩

theorem mem_indexed {calls : List ToolCall} {entry : Indexed} :
    entry ∈ calls.zipIdx.map Prod.swap ↔ calls[entry.1]? = some entry.2 := by
  rw [List.mem_map]
  constructor
  · rintro ⟨p, hp, rfl⟩
    exact List.mem_zipIdx_iff_getElem?.mp hp
  · intro h
    exact ⟨entry.swap, List.mem_zipIdx_iff_getElem?.mpr h, Prod.swap_swap entry⟩

/-- **A batch answers every call in order**, performs only batch actions and never panics. -/
theorem wp_executeBatch {K : Action → Prop} (hK : BatchActions K) (calls : List ToolCall)
    (sessionId messageId : Uuid) (w : World) :
    wp (rt.executeBatch host calls sessionId messageId)
      (fun outcomes w' => List.Forall₂ Answers calls outcomes ∧ Reaches K w w')
      (fun e w' => e.Clean ∧ Reaches K w w') w := by
  have hclean : ∀ e w, (fun (s : Stop) (_ : World) => s.Clean) (.failed e) w := fun _ _ => trivial
  unfold executeBatch
  simp only [wp_bind]
  generalize hconc : (calls.zipIdx.map Prod.swap).filter (fun entry => rt.isConcurrent entry.2) =
    concurrentGroup
  generalize hexcl : (calls.zipIdx.map Prod.swap).filter (fun entry => !rt.isConcurrent entry.2) =
    exclusiveGroup
  apply wp_mono (wp_and (performs_runConcurrent hK concurrentGroup w)
    (wp_runConcurrent (E := fun e _ => e.Clean) concurrentGroup w)) _ fun _ _ he => he.1
  rintro results w₁ ⟨hr₁, hresults⟩
  apply wp_mono (wp_and (performs_settleConcurrent hK sessionId messageId results w₁)
    (wp_settleConcurrent (E := fun e _ => e.Clean) hclean sessionId messageId hresults w₁)) _
    fun _ _ he => ⟨he.1.1, hr₁.trans he.1.2⟩
  rintro settled w₂ ⟨hr₂, hsettled⟩
  apply wp_mono (wp_and (performs_runExclusive hK sessionId messageId exclusiveGroup w₂)
    (wp_runExclusive (E := fun e _ => e.Clean) hclean sessionId messageId exclusiveGroup w₂)) _
    fun _ _ he => ⟨he.1.1, (hr₁.trans hr₂).trans he.1.2⟩
  rintro exclusive w₃ ⟨hr₃, hexclusive⟩
  have hboth : List.Forall₂ AnswersAt (concurrentGroup ++ exclusiveGroup) (settled ++ exclusive) :=
    List.rel_append hsettled hexclusive
  have hall : ∀ i < calls.length, ∃ r ∈ settled ++ exclusive, r.1 = i := by
    intro i hi
    have hmem : (i, calls.get ⟨i, hi⟩) ∈ concurrentGroup ++ exclusiveGroup := by
      have hentry : (i, calls.get ⟨i, hi⟩) ∈ calls.zipIdx.map Prod.swap :=
        mem_indexed.mpr (List.getElem?_eq_getElem hi)
      rw [← hconc, ← hexcl, List.mem_append, List.mem_filter, List.mem_filter]
      cases rt.isConcurrent (calls.get ⟨i, hi⟩) with
      | true => exact .inl ⟨hentry, rfl⟩
      | false => exact .inr ⟨hentry, rfl⟩
    obtain ⟨r, hr, hri, -⟩ := exists_right hboth hmem
    exact ⟨r, hr, hri⟩
  have hown : ∀ r ∈ settled ++ exclusive, ∃ call, calls[r.1]? = some call ∧ Answers call r.2 := by
    intro r hr
    obtain ⟨entry, hentry, hri, hans⟩ := exists_right hboth.flip hr
    have hmem : entry ∈ calls.zipIdx.map Prod.swap := by
      rw [← hconc, ← hexcl, List.mem_append, List.mem_filter, List.mem_filter] at hentry
      exact hentry.elim And.left And.left
    exact ⟨entry.2, hri ▸ mem_indexed.mp hmem, hans⟩
  obtain ⟨outcomes, houtcomes, hans⟩ := inOrder_answers hall hown
  simp only [houtcomes, wp_pure]
  exact ⟨hans, (hr₁.trans hr₂).trans hr₃⟩

end ToolRuntime

end Behest
