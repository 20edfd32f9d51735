import Behest.Compaction.Spec
import Behest.Runtime.Refinement

/-!
# The limits of a policy over a whole run

A ledger of what a transcript amounts to: the entries into the section that calls the model,
the usage the model reported, the prompts to continue. The variables of the turn loop keep
that ledger, so what the policy check reads off them is what the run has really spent.
-/

namespace Behest

open Effect Compaction

namespace Message

/-- A user message with this text. -/
def reads (text : String) : Message → Bool
  | .user [.text t none] => t == text
  | _ => false

end Message

/-- The announcement of a model call. -/
def AgentEvent.isModelStarted : AgentEvent → Bool
  | .modelStarted _ _ _ _ => true
  | _ => false

/-- What an entry into the section that calls the model shows, in this order: the snapshot,
the status, the announcement, and the answer. -/
inductive Entry where
  | saved
  | marked
  | announced
  | answered
deriving DecidableEq

namespace Action

/-- A sign of an entry into the section that calls the model. -/
def enters : Entry → Action → Bool
  | .saved, snapshot (.save s) _ => s.currentState == .callingModel
  | .marked, run (.updateRunStatus _ status) _ => status == .callingModel
  | .announced, emitted event => event.isModelStarted
  | .answered, modelAnswered _ _ _ => true
  | _, _ => false

/-- The usage a model call reported. -/
def reported : Action → Option TokenUsage
  | modelAnswered _ _ (.ok answer) => answer.usage
  | _ => none

/-- The model answered with a user message that has this text. -/
def answers (text : String) : Action → Bool
  | modelAnswered _ _ (.ok answer) => answer.message.reads text
  | _ => false

/-- A user message with this text was stored. -/
def stores (text : String) : Action → Bool
  | session (.appendMessage r) none => r.isOrdinary && (recordToMessage r).reads text
  | _ => false

end Action

/-- The merged usage of the model calls of a transcript. -/
def spent (as : List Action) : TokenUsage :=
  (as.filterMap Action.reported).foldl .merge (.new 0 0)

/-- The usage after one more report. -/
def TokenUsage.mergeOpt (a : TokenUsage) : Option TokenUsage → TokenUsage
  | some b => a.merge b
  | none => a

/-- The budget of the policy is not used up. -/
def RuntimePolicy.Affords (policy : RuntimePolicy) (usage : TokenUsage) : Prop :=
  ∀ budget, policy.maxTokens = some budget → usage.totalTokens < budget

/-- The limits of a policy on a run that was asked the input. A stored message that reads
like the prompt to continue may also be the input itself, or a response. -/
structure WithinLimits (policy : RuntimePolicy) (input : String) (as : List Action) : Prop where
  entries : ∀ e, as.countP (Action.enters e) ≤ policy.maxIterations
  budget : ∀ before a after, as = before ++ a :: after → (∃ e, a.enters e = true) →
    policy.Affords (spent before)
  prompts : as.countP (Action.stores continuationPrompt) ≤ policy.maxOutputRecoveryAttempts +
    ((Message.userText input).reads continuationPrompt).toNat +
    as.countP (Action.answers continuationPrompt)

/-! ### Ledgers -/

/-- What a transcript may amount to; a message that reads like the prompt to continue and is
not stored yet is owed. -/
structure Ledger where
  entries : Entry → Nat
  usage : TokenUsage
  recoveries : Nat
  owed : Nat

/-- The variables of the loop as a ledger. -/
def LoopState.ledger (l : LoopState) (entries owed : Nat) : Ledger :=
  ⟨fun _ => entries, l.totalUsage, l.outputRecoveryCount, owed⟩

/-- A loop that starts with the policy check is already back at it. -/
theorem LoopState.checking_eq {l : LoopState} (h : l.resumeFrom = .checkingPolicy) :
    { l with resumeFrom := .checkingPolicy } = l := by
  cases l
  cases h
  rfl

@[simp] theorem spent_nil : spent [] = .new 0 0 := rfl

theorem spent_snoc (as : List Action) (a : Action) :
    spent (as ++ [a]) = (spent as).mergeOpt a.reported := by
  unfold spent
  rw [List.filterMap_append, List.foldl_append]
  cases h : a.reported <;> simp [h, TokenUsage.mergeOpt]

namespace Ledger

variable {policy : RuntimePolicy} {input : String} {k k' : Ledger} {as : List Action} {a : Action}

/-- The transcript amounts to no more than the ledger, and the ledger keeps to the policy. -/
structure Covers (policy : RuntimePolicy) (input : String) (k : Ledger) (as : List Action) :
    Prop where
  bounded : ∀ e, k.entries e ≤ policy.maxIterations
  recoveries : k.recoveries ≤ policy.maxOutputRecoveryAttempts
  entries : ∀ e, as.countP (Action.enters e) ≤ k.entries e
  usage : spent as = k.usage
  prompts : as.countP (Action.stores continuationPrompt) + k.owed ≤ k.recoveries +
    ((Message.userText input).reads continuationPrompt).toNat +
    as.countP (Action.answers continuationPrompt)
  budget : ∀ before a after, as = before ++ a :: after → (∃ e, a.enters e = true) →
    policy.Affords (spent before)

theorem Covers.withinLimits (h : k.Covers policy input as) : WithinLimits policy input as where
  entries e := (h.entries e).trans (h.bounded e)
  budget := h.budget
  prompts := by
    have hprompts := h.prompts
    have hrecoveries := h.recoveries
    omega

/-- One more action. -/
theorem Covers.snoc (h : k.Covers policy input as)
    (hbounded : ∀ e, k'.entries e ≤ policy.maxIterations)
    (hrecoveries : k'.recoveries ≤ policy.maxOutputRecoveryAttempts)
    (hentries : ∀ e, k.entries e + (a.enters e).toNat ≤ k'.entries e)
    (husage : k.usage.mergeOpt a.reported = k'.usage)
    (hprompts : (a.stores continuationPrompt).toNat + k'.owed + k.recoveries ≤
      k.owed + k'.recoveries + (a.answers continuationPrompt).toNat)
    (hbudget : (∃ e, a.enters e = true) → policy.Affords k.usage) :
    k'.Covers policy input (as ++ [a]) where
  bounded := hbounded
  recoveries := hrecoveries
  entries e := by
    have hbefore := h.entries e
    have hnow := hentries e
    rw [List.countP_append, List.countP_singleton]
    cases ha : a.enters e <;> simp [ha] at hnow ⊢ <;> omega
  usage := by rw [spent_snoc, h.usage, husage]
  prompts := by
    have hbefore := h.prompts
    rw [List.countP_append, List.countP_append, List.countP_singleton, List.countP_singleton]
    cases hs : a.stores continuationPrompt <;> cases hm : a.answers continuationPrompt <;>
      simp [hs, hm] at hprompts ⊢ <;> omega
  budget := by
    intro before b after hsplit hb
    rcases List.eq_nil_or_concat after with rfl | ⟨after', c, rfl⟩
    · obtain ⟨rfl, hab⟩ := List.append_inj' hsplit rfl
      cases hab
      exact h.usage ▸ hbudget hb
    · have hsplit' : as ++ [a] = (before ++ b :: after') ++ [c] := by simpa using hsplit
      obtain ⟨hbefore, _⟩ := List.append_inj' hsplit' rfl
      exact h.budget before b after' hbefore hb

end Ledger

/-! ### Programs under a ledger -/

/-- The transcript since a world amounts to no more than the ledger. -/
def Ledger.Books (policy : RuntimePolicy) (input : String) (w₀ : World) (k : Ledger) (w : World) :
    Prop :=
  ∃ as, w.trace = w₀.trace ++ as ∧ k.Covers policy input as

/-- However the program stopped, some ledger covers what it did. -/
def Obeys (policy : RuntimePolicy) (input : String) (w₀ : World) (_ : Stop) (w : World) : Prop :=
  ∃ k : Ledger, k.Books policy input w₀ w

/-- An action that no ledger counts. -/
structure Action.Uncounted (a : Action) : Prop where
  enters (e : Entry) : a.enters e = false
  stores : a.stores continuationPrompt = false

namespace Action.Uncounted

variable {a : Action}

theorem answers (h : a.Uncounted) (text : String) : a.answers text = false := by
  cases a with
  | modelAnswered iteration request answer => exact absurd (h.enters .answered) nofun
  | _ => rfl

theorem reported (h : a.Uncounted) : a.reported = none := by
  cases a with
  | modelAnswered iteration request answer => exact absurd (h.enters .answered) nofun
  | _ => rfl

theorem emitted {event : AgentEvent} (h : event.isModelStarted = false) :
    (Action.emitted event).Uncounted where
  enters e := by
    cases e with
    | announced => exact h
    | _ => rfl
  stores := rfl

theorem status {id : Uuid} {status : RunStatus} {fault : Option RuntimeError}
    (h : status ≠ .callingModel) : (Action.run (.updateRunStatus id status) fault).Uncounted where
  enters e := by
    cases e with
    | marked => exact beq_false_of_ne h
    | _ => rfl
  stores := rfl

theorem save {s : Snapshot} {fault : Option RuntimeError} (h : s.currentState ≠ .callingModel) :
    (Action.snapshot (.save s) fault).Uncounted where
  enters e := by
    cases e with
    | saved => exact beq_false_of_ne h
    | _ => rfl
  stores := rfl

theorem append {r : MessageRecord} {fault : Option StorageError}
    (h : (r.isOrdinary && (recordToMessage r).reads continuationPrompt) = false) :
    (Action.session (.appendMessage r) fault).Uncounted where
  enters e := by cases e <;> rfl
  stores := by
    cases fault with
    | none => exact h
    | some e => rfl

end Action.Uncounted

theorem uncounted_drew : Action.drew.Uncounted := ⟨fun e => by cases e <;> rfl, rfl⟩

theorem batchActions_uncounted : ToolRuntime.BatchActions Action.Uncounted where
  drew := uncounted_drew
  toolCalled _ := ⟨fun e => by cases e <;> rfl, rfl⟩
  recorded _ _ := ⟨fun e => by cases e <;> rfl, rfl⟩

theorem callActions_uncounted (runId : Uuid) :
    AgentRuntime.CallActions runId Action.Uncounted where
  requested _ _ _ := ⟨fun e => by cases e <;> rfl, rfl⟩
  textDelta _ := .emitted rfl
  toolCallStarted _ _ := .emitted rfl
  toolCallDelta _ _ := .emitted rfl
  toolCallCompleted _ := .emitted rfl

theorem compactionActions_uncounted (sessionId : Uuid) :
    CompactionActions sessionId Action.Uncounted where
  drew := uncounted_drew
  latest _ := ⟨fun e => by cases e <;> rfl, rfl⟩
  requested _ _ := ⟨fun e => by cases e <;> rfl, rfl⟩
  written r fault h := .append (by rw [h.flagged, Bool.false_and])

section Rules

variable {policy : RuntimePolicy} {input : String} {w₀ w : World} {k k' : Ledger} {a : Action}

theorem Ledger.Books.obeys (h : k.Books policy input w₀ w) (e : Stop) :
    Obeys policy input w₀ e w := ⟨k, h⟩

theorem Ledger.Books.fail {α : Type} {e : RuntimeError} {Q : α → World → Prop}
    (h : k.Books policy input w₀ w) : wp (fail e : M α) Q (Obeys policy input w₀) w :=
  h.obeys (.failed e)

/-- An action that is not counted leaves the ledger as it is. -/
theorem Ledger.Books.uncounted (h : k.Books policy input w₀ w) (ha : a.Uncounted) :
    k.Books policy input w₀ (w.apply a) := by
  obtain ⟨as, htrace, hcovers⟩ := h
  refine ⟨as ++ [a], by rw [World.apply_trace, htrace, List.append_assoc], ?_⟩
  apply hcovers.snoc hcovers.bounded hcovers.recoveries
  · intro e
    rw [ha.enters e, Bool.toNat_false, Nat.add_zero]
  · rw [ha.reported]
    rfl
  · rw [ha.stores, ha.answers, Bool.toNat_false]
    omega
  · intro ⟨e, he⟩
    rw [ha.enters e] at he
    cases he

theorem Ledger.Books.reaches {w' : World} (h : k.Books policy input w₀ w)
    (hr : Reaches Action.Uncounted w w') : k.Books policy input w₀ w' := by
  have hstep : ∀ t a, a.Uncounted → k.Books policy input w₀ t →
      k.Books policy input w₀ (t.apply a) := fun t a ha ht => ht.uncounted ha
  exact hr.invariant _ hstep h

/-- A program that performs no counted action leaves the ledger as it is. -/
theorem wp_uncounted {α : Type} {x : M α} {Q : α → World → Prop}
    (h : k.Books policy input w₀ w) (hx : Performs Action.Uncounted x)
    (hQ : ∀ a w', k.Books policy input w₀ w' → Q a w') : wp x Q (Obeys policy input w₀) w := by
  apply hx.wp
  · exact fun a w' hr => hQ a w' (h.reaches hr)
  · exact fun e w' _ hr => (h.reaches hr).obeys e

/-- More entries may be booked than were seen. -/
theorem Ledger.Books.mono {entries : Entry → Nat} (h : k.Books policy input w₀ w)
    (hle : ∀ e, k.entries e ≤ entries e) (hbounded : ∀ e, entries e ≤ policy.maxIterations) :
    { k with entries := entries }.Books policy input w₀ w := by
  obtain ⟨as, htrace, hcovers⟩ := h
  exact ⟨as, htrace, hbounded, hcovers.recoveries, fun e => (hcovers.entries e).trans (hle e),
    hcovers.usage, hcovers.prompts, hcovers.budget⟩

/-- A sign of an entry that was still free. -/
theorem Ledger.Books.enter (h : k.Books policy input w₀ w) (entry : Entry)
    (henters : ∀ e, a.enters e = decide (e = entry)) (hanswered : entry ≠ .answered)
    (hstores : a.stores continuationPrompt = false)
    (hfree : k.entries entry + 1 ≤ policy.maxIterations) (haffords : policy.Affords k.usage) :
    { k with entries := Function.update k.entries entry (k.entries entry + 1) }.Books policy input
      w₀ (w.apply a) := by
  have hother : a.enters .answered = false := by
    rw [henters, decide_eq_false fun h => hanswered h.symm]
  obtain ⟨as, htrace, hcovers⟩ := h
  refine ⟨as ++ [a], by rw [World.apply_trace, htrace, List.append_assoc], ?_⟩
  apply hcovers.snoc
  · intro e
    by_cases he : e = entry
    · simpa [he] using hfree
    · simpa [Function.update_of_ne he] using hcovers.bounded e
  · exact hcovers.recoveries
  · intro e
    by_cases he : e = entry
    · simp [henters, he]
    · simp [henters, he]
  · cases a with
    | modelAnswered iteration request answer => cases hother
    | _ => rfl
  · have hanswers : a.answers continuationPrompt = false := by
      cases a with
      | modelAnswered iteration request answer => cases hother
      | _ => rfl
    rw [hstores, hanswers]
    simp
  · exact fun _ => haffords

/-- The answer of a model call: its usage is spent, and its message is owed. -/
theorem Ledger.Books.answered {iteration : Nat} {request : ChatRequest}
    {answer : Except RuntimeError ModelAnswer} (h : k.Books policy input w₀ w)
    (howed : k.owed = 0) (hfree : k.entries .answered + 1 ≤ policy.maxIterations)
    (haffords : policy.Affords k.usage) :
    let a := Action.modelAnswered iteration request answer
    Ledger.Books policy input w₀ {
      entries := Function.update k.entries .answered (k.entries .answered + 1)
      usage := k.usage.mergeOpt a.reported
      recoveries := k.recoveries
      owed := (a.answers continuationPrompt).toNat } (w.apply a) := by
  intro a
  obtain ⟨as, htrace, hcovers⟩ := h
  refine ⟨as ++ [a], by rw [World.apply_trace, htrace, List.append_assoc], ?_⟩
  apply hcovers.snoc
  · intro e
    by_cases he : e = .answered
    · simpa [he] using hfree
    · simpa [Function.update_of_ne he] using hcovers.bounded e
  · exact hcovers.recoveries
  · intro e
    cases e <;> simp [a, Action.enters]
  · rfl
  · rw [howed]
    simp only [a, Action.stores, Bool.toNat_false]
    omega
  · exact fun _ => haffords

/-- A message is stored: one that was owed, or one more prompt to continue. -/
theorem wp_appendMessage_books {host : Host} {sessionId : Uuid} {message : Message}
    {Q : Uuid → World → Prop} (h : k.Books policy input w₀ w) (recoveries owed : Nat)
    (hrecoveries : recoveries ≤ policy.maxOutputRecoveryAttempts)
    (hprompts : (message.reads continuationPrompt).toNat + owed + k.recoveries ≤
      k.owed + recoveries)
    (hQ : ∀ id w', { k with recoveries := recoveries, owed := owed }.Books policy input w₀ w' →
      Q id w') :
    wp (host.appendMessage sessionId message) Q (Obeys policy input w₀) w := by
  unfold Host.appendMessage
  rw [wp_bind]
  apply wp_uncounted h (performs_newId uncounted_drew)
  intro id w₁ h
  rw [wp_bind]
  apply wp_uncounted h (performs_readClock uncounted_drew)
  intro createdAt w₂ h
  rw [wp_bind]
  apply wp_onSession_crash
  · intro e
    have h' : k.Books policy input w₀ (w₂.apply (.session
        (.appendMessage (messageToRecord id createdAt sessionId message)) (some e))) :=
      h.uncounted ⟨fun e => by cases e <;> rfl, rfl⟩
    exact ⟨h'.obeys _, h'.obeys _⟩
  · intro _
    obtain ⟨as, htrace, hcovers⟩ := h
    have h' : { k with recoveries := recoveries, owed := owed }.Books policy input w₀
        (w₂.apply (.session
          (.appendMessage (messageToRecord id createdAt sessionId message)) none)) := by
      refine ⟨as ++ [_], by rw [World.apply_trace, htrace, List.append_assoc], ?_⟩
      apply hcovers.snoc
      · exact hcovers.bounded
      · exact hrecoveries
      · intro e
        cases e <;> exact Nat.le_refl _
      · rfl
      · simpa [Action.stores, Action.answers] using hprompts
      · rintro ⟨e, he⟩
        cases e <;> cases he
    exact ⟨h'.obeys _, hQ id _ h'⟩

end Rules

/-! ### The sections of a pass -/

namespace AgentRuntime

variable {host : Host} {rt : AgentRuntime} {ctx : RunContext} {input : String} {w₀ w : World}
  {k : Ledger} {l : LoopState}

theorem performs_updateStatus {runId : Uuid} {status : RunStatus} (h : status ≠ .callingModel) :
    Performs Action.Uncounted (updateStatus host runId status) :=
  performs_onRun fun _ => .status h

/-- Entering any other section is not counted. -/
theorem performs_enter {state : TurnState} (h : TurnTransition.statusFor state ≠ .callingModel) :
    Performs Action.Uncounted (enter host rt ctx l state) := by
  have hstate : state ≠ .callingModel := by
    rintro rfl
    exact h rfl
  apply performs_bind _ fun _ => performs_updateStatus h
  unfold saveSnapshot
  apply performs_ite _ (performs_pure _)
  apply performs_bind (performs_readClock uncounted_drew)
  intro timestamp
  exact performs_onSnapshot fun _ => .save hstate

theorem performs_failRun {runId : Uuid} {e : RuntimeError} :
    Performs Action.Uncounted (failRun host runId e) := by
  have hfailed : RunStatus.failed ≠ .callingModel := nofun
  apply performs_bind (performs_caught (performs_updateStatus hfailed))
  exact fun _ => performs_emit (.emitted rfl)

theorem performs_emitCacheMetrics {runId : Uuid} {usage : TokenUsage} :
    Performs Action.Uncounted (emitCacheMetrics host runId usage) := by
  unfold emitCacheMetrics
  apply performs_ite (performs_pure _)
  apply performs_bind (performs_emit (.emitted rfl))
  intro _
  apply performs_forM
  intro store
  apply performs_bind performs_get
  exact fun w => performs_perform ⟨fun e => by cases e <;> rfl, rfl⟩

theorem performs_observed {α : Type} {x : M α} {entry : Except RuntimeError α → Action}
    (hx : Performs Action.Uncounted x) (hentry : ∀ r, (entry r).Uncounted) :
    Performs Action.Uncounted (observed host x entry) := by
  apply performs_bind (performs_caught hx)
  intro r
  exact performs_bind (performs_perform (hentry r)) fun _ => performs_pure _

theorem performs_orFail {α : Type} (r : Except RuntimeError α) :
    Performs Action.Uncounted (orFail r) := by
  cases r with
  | ok a => exact performs_pure a
  | error e => exact performs_fail e

theorem performs_listed {sessionId : Uuid} :
    Performs Action.Uncounted (host.listMessages sessionId) :=
  performs_listMessages fun _ => ⟨fun e => by cases e <;> rfl, rfl⟩

/-- The check counts the iteration, and lets it pass within the limits. -/
theorem wp_checkingPolicy_books {Q : LoopState → World → Prop}
    (h : k.Books rt.policy input w₀ w) (hcp : l.resumeFrom = .checkingPolicy)
    (hQ : ∀ w', k.Books rt.policy input w₀ w' → l.iteration + 1 ≤ rt.policy.maxIterations →
      rt.policy.Affords l.totalUsage → Q { l with iteration := l.iteration + 1 } w') :
    wp (checkingPolicy host rt ctx l) Q (Obeys rt.policy input w₀) w := by
  unfold checkingPolicy
  rw [if_pos hcp]
  simp only [wp_bind]
  have hsave : Performs Action.Uncounted (saveSnapshot host rt ctx
      { l with iteration := l.iteration + 1 } .checkingPolicy) := by
    apply performs_ite _ (performs_pure _)
    apply performs_bind (performs_readClock uncounted_drew)
    exact fun timestamp => performs_onSnapshot fun _ => .save (by rintro ⟨⟩)
  apply wp_uncounted h hsave
  intro _ w₁ h
  have hfail : ∀ e, wp (do
      failRun host ctx.runId e
      fail e : M LoopState) Q (Obeys rt.policy input w₀) w₁ := by
    intro e
    rw [wp_bind]
    apply wp_uncounted h performs_failRun
    exact fun _ w₂ h => h.fail
  unfold policyOutcome
  by_cases hle : l.iteration + 1 > rt.policy.maxIterations
  · simp only [hle, if_true, TurnTransition.resolve]
    exact hfail _
  · have hpass := hQ w₁ h (Nat.le_of_not_gt hle)
    simp only [hle, if_false]
    cases hmax : rt.policy.maxTokens with
    | none => exact hpass fun budget hbudget => by rw [hmax] at hbudget; cases hbudget
    | some budget =>
      by_cases hspent : l.totalUsage.totalTokens ≥ budget
      · simp only [hspent, if_true, TurnTransition.resolve]
        exact hfail _
      · simp only [hspent, if_false]
        apply hpass
        intro budget' hbudget'
        obtain rfl : budget = budget' := Option.some.inj (hmax.symm.trans hbudget')
        exact Nat.lt_of_not_ge hspent

/-- A failed compaction ends the pass. -/
theorem wp_compactionFailed_books {α : Type} {e : RuntimeError} {Q : α → World → Prop}
    (h : k.Books rt.policy input w₀ w) :
    wp (compactionFailed host ctx l e : M α) Q (Obeys rt.policy input w₀) w := by
  unfold compactionFailed
  rcases l.breaker.recordFailure with ⟨opened, breaker⟩
  cases opened with
  | false => exact h.fail
  | true =>
    simp only [if_true, wp_bind]
    apply wp_uncounted h (performs_emit (.emitted rfl))
    exact fun _ w' h => h.fail

theorem wp_proactiveCompaction_books {Q : LoopState → World → Prop}
    (h : k.Books rt.policy input w₀ w)
    (hQ : ∀ breaker w', k.Books rt.policy input w₀ w' → Q { l with breaker := breaker } w') :
    wp (proactiveCompaction host rt ctx l) Q (Obeys rt.policy input w₀) w := by
  unfold proactiveCompaction
  split
  · split
    · rw [wp_bind]
      apply wp_uncounted h performs_listed
      intro records w₁ h
      rw [wp_bind]
      apply wp_uncounted h (performs_observed
        (performs_compactIfNeeded (compactionActions_uncounted _) _ _ _ _)
        fun r => ⟨fun e => by cases e <;> rfl, rfl⟩)
      intro r w₂ h
      rcases r with e | _ | result
      · exact wp_compactionFailed_books h
      · exact hQ l.breaker w₂ h
      · exact hQ _ w₂ h
    · exact hQ l.breaker w h
  · exact hQ l.breaker w h

theorem wp_reactiveCompaction_books {Q : LoopState → World → Prop}
    (h : k.Books rt.policy input w₀ w)
    (hQ : ∀ breaker w', k.Books rt.policy input w₀ w' → Q { l with breaker := breaker } w') :
    wp (reactiveCompaction host rt ctx l) Q (Obeys rt.policy input w₀) w := by
  unfold reactiveCompaction
  split
  · simp only [wp_bind]
    apply wp_uncounted h performs_listed
    intro records w₁ h
    have hcompact : Performs Action.Uncounted (some <$>
        rt.compaction.compactAfterOverflow host records
          (ctx.provider.capabilities.maxInputTokens.getD 128000) ctx.sessionId) := by
      rw [map_eq_pure_bind]
      apply performs_bind _ fun _ => performs_pure _
      exact performs_compactAfterOverflow (compactionActions_uncounted _) _ _ _
    apply wp_uncounted h (performs_observed hcompact fun r => ⟨fun e => by cases e <;> rfl, rfl⟩)
    intro r w₂ h
    cases r with
    | error e => exact wp_compactionFailed_books h
    | ok result => exact hQ _ w₂ h
  · exact hQ l.breaker w h

theorem performs_build {sessionId : Uuid} {model : String} {user : Option String}
    {tools : Option (List ToolSpec)} :
    Performs Action.Uncounted (rt.context.build host sessionId model user tools) := by
  unfold Context.ContextPipeline.build
  apply performs_bind performs_get
  intro w
  cases Context.factoryBuild w ⟨user, some (Uuid.display sessionId)⟩ rt.context.adapters with
  | error e => exact performs_fail _
  | ok fragments =>
    apply performs_bind performs_listed
    intro records
    exact performs_bind (performs_newId uncounted_drew) fun id => performs_pure _

/-- Building a context is not counted. -/
theorem wp_buildingContext_books {Q : LoopState × Option ChatRequest → World → Prop}
    (h : k.Books rt.policy input w₀ w)
    (hQ : ∀ breaker request w', k.Books rt.policy input w₀ w' →
      Q ({ l with breaker := breaker }, request) w') :
    wp (buildingContext host rt ctx l) Q (Obeys rt.policy input w₀) w := by
  have hstatus : TurnTransition.statusFor .buildingContext ≠ .callingModel := nofun
  unfold buildingContext
  split
  · rw [wp_bind]
    apply wp_uncounted h (performs_enter hstatus)
    intro _ w₁ h
    rw [wp_bind]
    apply wp_proactiveCompaction_books h
    intro breaker w₂ h
    simp only [wp_bind]
    apply wp_uncounted h
      (performs_observed performs_build fun r => ⟨fun e => by cases e <;> rfl, rfl⟩)
    intro r w₃ h
    apply wp_uncounted h (performs_orFail r)
    intro request w₄ h
    apply wp_uncounted h (performs_emit (.emitted rfl))
    exact fun _ w₅ h => hQ breaker (some request) w₅ h
  · exact hQ l.breaker none w h

/-- Entering the section that calls the model: a snapshot, if one is taken, and the status. -/
theorem wp_enterModel_books {n : Nat} {Q : Unit → World → Prop}
    (h : (l.ledger n 0).Books rt.policy input w₀ w) (hn : n + 1 ≤ rt.policy.maxIterations)
    (haffords : rt.policy.Affords l.totalUsage)
    (hQ : ∀ w', Ledger.Books rt.policy input w₀ { l.ledger n 0 with
      entries := fun e => if e = .saved ∨ e = .marked then n + 1 else n } w' → Q () w') :
    wp (enter host rt ctx l .callingModel) Q (Obeys rt.policy input w₀) w := by
  have hmark : ∀ {w₁ : World} {k : Ledger}, k.Books rt.policy input w₀ w₁ →
      k.usage = l.totalUsage → k.entries .marked = n →
      (∀ w', { k with entries := Function.update k.entries .marked (n + 1) }.Books rt.policy input
        w₀ w' → Q () w') →
      wp (updateStatus host ctx.runId (TurnTransition.statusFor .callingModel)) Q
        (Obeys rt.policy input w₀) w₁ := by
    intro w₁ k h husage hmarked hQ
    have hentered : ∀ fault, { k with entries := Function.update k.entries .marked (n + 1) }.Books
        rt.policy input w₀ (w₁.apply (.run (.updateRunStatus ctx.runId .callingModel) fault)) := by
      intro fault
      rw [← hmarked] at hn ⊢
      rw [← husage] at haffords
      apply h.enter .marked _ nofun rfl hn haffords
      intro e
      cases e <;> rfl
    apply wp_onRun_crash
    · exact fun e => ⟨(hentered (some e)).obeys _, (hentered (some e)).obeys _⟩
    · exact fun _ => ⟨(hentered none).obeys _, hQ _ (hentered none)⟩
  unfold enter
  rw [wp_bind]
  unfold saveSnapshot
  split
  · rw [wp_bind]
    apply wp_uncounted h (performs_readClock uncounted_drew)
    intro timestamp w₁ h
    have hentered : ∀ fault, { l.ledger n 0 with
        entries := Function.update (fun _ => n) .saved (n + 1) }.Books rt.policy input w₀
          (w₁.apply (.snapshot (.save (l.snapshot ctx .callingModel timestamp)) fault)) := by
      intro fault
      apply h.enter .saved _ nofun rfl hn haffords
      intro e
      cases e <;> rfl
    apply wp_onSnapshot_crash
    · exact fun e => ⟨(hentered (some e)).obeys _, (hentered (some e)).obeys _⟩
    · refine ⟨(hentered none).obeys _, hmark (hentered none) rfl rfl fun w' h => hQ w' ?_⟩
      apply h.mono
      · intro e
        cases e <;> simp [Function.update]
      · intro e
        split
        · exact hn
        · exact (Nat.le_succ n).trans hn
  · apply hmark h rfl rfl
    intro w' h
    apply hQ
    apply h.mono
    · intro e
      cases e <;> simp [Function.update, LoopState.ledger]
    · intro e
      split
      · exact hn
      · exact (Nat.le_succ n).trans hn

/-- Between two passes: every iteration so far may have entered the section once, and no
message is owed. -/
def Counted (policy : RuntimePolicy) (input : String) (w₀ : World) (l : LoopState) (w : World) :
    Prop :=
  l.resumeFrom = .checkingPolicy ∧ (l.ledger l.iteration 0).Books policy input w₀ w

theorem wp_commitAnswer_books {n : Nat} {answer : ModelAnswer} {Q : LoopState → World → Prop}
    (h : Ledger.Books rt.policy input w₀ { l.ledger n 0 with
      usage := l.totalUsage.mergeOpt answer.usage
      owed := (answer.message.reads continuationPrompt).toNat } w)
    (hQ : ∀ l' w', l'.resumeFrom = l.resumeFrom → l'.iteration = l.iteration →
      (l'.ledger n 0).Books rt.policy input w₀ w' → Q l' w') :
    wp (commitAnswer host ctx l answer) Q (Obeys rt.policy input w₀) w := by
  have hrecoveries : l.outputRecoveryCount ≤ rt.policy.maxOutputRecoveryAttempts := by
    obtain ⟨as, _, hcovers⟩ := h
    exact hcovers.recoveries
  have hstore : ∀ {w₁}, Ledger.Books rt.policy input w₀ { l.ledger n 0 with
      usage := l.totalUsage.mergeOpt answer.usage
      owed := (answer.message.reads continuationPrompt).toNat } w₁ → wp (do
      let msgId ← host.appendMessage ctx.sessionId answer.message
      host.emit (.assistantMessageCommitted ctx.runId msgId)
      return { l with
        totalUsage := match answer.usage with
          | some usage => l.totalUsage.merge usage
          | none => l.totalUsage
        lastFinish := some answer.finish
        assistantMessage := some answer.message
        assistantMsgId := some msgId } : M LoopState) Q (Obeys rt.policy input w₀) w₁ := by
    intro w₁ h
    rw [wp_bind]
    apply wp_appendMessage_books h l.outputRecoveryCount 0 hrecoveries
    · simp [LoopState.ledger, Nat.add_comm]
    intro msgId w₂ h
    rw [wp_bind]
    apply wp_uncounted h (performs_emit (.emitted rfl))
    intro _ w₃ h
    rw [wp_pure]
    apply hQ
    · rfl
    · rfl
    cases husage : answer.usage <;> simpa [LoopState.ledger, TokenUsage.mergeOpt, husage] using h
  unfold commitAnswer
  cases husage : answer.usage with
  | none =>
    rw [husage] at hstore h
    exact hstore h
  | some usage =>
    rw [husage] at hstore h
    rw [wp_bind]
    apply wp_uncounted h (performs_emit (.emitted rfl))
    intro _ w₁ h
    rw [wp_bind]
    exact wp_uncounted h performs_emitCacheMetrics fun _ w₂ h => hstore h

/-- One call of the model, for an iteration that was counted and is within the limits. -/
theorem wp_callingModel_books {n : Nat} {request : Option ChatRequest}
    {Q : Flow LoopState → World → Prop} (h : (l.ledger n 0).Books rt.policy input w₀ w)
    (hcp : l.resumeFrom = .checkingPolicy) (hl : l.iteration = n + 1)
    (hn : n + 1 ≤ rt.policy.maxIterations) (haffords : rt.policy.Affords l.totalUsage)
    (hagain : ∀ l' w', Counted rt.policy input w₀ l' w' → Q (.again l') w')
    (hnext : ∀ l' w', Counted rt.policy input w₀ l' w' → Q (.next l') w') :
    wp (callingModel host rt ctx l request) Q (Obeys rt.policy input w₀) w := by
  unfold callingModel
  rw [if_pos (.inl hcp)]
  simp only [LoopState.checking_eq hcp, wp_bind]
  apply wp_enterModel_books h hn haffords
  intro w₁ h
  have hstarted : Ledger.Books rt.policy input w₀ { l.ledger n 0 with
      entries := fun e => if e = .answered then n else n + 1 }
      (w₁.apply (.emitted (.modelStarted ctx.runId ctx.request.provider ctx.request.model
        l.iteration))) := by
    apply (h.enter .announced (fun e => by cases e <;> rfl) (by rintro ⟨⟩) rfl hn haffords).mono
    · intro e
      cases e <;> simp [Function.update]
    · intro e
      split
      · exact (Nat.le_succ n).trans hn
      · exact hn
  apply wp_perform_crash
  apply And.intro (hstarted.obeys _)
  cases request with
  | none => exact hstarted.fail
  | some request =>
    simp only [wp_bind]
    unfold observed
    rw [wp_bind]
    apply wp_uncounted hstarted
      (performs_caught (performs_callModel (callActions_uncounted ctx.runId) ctx.provider request))
    intro answer w₂ h
    have hanswered : Ledger.Books rt.policy input w₀ {
        entries := fun _ => n + 1
        usage := l.totalUsage.mergeOpt (Action.modelAnswered l.iteration request answer).reported
        recoveries := l.outputRecoveryCount
        owed := ((Action.modelAnswered l.iteration request answer).answers
          continuationPrompt).toNat }
        (w₂.apply (.modelAnswered l.iteration request answer)) := by
      apply (h.answered rfl hn haffords).mono
      · intro e
        cases e <;> simp [Function.update]
      · exact fun _ => hn
    rw [wp_bind]
    apply wp_perform_crash
    apply And.intro (hanswered.obeys _)
    rw [wp_pure]
    cases answer with
    | ok answer =>
      simp only [modelOutcome, TurnTransition.resolve, orFail, wp_bind, wp_pure]
      apply wp_commitAnswer_books hanswered
      intro l' w₃ hstate hiteration h
      exact hnext l' w₃ ⟨hstate.trans hcp, by rw [hiteration, hl]; exact h⟩
    | error e =>
      by_cases hover : ∃ e', e = .provider e' ∧ e'.isContextOverflow = true
      · obtain ⟨e', rfl, hover⟩ := hover
        simp only [modelOutcome, hover, if_true, TurnTransition.resolve, wp_bind, wp_pure]
        apply wp_reactiveCompaction_books hanswered
        intro breaker w₃ h
        apply hagain
        exact ⟨hcp, by rw [hl]; exact h⟩
      · have hresolve : TurnTransition.resolve .callingModel (modelOutcome (.error e)) =
            .fail "provider error" := by
          cases e with
          | provider e =>
            have hnot : e.isContextOverflow = false := by
              by_contra hne
              exact hover ⟨e, rfl, by simpa using hne⟩
            simp [modelOutcome, hnot, TurnTransition.resolve]
          | _ => rfl
        simp only [hresolve]
        exact hanswered.fail

/-- A prompt to continue is one recovery more. -/
theorem wp_processingResponse_books {Q : Flow (LoopState × List ToolCall) → World → Prop}
    (h : Counted rt.policy input w₀ l w)
    (hagain : ∀ l' w', Counted rt.policy input w₀ l' w' → Q (.again l') w')
    (hleave : ∀ l' w', Counted rt.policy input w₀ l' w' → Q (.leave l') w')
    (hnext : ∀ l' calls w', Counted rt.policy input w₀ l' w' → Q (.next (l', calls)) w') :
    wp (processingResponse host rt ctx l) Q (Obeys rt.policy input w₀) w := by
  unfold processingResponse
  rw [if_pos (.inl h.1)]
  simp only [LoopState.checking_eq h.1]
  split
  · exact h.2.fail
  · next message _ =>
    split
    · exact h.2.fail
    · next finish _ =>
      split
      · next hrecovers =>
        rw [wp_bind]
        apply wp_appendMessage_books h.2 (l.outputRecoveryCount + 1) 0 hrecovers.2
        · simp [LoopState.ledger, Message.reads, Message.userText, ContentPart.ofText,
            Nat.add_comm]
        · intro id w₁ h₁
          exact hagain _ w₁ ⟨rfl, h₁⟩
      · unfold responseOutcome
        cases message.toolCalls.isEmpty with
        | true => exact hleave l w h
        | false =>
          by_cases htools : finish = .toolCalls
          · subst htools
            exact hnext l _ w h
          · simp only [htools, ne_eq, not_false_eq_true, Bool.false_eq_true, if_true, if_false,
              TurnTransition.resolve]
            exact hleave l w h

/-- The message of an outcome is a tool message. -/
theorem reads_of_answers {call : ToolCall} {outcome : ToolExecutionOutcome} (text : String)
    (h : Answers call outcome) : outcome.message.reads text = false := by
  obtain ⟨content, hmessage⟩ := h.message_eq
  rw [hmessage]
  rfl

theorem wp_storeOutcomes_books {calls : List ToolCall} {outcomes : List ToolExecutionOutcome}
    {Q : PUnit → World → Prop} (h : k.Books rt.policy input w₀ w)
    (hanswers : List.Forall₂ Answers calls outcomes)
    (hQ : ∀ w', k.Books rt.policy input w₀ w' → Q ⟨⟩ w') :
    wp (outcomes.forM (storeOutcome host ctx)) Q (Obeys rt.policy input w₀) w := by
  induction hanswers generalizing w with
  | nil => exact hQ w h
  | @cons call outcome calls outcomes hanswer _ ih =>
    apply (wp_bind (x := storeOutcome host ctx outcome)
      fun _ => outcomes.forM (storeOutcome host ctx)).mpr
    have hstore : Performs Action.Uncounted (storeOutcome host ctx outcome) := by
      apply performs_bind
      · apply performs_appendMessage uncounted_drew
        intro id createdAt fault
        apply Action.Uncounted.append
        simpa using reads_of_answers continuationPrompt hanswer
      · exact fun _ => performs_emit (.emitted rfl)
    apply wp_uncounted h hstore
    exact fun _ w₁ h => ih h

/-- Tools are not counted. -/
theorem wp_executingTools_books {calls : List ToolCall} {Q : LoopState → World → Prop}
    (h : Counted rt.policy input w₀ l w)
    (hQ : ∀ l' w', Counted rt.policy input w₀ l' w' → Q l' w') :
    wp (executingTools host rt ctx l calls) Q (Obeys rt.policy input w₀) w := by
  have hstatus : TurnTransition.statusFor .executingTools ≠ .callingModel := by rintro ⟨⟩
  obtain ⟨hcp, h⟩ := h
  unfold executingTools
  rw [if_pos (.inl hcp)]
  simp only [LoopState.checking_eq hcp, wp_bind]
  apply wp_uncounted h (performs_enter hstatus)
  intro _ w₁ h
  split
  · exact h.fail
  · next msgId _ =>
    rw [wp_bind, Setting.checkDoomLoop_eq]
    cases l.doomDetector.checkCalls host.callHash calls with
    | error found =>
      simp only [wp_bind]
      apply wp_uncounted h (performs_emit (.emitted rfl))
      intro _ w₂ h
      apply wp_uncounted h performs_failRun
      exact fun _ w₃ h => h.fail
    | ok d =>
      rw [wp_pure]
      unfold observed
      simp only [wp_bind, wp_pure]
      apply wp_caught
      have hkeeps : ∀ w', Reaches Action.Uncounted w₁ w' →
          (l.ledger l.iteration 0).Books rt.policy input w₀ w' := fun w' hr => h.reaches hr
      apply wp_mono (ToolRuntime.wp_executeBatch (K := Action.Uncounted) batchActions_uncounted
        calls ctx.sessionId msgId w₁)
      · rintro outcomes w₂ ⟨hanswers, hr⟩
        have hanswered : (Action.toolsAnswered calls (.ok outcomes)).Uncounted :=
          ⟨fun e => by cases e <;> rfl, rfl⟩
        apply wp_uncounted (hkeeps w₂ hr) (performs_perform hanswered)
        intro _ w₃ h
        simp only [orFail, wp_pure]
        apply wp_storeOutcomes_books h hanswers
        exact fun w₄ h => hQ _ w₄ ⟨hcp, h⟩
      · rintro e w₂ ⟨he, hr⟩
        cases e with
        | failed e =>
          have hanswered : (Action.toolsAnswered calls (.error e)).Uncounted :=
            ⟨fun e => by cases e <;> rfl, rfl⟩
          apply wp_uncounted (hkeeps w₂ hr) (performs_perform hanswered)
          exact fun _ w₃ h => h.fail
        | crashed => exact (hkeeps w₂ hr).obeys _
        | panicked => cases he
        | outOfFuel => cases he

theorem wp_persisting_books {Q : Flow LoopState → World → Prop}
    (h : Counted rt.policy input w₀ l w)
    (hnext : ∀ l' w', Counted rt.policy input w₀ l' w' → Q (.next l') w') :
    wp (persisting host rt ctx l) Q (Obeys rt.policy input w₀) w := by
  have hstatus : TurnTransition.statusFor .persisting ≠ .callingModel := nofun
  obtain ⟨hcp, h⟩ := h
  unfold persisting
  rw [if_pos (.inl hcp)]
  simp only [LoopState.checking_eq hcp, wp_bind]
  apply wp_uncounted h (performs_enter hstatus)
  intro _ w₁ h
  split
  · exact h.fail
  · next finish _ =>
    unfold persistingOutcome
    by_cases htools : finish = .toolCalls
    · subst htools
      exact hnext l w₁ ⟨hcp, h⟩
    · simp only [htools, if_false, TurnTransition.resolve]
      exact h.obeys .panicked

/-! ### Passes, loops and runs -/

/-- What a pass leaves, whichever way it ends. -/
def PassCounted (policy : RuntimePolicy) (input : String) (w₀ : World) :
    Pass LoopState LoopState → World → Prop
  | .again l, w | .done l, w => Counted policy input w₀ l w

theorem wp_respond_books (h : Counted rt.policy input w₀ l w) :
    wp (respond host rt ctx l) (PassCounted rt.policy input w₀) (Obeys rt.policy input w₀) w := by
  unfold respond
  rw [wp_bind]
  apply wp_processingResponse_books h
  · exact fun l' w' h => h
  · exact fun l' w' h => h
  · intro l' calls w₁ h
    simp only [answerCalls, wp_bind]
    apply wp_executingTools_books h
    intro l' w₂ h
    apply wp_persisting_books h
    exact fun l' w' h => h

theorem wp_consult_books {n : Nat} (h : (l.ledger n 0).Books rt.policy input w₀ w)
    (hcp : l.resumeFrom = .checkingPolicy) (hl : l.iteration = n + 1)
    (hn : n + 1 ≤ rt.policy.maxIterations) (haffords : rt.policy.Affords l.totalUsage) :
    wp (consult host rt ctx l) (PassCounted rt.policy input w₀) (Obeys rt.policy input w₀) w := by
  unfold consult
  rw [wp_bind]
  apply wp_buildingContext_books h
  intro breaker request w₁ h
  rw [wp_bind]
  apply wp_callingModel_books (l := { l with breaker := breaker }) h hcp hl hn haffords
  · exact fun l' w' h => h
  · exact fun l' w' h => wp_respond_books h

/-- A pass counts one iteration, and at most one call of the model. -/
theorem wp_pass_books (h : Counted rt.policy input w₀ l w) :
    wp (pass host rt ctx l) (PassCounted rt.policy input w₀) (Obeys rt.policy input w₀) w := by
  unfold pass
  rw [wp_bind]
  apply wp_checkingPolicy_books h.2 h.1
  intro w₁ h₁ hle haffords
  exact wp_consult_books (l := { l with iteration := l.iteration + 1 }) h₁ h.1 rfl hle haffords

/-- The output of a run reports what its model calls spent. -/
def Reports (policy : RuntimePolicy) (input : String) (w₀ : World) (out : RunOutput)
    (w : World) : Prop :=
  ∃ k : Ledger, k.Books policy input w₀ w ∧ out.totalUsage = k.usage

theorem wp_completeRun_books (h : Counted rt.policy input w₀ l w) :
    wp (completeRun host ctx l) (Reports rt.policy input w₀) (Obeys rt.policy input w₀) w := by
  have hcompleted : RunStatus.completed ≠ .callingModel := nofun
  unfold completeRun
  simp only [wp_bind]
  apply wp_uncounted h.2 (performs_updateStatus hcompleted)
  intro _ w₁ h
  apply wp_uncounted h (performs_emit (.emitted rfl))
  exact fun _ w₂ h => ⟨_, h, rfl⟩

theorem wp_runLoopInner_books (fuel : Nat) (h : Counted rt.policy input w₀ l w) :
    wp (runLoopInner host rt ctx fuel l) (Reports rt.policy input w₀)
      (Obeys rt.policy input w₀) w := by
  unfold runLoopInner
  rw [wp_bind]
  apply wp_iterate (Counted rt.policy input w₀)
  · intro l w h
    apply wp_mono (wp_pass_books h) _ fun _ _ he => he
    intro r w' h
    cases r with
    | again l' => exact h
    | done l' => exact wp_completeRun_books h
  · exact fun l w h => h.2.obeys _
  · exact h

theorem wp_runLoop_books (fuel : Nat) (h : Counted rt.policy input w₀ l w) :
    wp (runLoop host rt ctx fuel l) (Reports rt.policy input w₀) (Obeys rt.policy input w₀) w := by
  have hdelete : Performs Action.Uncounted (caught (deleteSnapshot host rt ctx.runId)) := by
    apply performs_caught
    apply performs_ite _ (performs_pure _)
    exact performs_onSnapshot fun _ => ⟨fun e => by cases e <;> rfl, rfl⟩
  unfold runLoop andThen
  rw [wp_bind]
  apply wp_caught
  apply wp_mono (wp_runLoopInner_books fuel h)
  · intro out w₁ ⟨k, h, husage⟩
    rw [wp_bind]
    apply wp_uncounted h hdelete
    exact fun _ w₂ h => ⟨k, h, husage⟩
  · intro e w₁ ⟨k, h⟩
    cases e with
    | failed e =>
      dsimp only
      rw [wp_bind]
      apply wp_uncounted h hdelete
      exact fun _ w₂ h => h.fail
    | crashed => exact ⟨k, h⟩
    | panicked => exact ⟨k, h⟩
    | outOfFuel => exact ⟨k, h⟩

theorem performs_chatProvider {id : String} :
    Performs Action.Uncounted (chatProvider host rt id) := by
  apply performs_bind (performs_perform ⟨fun e => by cases e <;> rfl, rfl⟩)
  intro _
  cases rt.providers.chat id with
  | some provider => exact performs_pure _
  | none => exact performs_fail _

/-- A run starts with nothing spent and its input owed. -/
theorem wp_startRun_books {fuel : Nat} {runId sessionId : Uuid} {request : RunRequest}
    (h : Ledger.Books rt.policy request.input w₀ { (LoopState.start rt.policy).ledger 0 0 with
      owed := ((Message.userText request.input).reads continuationPrompt).toNat } w) :
    wp (rt.startRun host fuel runId sessionId request) (Reports rt.policy request.input w₀)
      (Obeys rt.policy request.input w₀) w := by
  have hloaded : RunStatus.sessionLoaded ≠ .callingModel := nofun
  unfold startRun
  rw [wp_bind]
  apply wp_uncounted h (performs_emit (.emitted rfl))
  intro _ w₁ h
  rw [wp_bind]
  apply wp_uncounted h (performs_updateStatus hloaded)
  intro _ w₂ h
  rw [wp_bind]
  apply wp_appendMessage_books h 0 0 (Nat.zero_le _) (Nat.le_refl _)
  intro msgId w₃ h
  rw [wp_bind]
  apply wp_uncounted h performs_chatProvider
  intro provider w₄ h
  exact wp_runLoop_books fuel ⟨rfl, h⟩

theorem performs_ensureSession {sessionId : Option Uuid} :
    Performs Action.Uncounted (ensureSession host sessionId) := by
  cases sessionId with
  | some id =>
    apply performs_bind (performs_onSession fun _ => ⟨fun e => by cases e <;> rfl, rfl⟩)
    intro _
    apply performs_bind performs_get
    intro w
    exact performs_ite (performs_bind (performs_fail _) fun _ => performs_pure _) (performs_pure _)
  | none =>
    apply performs_bind (performs_newId uncounted_drew)
    intro id
    apply performs_bind (performs_onSession fun fault => ?_) fun _ => performs_pure _
    cases fault <;> exact ⟨fun e => by cases e <;> rfl, rfl⟩

/-- What precedes the creation of a run is not counted. -/
theorem uncounted_of_admitting {a : Action} (h : Setting.Admitting a) : a.Uncounted := by
  obtain ⟨hpre, htouch⟩ := h
  cases a with
  | session op fault =>
    cases op with
    | getSession id => exact ⟨fun e => by cases e <;> rfl, rfl⟩
    | createSession id => exact ⟨fun e => by cases e <;> rfl, by cases fault <;> rfl⟩
    | _ => cases hpre
  | run op fault =>
    cases op with
    | createRun record => exact ⟨fun e => by cases e <;> rfl, rfl⟩
    | updateRunStatus id status => cases hpre
  | drew => exact uncounted_drew
  | acquired sessionId busy => exact ⟨fun e => by cases e <;> rfl, rfl⟩
  | admitted seen => exact ⟨fun e => by cases e <;> rfl, rfl⟩
  | _ => cases hpre

theorem wp_run_books (host : Host) (rt : AgentRuntime) (fuel : Nat) (request : RunRequest)
    (w : World) :
    wp (rt.run host fuel request) (Reports rt.policy request.input w)
      (Obeys rt.policy request.input w) w := by
  have hstart : Ledger.Books rt.policy request.input w { (LoopState.start rt.policy).ledger 0 0 with
      owed := ((Message.userText request.input).reads continuationPrompt).toNat } w := by
    refine ⟨[], by simp, fun _ => Nat.zero_le _, Nat.zero_le _, fun _ => Nat.le_refl _, rfl, ?_, ?_⟩
    · simp [LoopState.ledger, LoopState.start]
    · intro before a after hsplit
      simp at hsplit
  have hrest : ∀ runId w₁, Ledger.Books rt.policy request.input w
      { (LoopState.start rt.policy).ledger 0 0 with
        owed := ((Message.userText request.input).reads continuationPrompt).toNat } w₁ →
      wp (do
        let sessionId ← ensureSession host request.sessionId
        acquire host sessionId
        rt.admitInput host sessionId request.input
        createRun host runId sessionId request
        rt.startRun host fuel runId sessionId request)
        (Reports rt.policy request.input w) (Obeys rt.policy request.input w) w₁ := by
    intro runId w₁ h
    have hcreate : ∀ sessionId, Performs Action.Uncounted
        (createRun host runId sessionId request) := by
      intro sessionId
      apply performs_bind (performs_readClock uncounted_drew)
      exact fun now => performs_onRun fun _ => ⟨fun e => by cases e <;> rfl, rfl⟩
    rw [wp_bind]
    apply wp_uncounted h performs_ensureSession
    intro sessionId w₂ h
    rw [wp_bind]
    apply wp_uncounted h ((Setting.performs_acquire host sessionId).mono
      fun a ha => uncounted_of_admitting ha)
    intro _ w₃ h
    rw [wp_bind]
    apply wp_uncounted h ((Setting.performs_admitInput host rt sessionId request.input).mono
      fun a ha => uncounted_of_admitting ha)
    intro _ w₄ h
    rw [wp_bind]
    apply wp_uncounted h (hcreate sessionId)
    exact fun _ w₅ h => wp_startRun_books h
  unfold run
  cases request.runId with
  | some id => exact hrest id w hstart
  | none =>
    simp only
    rw [wp_bind]
    apply wp_uncounted hstart (performs_newId uncounted_drew)
    exact fun id w₁ h => hrest id w₁ h

/-- **A run stays within the limits of its policy, and reports what its model calls spent**. -/
theorem run_withinLimits (host : Host) (rt : AgentRuntime) (fuel : Nat) (request : RunRequest)
    (w : World) :
    ∃ as, (final (rt.run host fuel request w)).trace = w.trace ++ as ∧
      WithinLimits rt.policy request.input as ∧
      ∀ out w', rt.run host fuel request w = .ok out w' → out.totalUsage = spent as := by
  have hwp := wp_run_books host rt fuel request w
  cases hrun : rt.run host fuel request w with
  | ok out w' =>
    obtain ⟨k, ⟨as, htrace, hcovers⟩, husage⟩ := wp_ok hwp hrun
    refine ⟨as, htrace, hcovers.withinLimits, ?_⟩
    rintro _ _ ⟨⟩
    exact husage.trans hcovers.usage.symm
  | error e w' =>
    obtain ⟨k, as, htrace, hcovers⟩ := wp_error hwp hrun
    exact ⟨as, htrace, hcovers.withinLimits, nofun⟩

end AgentRuntime

end Behest
