import Behest.EventLog.Memory
import Behest.Runtime.Limits

/-!
# The order of the events of a run

Who only listens to a run learns where it is: a run announces its start, and then pass after
pass the context, the numbered model call with what it streams, the usage, the message of the
answer and those of the tools; a doom loop and an opened circuit breaker are announced before
the run fails on them, and nothing follows the end. The listener is an automaton, and every run
is a word that it reads, whatever the collaborators of the run do.
-/

namespace Behest

open Effect Compaction

/-- What a listener has heard of a run, with the number of its model calls. -/
inductive Heard where
  | nothing
  | started (calls : Nat)
  | built (calls : Nat)
  | asking (calls : Nat)
  | spent (calls : Nat)
  | metered (calls : Nat)
  | committed (calls : Nat)
  | answering (calls : Nat)
  | looping (calls : Nat)
  | opened (calls : Nat)
  | completed (calls : Nat)
  | failed (calls : Nat)
deriving DecidableEq

namespace Heard

/-- The number of model calls so far. -/
def calls : Heard → Nat
  | nothing => 0
  | started n | built n | asking n | spent n | metered n | committed n | answering n | looping n
  | opened n | completed n | failed n => n

/-- A pass may end here: before the first pass, when the model call was given up for a
compaction, and when an answer or its tool messages are stored. -/
def Boundary (n : Nat) (p : Heard) : Prop :=
  p = started n ∨ p = asking n ∨ p = committed n ∨ p = answering n

/-- An answer is stored. -/
def Responded (n : Nat) (p : Heard) : Prop := p = committed n ∨ p = answering n

/-- The end of the run was announced. -/
def ended : Heard → Bool
  | completed _ | failed _ => true
  | _ => false

/-- What follows the end of a pass. -/
def passEnd (n : Nat) : AgentEvent → Option Heard
  | .contextBuilt _ _ => some (built n)
  | .compactionCircuitOpened _ _ => some (opened n)
  | .runFailed _ _ => some (failed n)
  | _ => none

/-- One event, or `none` where it may not be heard. -/
def next : Heard → AgentEvent → Option Heard
  | nothing, .runStarted _ _ _ _ => some (started 0)
  | started n, e => passEnd n e
  | built n, .modelStarted _ _ _ iteration =>
      if iteration = n + 1 then some (asking (n + 1)) else none
  | asking n, .textDelta _ _ | asking n, .toolCallStarted _ _ _ | asking n, .toolCallDelta _ _ _
  | asking n, .toolCallCompleted _ _ => some (asking n)
  | asking n, .usageRecorded _ _ => some (spent n)
  | asking n, .assistantMessageCommitted _ _ => some (committed n)
  | asking n, e => passEnd n e
  | spent n, .cacheMetrics _ _ _ _ => some (metered n)
  | spent n, .assistantMessageCommitted _ _ => some (committed n)
  | metered n, .assistantMessageCommitted _ _ => some (committed n)
  | committed n, .toolMessageCommitted _ _ => some (answering n)
  | committed n, .doomLoopDetected _ _ => some (looping n)
  | committed n, .runCompleted _ _ iterations | answering n, .runCompleted _ _ iterations =>
      if iterations = n then some (completed n) else none
  | committed n, e => passEnd n e
  | answering n, .toolMessageCommitted _ _ => some (answering n)
  | answering n, e => passEnd n e
  | looping n, .runFailed _ _ => some (failed n)
  | _, _ => none

/-- An event of the run. -/
def hear (runId : Uuid) (p : Heard) (event : AgentEvent) : Option Heard :=
  if event.runId = runId then p.next event else none

/-- The events of a run, from its first. -/
def listen (runId : Uuid) (events : List AgentEvent) : Option Heard :=
  events.foldlM (hear runId) nothing

end Heard

/-- The number that a model call bears. -/
def AgentEvent.modelCall? : AgentEvent → Option Nat
  | modelStarted _ _ _ iteration => some iteration
  | _ => none

/-- The event that an action lets be heard. -/
def Action.event? : Action → Option AgentEvent
  | .emitted event => some event
  | _ => none

/-- The events of a transcript. -/
def heardIn (as : List Action) : List AgentEvent := as.filterMap Action.event?

namespace Heard

variable {runId : Uuid} {p q : Heard} {event : AgentEvent} {events : List AgentEvent}

theorem listen_snoc (runId : Uuid) (events : List AgentEvent) (event : AgentEvent) :
    listen runId (events ++ [event]) = (listen runId events).bind fun p => p.hear runId event := by
  unfold listen
  rw [List.foldlM_append]
  cases List.foldlM (hear runId) nothing events with
  | none => rfl
  | some p => simp

/-- The start is heard first and the end last, and a model call bears the next number. -/
structure Tells (p : Heard) (event : AgentEvent) (q : Heard) : Prop where
  goesOn : p.ended = false
  ends : q.ended = event.isTerminal
  starts : p = nothing ↔ event.startedSession.isSome = true
  heard : q ≠ nothing
  calls : event.modelCall?.toList = List.range' (p.calls + 1) (q.calls - p.calls)
  grows : p.calls ≤ q.calls

/-- An event that is neither the start nor a model call. -/
theorem tells_of_calls (hover : p.ended = false) (hheard : p ≠ nothing) (hq : q ≠ nothing)
    (hend : q.ended = event.isTerminal) (hstart : event.startedSession = none)
    (hcall : event.modelCall? = none) (hcalls : q.calls = p.calls) : p.Tells event q := by
  refine ⟨hover, hend, iff_of_false hheard (by simp [hstart]), hq, ?_, Nat.le_of_eq hcalls.symm⟩
  rw [hcall, hcalls, Nat.sub_self]
  rfl

theorem tells_of_passEnd {n : Nat} (hover : p.ended = false) (hheard : p ≠ nothing)
    (hcalls : p.calls = n) (h : passEnd n event = some q) : p.Tells event q := by
  subst hcalls
  cases event <;> cases h <;> exact tells_of_calls hover hheard nofun rfl rfl rfl rfl

theorem tells_of_next (h : p.next event = some q) : p.Tells event q := by
  cases p with
  | nothing =>
    cases event <;> cases h
    exact ⟨rfl, rfl, iff_of_true rfl rfl, nofun, rfl, Nat.le_refl _⟩
  | started n => exact tells_of_passEnd rfl nofun rfl h
  | built n =>
    cases event with
    | modelStarted id provider model iteration =>
      simp only [next] at h
      split at h <;> cases h
      next hiteration =>
        refine ⟨rfl, rfl, iff_of_false nofun nofun, nofun, ?_, Nat.le_succ n⟩
        rw [AgentEvent.modelCall?, hiteration]
        simp [calls]
    | _ => cases h
  | asking n =>
    cases event with
    | contextBuilt | compactionCircuitOpened | runFailed => exact tells_of_passEnd rfl nofun rfl h
    | _ => cases h <;> exact tells_of_calls rfl nofun nofun rfl rfl rfl rfl
  | spent n | metered n | looping n =>
    cases event <;> cases h <;> exact tells_of_calls rfl nofun nofun rfl rfl rfl rfl
  | committed n | answering n =>
    cases event with
    | contextBuilt | compactionCircuitOpened | runFailed => exact tells_of_passEnd rfl nofun rfl h
    | runCompleted id finish iterations =>
      simp only [next] at h
      split at h <;> cases h
      exact tells_of_calls rfl nofun nofun rfl rfl rfl rfl
    | _ => cases h <;> exact tells_of_calls rfl nofun nofun rfl rfl rfl rfl
  | opened n | completed n | failed n => cases event <;> cases h

theorem tells_of_hear (h : p.hear runId event = some q) : event.runId = runId ∧ p.Tells event q := by
  unfold hear at h
  split at h
  · next hrun => exact ⟨hrun, tells_of_next h⟩
  · cases h

/-- What a listener may conclude: the events are those of the run, the start comes first and
nothing else is one, the end comes last, and the model calls are numbered from one. -/
structure Word (runId : Uuid) (events : List AgentEvent) (p : Heard) : Prop where
  own : ∀ e ∈ events, e.runId = runId
  first : ∀ i (h : i < events.length), events[i].startedSession.isSome = true ↔ i = 0
  last : ∀ i (h : i < events.length), events[i].isTerminal = true →
    i + 1 = events.length ∧ p.ended = true
  ends : p.ended = true → ∃ e, events.getLast? = some e ∧ e.isTerminal = true
  calls : events.filterMap AgentEvent.modelCall? = List.range' 1 p.calls
  empty : p = nothing ↔ events = []

theorem word_of_listen (h : listen runId events = some p) : Word runId events p := by
  induction events using List.reverseRecOn generalizing p with
  | nil =>
    cases h
    exact ⟨nofun, nofun, nofun, nofun, rfl, iff_of_true rfl rfl⟩
  | append_singleton events event ih =>
    rw [listen_snoc] at h
    obtain ⟨q, hq, hevent⟩ := Option.bind_eq_some_iff.mp h
    obtain ⟨hrun, htells⟩ := tells_of_hear hevent
    have hword := ih hq
    refine ⟨?_, ?_, ?_, ?_, ?_, iff_of_false htells.heard (by simp)⟩
    · intro e he
      rcases List.mem_append.mp he with he | he
      · exact hword.own e he
      · rw [List.mem_singleton.mp he, hrun]
    · intro i hi
      by_cases hlt : i < events.length
      · rw [List.getElem_append_left hlt]
        exact hword.first i hlt
      · have hlast : i = events.length := by
          rw [List.length_append, List.length_singleton] at hi
          omega
        subst hlast
        rw [List.getElem_concat_length rfl, ← htells.starts, hword.empty, List.length_eq_zero_iff]
    · intro i hi hterminal
      by_cases hlt : i < events.length
      · rw [List.getElem_append_left hlt] at hterminal
        have hover := (hword.last i hlt hterminal).2
        rw [htells.goesOn] at hover
        cases hover
      · have hlast : i = events.length := by
          rw [List.length_append, List.length_singleton] at hi
          omega
        subst hlast
        rw [List.getElem_concat_length rfl] at hterminal
        exact ⟨by simp, htells.ends.trans hterminal⟩
    · intro hover
      exact ⟨event, List.getLast?_concat, htells.ends.symm.trans hover⟩
    · have hsplit : p.calls = q.calls + (p.calls - q.calls) := by
        have hgrows := htells.grows
        omega
      rw [List.filterMap_append, hword.calls, hsplit, ← List.range'_append_1, Nat.add_comm 1]
      congr 1
      rw [← htells.calls]
      cases hcall : event.modelCall? <;> simp [hcall]

end Heard

/-- Nothing is heard of the action. -/
def Action.Silent (a : Action) : Prop := a.event? = none

theorem silent_drew : Action.drew.Silent := rfl

/-- What was heard of the run since the first world. -/
def Hears (runId : Uuid) (w₀ : World) (p : Heard) (w : World) : Prop :=
  ∃ as, w.trace = w₀.trace ++ as ∧ Heard.listen runId (heardIn as) = some p

/-- A program that returns an error has not announced that the run is complete. -/
def Unfinished (runId : Uuid) (w₀ : World) (e : Stop) (w : World) : Prop :=
  ∃ p, Hears runId w₀ p w ∧ ∀ error n, e = .failed error → p ≠ .completed n

section Rules

variable {α : Type} {host : Host} {runId : Uuid} {w₀ w w' : World} {p q : Heard}

theorem Hears.silent {a : Action} (h : Hears runId w₀ p w) (ha : a.Silent) :
    Hears runId w₀ p (w.apply a) := by
  obtain ⟨as, htrace, hlisten⟩ := h
  refine ⟨as ++ [a], by rw [World.apply_trace, htrace, List.append_assoc], ?_⟩
  have hsame : heardIn (as ++ [a]) = heardIn as := by
    rw [heardIn, List.filterMap_append, List.filterMap_cons_none ha, List.filterMap_nil,
      List.append_nil, heardIn]
  rw [hsame]
  exact hlisten

theorem Hears.emitted {event : AgentEvent} (h : Hears runId w₀ p w) (hrun : event.runId = runId)
    (hnext : p.next event = some q) : Hears runId w₀ q (w.apply (.emitted event)) := by
  obtain ⟨as, htrace, hlisten⟩ := h
  refine ⟨as ++ [.emitted event], by rw [World.apply_trace, htrace, List.append_assoc], ?_⟩
  have hmore : heardIn (as ++ [.emitted event]) = heardIn as ++ [event] := List.filterMap_append
  rw [hmore, Heard.listen_snoc, hlisten, Option.bind_some, Heard.hear, if_pos hrun, hnext]

/-- Actions after which as much has been heard as before. -/
theorem Hears.reaches {K : Action → Prop} (h : Hears runId w₀ p w)
    (hK : ∀ a, K a → a.Silent ∨ ∃ event, a = .emitted event ∧ event.runId = runId ∧
      p.next event = some p) (hr : Reaches K w w') : Hears runId w₀ p w' := by
  apply hr.invariant (Hears runId w₀ p) _ h
  intro w a ha h
  rcases hK a ha with hsilent | ⟨event, rfl, hrun, hnext⟩
  · exact h.silent hsilent
  · exact h.emitted hrun hnext

theorem Hears.unfinished (h : Hears runId w₀ p w) (hp : ∀ n, p ≠ .completed n) (e : Stop) :
    Unfinished runId w₀ e w := ⟨p, h, fun _ n _ => hp n⟩

theorem Hears.crashed (h : Hears runId w₀ p w) : Unfinished runId w₀ .crashed w :=
  ⟨p, h, fun _ _ he => nomatch he⟩

theorem Hears.fail {e : RuntimeError} {Q : α → World → Prop} (h : Hears runId w₀ p w)
    (hp : ∀ n, p ≠ .completed n) : wp (Behest.fail e : M α) Q (Unfinished runId w₀) w :=
  h.unfinished hp _

theorem wp_unheard {K : Action → Prop} {x : M α} {Q : α → World → Prop} (h : Hears runId w₀ p w)
    (hp : ∀ n, p ≠ .completed n) (hx : Performs K x)
    (hK : ∀ a, K a → a.Silent ∨ ∃ event, a = .emitted event ∧ event.runId = runId ∧
      p.next event = some p) (hQ : ∀ a w', Hears runId w₀ p w' → Q a w') :
    wp x Q (Unfinished runId w₀) w := by
  apply hx.wp
  · exact fun a w' hr => hQ a w' (h.reaches hK hr)
  · exact fun e w' _ hr => (h.reaches hK hr).unfinished hp e

theorem wp_silently {x : M α} {Q : α → World → Prop} (h : Hears runId w₀ p w)
    (hp : ∀ n, p ≠ .completed n) (hx : Performs Action.Silent x)
    (hQ : ∀ a w', Hears runId w₀ p w' → Q a w') : wp x Q (Unfinished runId w₀) w :=
  wp_unheard h hp hx (fun _ ha => .inl ha) hQ

/-- Errors that are read as values are not heard, even after the end. -/
theorem wp_caughtSilently {x : M α} {Q : Except RuntimeError α → World → Prop}
    (h : Hears runId w₀ p w) (hx : Performs Action.Silent x)
    (hQ : ∀ r w', Hears runId w₀ p w' → Q r w') : wp (caught x) Q (Unfinished runId w₀) w := by
  have hstay : ∀ w', Reaches Action.Silent w w' → Hears runId w₀ p w' :=
    fun w' hr => h.reaches (fun _ ha => .inl ha) hr
  apply wp_caught
  apply hx.wp
  · exact fun a w' hr => hQ _ w' (hstay w' hr)
  · intro e w' he hr
    cases e with
    | failed e => exact hQ _ w' (hstay w' hr)
    | crashed => exact (hstay w' hr).crashed
    | panicked => cases he
    | outOfFuel => cases he

theorem wp_heard {event : AgentEvent} {Q : Unit → World → Prop} (h : Hears runId w₀ p w)
    (hrun : event.runId = runId) (hnext : p.next event = some q)
    (hQ : ∀ w', Hears runId w₀ q w' → Q () w') :
    wp (host.emit event) Q (Unfinished runId w₀) w := by
  have h' := h.emitted hrun hnext
  exact wp_perform_crash ⟨h'.crashed, hQ _ h'⟩

end Rules

namespace Heard

variable {runId : Uuid} {p : Heard} {n : Nat}

theorem Boundary.live (h : p.Boundary n) : ∀ m, p ≠ completed m := by
  rcases h with rfl | rfl | rfl | rfl <;> exact nofun

/-- A pass ends as it may anywhere. -/
theorem Boundary.next {event : AgentEvent} {q : Heard} (h : p.Boundary n)
    (hend : passEnd n event = some q) : p.next event = some q := by
  rcases h with rfl | rfl | rfl | rfl <;> cases event <;> first | exact hend | cases hend

theorem Responded.boundary (h : p.Responded n) : p.Boundary n := by
  rcases h with rfl | rfl
  · exact .inr (.inr (.inl rfl))
  · exact .inr (.inr (.inr rfl))

theorem Responded.stored {messageId : Uuid} (h : p.Responded n) :
    p.next (.toolMessageCommitted runId messageId) = some (answering n) := by
  rcases h with rfl | rfl <;> rfl

theorem Responded.completed {finish : FinishReason} (h : p.Responded n) :
    p.next (.runCompleted runId finish n) = some (.completed n) := by
  rcases h with rfl | rfl <;> exact if_pos rfl

end Heard

/-! ### The sections of a pass -/

namespace AgentRuntime

variable {host : Host} {rt : AgentRuntime} {ctx : RunContext} {w₀ w : World} {p : Heard} {n : Nat}
  {l : LoopState}

theorem silent_updateStatus {runId : Uuid} {status : RunStatus} :
    Performs Action.Silent (updateStatus host runId status) := performs_onRun fun _ => rfl

theorem silent_saveSnapshot {state : TurnState} :
    Performs Action.Silent (saveSnapshot host rt ctx l state) := by
  apply performs_ite _ (performs_pure _)
  apply performs_bind (performs_readClock silent_drew)
  exact fun timestamp => performs_onSnapshot fun _ => rfl

theorem silent_enter {state : TurnState} : Performs Action.Silent (enter host rt ctx l state) :=
  performs_bind silent_saveSnapshot fun _ => silent_updateStatus

theorem silent_observed {α : Type} {x : M α} {entry : Except RuntimeError α → Action}
    (hx : Performs Action.Silent x) (hentry : ∀ r, (entry r).Silent) :
    Performs Action.Silent (observed host x entry) := by
  apply performs_bind (performs_caught hx)
  intro r
  exact performs_bind (performs_perform (hentry r)) fun _ => performs_pure _

theorem silent_appendMessage {sessionId : Uuid} {message : Message} :
    Performs Action.Silent (host.appendMessage sessionId message) :=
  performs_appendMessage silent_drew fun _ _ _ => rfl

theorem silent_listMessages {sessionId : Uuid} :
    Performs Action.Silent (host.listMessages sessionId) := performs_listMessages fun _ => rfl

theorem compactionActions_silent (sessionId : Uuid) :
    CompactionActions sessionId Action.Silent where
  drew := rfl
  latest _ := rfl
  requested _ _ := rfl
  written _ _ _ := rfl

theorem batchActions_silent : ToolRuntime.BatchActions Action.Silent where
  drew := rfl
  toolCalled _ := rfl
  recorded _ _ := rfl

/-- The failure is announced. -/
theorem wp_failRun_heard {e : RuntimeError} {Q : Unit → World → Prop}
    (h : Hears ctx.runId w₀ p w)
    (hnext : p.next (.runFailed ctx.runId e.display) = some (.failed n))
    (hQ : ∀ w', Hears ctx.runId w₀ (.failed n) w' → Q () w') :
    wp (failRun host ctx.runId e) Q (Unfinished ctx.runId w₀) w := by
  unfold failRun
  rw [wp_bind]
  apply wp_caughtSilently h silent_updateStatus
  exact fun _ w₁ h => wp_heard h rfl hnext hQ

/-- The check counts the iteration, or fails the run. -/
theorem wp_checkingPolicy_heard {Q : LoopState → World → Prop}
    (h : Hears ctx.runId w₀ p w) (hp : p.Boundary n) (hcp : l.resumeFrom = .checkingPolicy)
    (hQ : ∀ w', Hears ctx.runId w₀ p w' → Q { l with iteration := l.iteration + 1 } w') :
    wp (checkingPolicy host rt ctx l) Q (Unfinished ctx.runId w₀) w := by
  unfold checkingPolicy
  rw [if_pos hcp]
  simp only [wp_bind]
  apply wp_silently h hp.live silent_saveSnapshot
  intro _ w₁ h
  split
  · rw [wp_bind]
    apply wp_failRun_heard h (hp.next rfl)
    exact fun w₂ h => h.fail (by simp)
  · exact hQ w₁ h
  · exact h.unfinished hp.live _

/-- A failed compaction fails the run, after the opening of the breaker was announced. -/
theorem wp_compactionFailed_heard {α : Type} {e : RuntimeError} {Q : α → World → Prop}
    (h : Hears ctx.runId w₀ p w) (hp : p.Boundary n) :
    wp (compactionFailed host ctx l e : M α) Q (Unfinished ctx.runId w₀) w := by
  unfold compactionFailed
  rcases l.breaker.recordFailure with ⟨opened, breaker⟩
  cases opened with
  | false => exact h.fail hp.live
  | true =>
    simp only [if_true, wp_bind]
    apply wp_heard h rfl (hp.next rfl)
    exact fun w' h => h.fail (by simp)

theorem wp_proactiveCompaction_heard {Q : LoopState → World → Prop}
    (h : Hears ctx.runId w₀ p w) (hp : p.Boundary n)
    (hQ : ∀ breaker w', Hears ctx.runId w₀ p w' → Q { l with breaker := breaker } w') :
    wp (proactiveCompaction host rt ctx l) Q (Unfinished ctx.runId w₀) w := by
  unfold proactiveCompaction
  split
  · split
    · rw [wp_bind]
      apply wp_silently h hp.live silent_listMessages
      intro records w₁ h
      rw [wp_bind]
      apply wp_silently h hp.live (silent_observed
        (performs_compactIfNeeded (compactionActions_silent _) _ _ _ _) fun _ => by exact rfl)
      intro r w₂ h
      rcases r with e | _ | result
      · exact wp_compactionFailed_heard h hp
      · exact hQ l.breaker w₂ h
      · exact hQ _ w₂ h
    · exact hQ l.breaker w h
  · exact hQ l.breaker w h

theorem wp_reactiveCompaction_heard {Q : LoopState → World → Prop}
    (h : Hears ctx.runId w₀ p w) (hp : p.Boundary n)
    (hQ : ∀ breaker w', Hears ctx.runId w₀ p w' → Q { l with breaker := breaker } w') :
    wp (reactiveCompaction host rt ctx l) Q (Unfinished ctx.runId w₀) w := by
  unfold reactiveCompaction
  split
  · simp only [wp_bind]
    apply wp_silently h hp.live silent_listMessages
    intro records w₁ h
    have hcompact : Performs Action.Silent (some <$>
        rt.compaction.compactAfterOverflow host records
          (ctx.provider.capabilities.maxInputTokens.getD 128000) ctx.sessionId) := by
      rw [map_eq_pure_bind]
      apply performs_bind _ fun _ => performs_pure _
      exact performs_compactAfterOverflow (compactionActions_silent _) _ _ _
    apply wp_silently h hp.live (silent_observed hcompact fun _ => by exact rfl)
    intro r w₂ h
    cases r with
    | error e => exact wp_compactionFailed_heard h hp
    | ok result => exact hQ _ w₂ h
  · exact hQ l.breaker w h

theorem silent_build {sessionId : Uuid} {model : String} {user : Option String}
    {tools : Option (List ToolSpec)} :
    Performs Action.Silent (rt.context.build host sessionId model user tools) := by
  unfold Context.ContextPipeline.build
  apply performs_bind performs_get
  intro w
  cases Context.factoryBuild w ⟨user, some (Uuid.display sessionId)⟩ rt.context.adapters with
  | error e => exact performs_fail _
  | ok fragments =>
    apply performs_bind silent_listMessages
    intro records
    exact performs_bind (performs_newId silent_drew) fun id => performs_pure _

theorem silent_orFail {α : Type} (r : Except RuntimeError α) :
    Performs Action.Silent (orFail r) := by
  cases r with
  | ok a => exact performs_pure a
  | error e => exact performs_fail e

/-- The context is announced at the end of a pass. -/
theorem wp_buildingContext_heard {Q : LoopState × Option ChatRequest → World → Prop}
    (h : Hears ctx.runId w₀ p w) (hp : p.Boundary n) (hcp : l.resumeFrom = .checkingPolicy)
    (hQ : ∀ breaker request w', Hears ctx.runId w₀ (.built n) w' →
      Q ({ l with breaker := breaker }, request) w') :
    wp (buildingContext host rt ctx l) Q (Unfinished ctx.runId w₀) w := by
  unfold buildingContext
  rw [if_pos (.inl hcp), wp_bind]
  apply wp_silently h hp.live silent_enter
  intro _ w₁ h
  rw [wp_bind]
  apply wp_proactiveCompaction_heard h hp
  intro breaker w₂ h
  simp only [wp_bind]
  apply wp_silently h hp.live (silent_observed silent_build fun _ => by exact rfl)
  intro r w₃ h
  apply wp_silently h hp.live (silent_orFail r)
  intro request w₄ h
  apply wp_heard h rfl (hp.next rfl)
  exact fun w₅ h => hQ breaker (some request) w₅ h

/-- What a model call lets be heard changes nothing. -/
theorem callActions_asking (runId : Uuid) :
    CallActions runId fun a => a.Silent ∨ ∃ event, a = .emitted event ∧ event.runId = runId ∧
      (Heard.asking n).next event = some (.asking n) where
  requested _ _ _ := .inl rfl
  textDelta _ := .inr ⟨_, rfl, rfl, rfl⟩
  toolCallStarted _ _ := .inr ⟨_, rfl, rfl, rfl⟩
  toolCallDelta _ _ := .inr ⟨_, rfl, rfl, rfl⟩
  toolCallCompleted _ := .inr ⟨_, rfl, rfl, rfl⟩

theorem wp_emitCacheMetrics_heard {usage : TokenUsage} {Q : Unit → World → Prop}
    (h : Hears ctx.runId w₀ (.spent n) w)
    (hQ : ∀ p w', Hears ctx.runId w₀ p w' → p = .spent n ∨ p = .metered n → Q () w') :
    wp (emitCacheMetrics host ctx.runId usage) Q (Unfinished ctx.runId w₀) w := by
  unfold emitCacheMetrics
  dsimp only
  split
  · exact hQ _ w h (.inl rfl)
  · rw [wp_bind]
    apply wp_heard h rfl rfl
    intro w₁ h
    have hstores : Performs Action.Silent (host.eventStores.forM fun store => do
        host.perform (.eventStored store (.cacheMetrics ctx.runId
          (usage.cacheCreationInputTokens.getD 0) (usage.cacheReadInputTokens.getD 0)
          (usage.cachedInputTokens.getD 0)) (host.eventFault (← get)))) := by
      apply performs_forM
      intro store
      exact performs_bind performs_get fun _ => performs_perform rfl
    apply wp_silently h (by simp) hstores
    exact fun _ w₂ h => hQ _ w₂ h (.inr rfl)

/-- The usage is announced before the message of the answer. -/
theorem wp_commitAnswer_heard {answer : ModelAnswer} {Q : LoopState → World → Prop}
    (h : Hears ctx.runId w₀ (.asking n) w)
    (hQ : ∀ l' w', l'.resumeFrom = l.resumeFrom → l'.iteration = l.iteration →
      Hears ctx.runId w₀ (.committed n) w' → Q l' w') :
    wp (commitAnswer host ctx l answer) Q (Unfinished ctx.runId w₀) w := by
  have hstore : ∀ {p : Heard} {w₁ : World} {l' : Uuid → LoopState}, Hears ctx.runId w₀ p w₁ →
      p = .asking n ∨ p = .spent n ∨ p = .metered n →
      (∀ id, (l' id).resumeFrom = l.resumeFrom ∧ (l' id).iteration = l.iteration) →
      wp (do
        let msgId ← host.appendMessage ctx.sessionId answer.message
        host.emit (.assistantMessageCommitted ctx.runId msgId)
        return l' msgId : M LoopState) Q (Unfinished ctx.runId w₀) w₁ := by
    intro p w₁ l' h hp hl'
    simp only [wp_bind, wp_pure]
    have hlive : ∀ m, p ≠ .completed m := by
      rcases hp with rfl | rfl | rfl <;> simp
    apply wp_silently h hlive silent_appendMessage
    intro msgId w₂ h
    have hnext : p.next (.assistantMessageCommitted ctx.runId msgId) = some (.committed n) := by
      rcases hp with rfl | rfl | rfl <;> rfl
    apply wp_heard h rfl hnext
    exact fun w₃ h => hQ _ w₃ (hl' msgId).1 (hl' msgId).2 h
  unfold commitAnswer
  cases husage : answer.usage with
  | none => exact hstore h (.inl rfl) fun _ => ⟨rfl, rfl⟩
  | some usage =>
    simp only [wp_bind (x := host.emit _)]
    apply wp_heard h rfl rfl
    intro w₁ h
    rw [wp_bind]
    apply wp_emitCacheMetrics_heard h
    exact fun p w₂ h hp => hstore h (.inr hp) fun _ => ⟨rfl, rfl⟩

/-- A model call is announced with the number of the iteration. -/
theorem wp_callingModel_heard {request : Option ChatRequest} {Q : Flow LoopState → World → Prop}
    (h : Hears ctx.runId w₀ (.built n) w) (hcp : l.resumeFrom = .checkingPolicy)
    (hl : l.iteration = n + 1)
    (hagain : ∀ l' w', l'.resumeFrom = .checkingPolicy → l'.iteration = n + 1 →
      Hears ctx.runId w₀ (.asking (n + 1)) w' → Q (.again l') w')
    (hnext : ∀ l' w', l'.resumeFrom = .checkingPolicy → l'.iteration = n + 1 →
      Hears ctx.runId w₀ (.committed (n + 1)) w' → Q (.next l') w') :
    wp (callingModel host rt ctx l request) Q (Unfinished ctx.runId w₀) w := by
  unfold callingModel
  rw [if_pos (.inl hcp)]
  simp only [LoopState.checking_eq hcp, wp_bind]
  apply wp_silently h (by simp) silent_enter
  intro _ w₁ h
  have hstarted : (Heard.built n).next (.modelStarted ctx.runId ctx.request.provider
      ctx.request.model l.iteration) = some (.asking (n + 1)) := if_pos hl
  apply wp_heard h rfl hstarted
  intro w₂ h
  cases request with
  | none => exact h.fail (by simp)
  | some request =>
    simp only [wp_bind]
    unfold observed
    rw [wp_bind]
    apply wp_unheard h (by simp)
      (performs_caught (performs_callModel (callActions_asking ctx.runId) ctx.provider request))
      fun _ ha => ha
    intro answer w₃ h
    rw [wp_bind]
    have h' : Hears ctx.runId w₀ (.asking (n + 1))
        (w₃.apply (.modelAnswered l.iteration request answer)) := h.silent rfl
    apply wp_perform_crash
    apply And.intro h'.crashed
    rw [wp_pure]
    cases answer with
    | ok answer =>
      simp only [modelOutcome, TurnTransition.resolve, orFail, wp_bind, wp_pure]
      apply wp_commitAnswer_heard h'
      intro l' w₄ hresume hiteration h
      exact hnext l' w₄ (hresume.trans hcp) (hiteration.trans hl) h
    | error e =>
      split
      · exact h'.fail (by simp)
      · simp only [wp_bind, wp_pure]
        apply wp_reactiveCompaction_heard h' (.inr (.inl rfl))
        exact fun breaker w₄ h => hagain _ w₄ hcp hl h
      · exact h'.fail (by simp)
      · exact h'.unfinished (by simp) _

/-- Between two passes: the pass has ended where it may, at the iteration of the last call. -/
def Paused (runId : Uuid) (w₀ : World) (l : LoopState) (w : World) : Prop :=
  l.resumeFrom = .checkingPolicy ∧ ∃ p : Heard, p.Boundary l.iteration ∧ Hears runId w₀ p w

/-- An answer is stored. -/
def Answered (runId : Uuid) (w₀ : World) (l : LoopState) (w : World) : Prop :=
  l.resumeFrom = .checkingPolicy ∧ ∃ p : Heard, p.Responded l.iteration ∧ Hears runId w₀ p w

theorem Answered.paused {runId : Uuid} (h : Answered runId w₀ l w) : Paused runId w₀ l w := by
  obtain ⟨hcp, p, hp, hhears⟩ := h
  exact ⟨hcp, p, hp.boundary, hhears⟩

theorem wp_processingResponse_heard {Q : Flow (LoopState × List ToolCall) → World → Prop}
    (h : Hears ctx.runId w₀ (.committed l.iteration) w) (hcp : l.resumeFrom = .checkingPolicy)
    (hagain : ∀ l' w', Paused ctx.runId w₀ l' w' → Q (.again l') w')
    (hleave : ∀ l' w', Answered ctx.runId w₀ l' w' → Q (.leave l') w')
    (hnext : ∀ l' calls w', l'.resumeFrom = .checkingPolicy →
      Hears ctx.runId w₀ (.committed l'.iteration) w' → Q (.next (l', calls)) w') :
    wp (processingResponse host rt ctx l) Q (Unfinished ctx.runId w₀) w := by
  unfold processingResponse
  rw [if_pos (.inl hcp)]
  simp only [LoopState.checking_eq hcp]
  split
  · exact h.fail (by simp)
  · next message _ =>
    split
    · exact h.fail (by simp)
    · next finish _ =>
      split
      · rw [wp_bind]
        apply wp_silently h (by simp) silent_appendMessage
        intro id w₁ h
        exact hagain _ w₁ ⟨rfl, _, .inr (.inr (.inl rfl)), h⟩
      · unfold responseOutcome
        cases message.toolCalls.isEmpty with
        | true => exact hleave l w ⟨hcp, _, .inl rfl, h⟩
        | false =>
          by_cases htools : finish = .toolCalls
          · subst htools
            exact hnext l _ w hcp h
          · simp only [htools, ne_eq, not_false_eq_true, Bool.false_eq_true, if_true, if_false,
              TurnTransition.resolve]
            exact hleave l w ⟨hcp, _, .inl rfl, h⟩

/-- Every outcome is stored and announced. -/
theorem wp_storeOutcomes_heard {outcomes : List ToolExecutionOutcome} {Q : PUnit → World → Prop}
    (hp : p.Responded n) (h : Hears ctx.runId w₀ p w)
    (hQ : ∀ q w', q.Responded n → Hears ctx.runId w₀ q w' → Q ⟨⟩ w') :
    wp (outcomes.forM (storeOutcome host ctx)) Q (Unfinished ctx.runId w₀) w := by
  induction outcomes generalizing p w with
  | nil => exact hQ p w hp h
  | cons outcome outcomes ih =>
    apply (wp_bind (x := storeOutcome host ctx outcome)
      fun _ => outcomes.forM (storeOutcome host ctx)).mpr
    unfold storeOutcome
    rw [wp_bind]
    apply wp_silently h hp.boundary.live silent_appendMessage
    intro toolMsgId w₁ h
    apply wp_heard h rfl hp.stored
    exact fun w₂ h => ih (.inr rfl) h

/-- A doom loop is announced before the run fails on it. -/
theorem wp_executingTools_heard {calls : List ToolCall} {Q : LoopState → World → Prop}
    (h : Hears ctx.runId w₀ (.committed l.iteration) w) (hcp : l.resumeFrom = .checkingPolicy)
    (hQ : ∀ l' w', Answered ctx.runId w₀ l' w' → Q l' w') :
    wp (executingTools host rt ctx l calls) Q (Unfinished ctx.runId w₀) w := by
  unfold executingTools
  rw [if_pos (.inl hcp)]
  simp only [LoopState.checking_eq hcp, wp_bind]
  apply wp_silently h (by simp) silent_enter
  intro _ w₁ h
  split
  · exact h.fail (by simp)
  · next msgId _ =>
    rw [wp_bind, Setting.checkDoomLoop_eq]
    cases l.doomDetector.checkCalls host.callHash calls with
    | error found =>
      simp only [wp_bind]
      apply wp_heard h rfl rfl
      intro w₂ h
      apply wp_failRun_heard h rfl
      exact fun w₃ h => h.fail (by simp)
    | ok d =>
      rw [wp_pure]
      have hbatch : Performs Action.Silent
          (rt.tools.executeBatch host calls ctx.sessionId msgId) := fun w =>
        wp_mono (ToolRuntime.wp_executeBatch batchActions_silent calls ctx.sessionId msgId w)
          (fun _ _ hr => hr.2) fun _ _ he => he
      simp only [wp_bind]
      apply wp_silently h (by simp) (silent_observed hbatch fun _ => by exact rfl)
      intro r w₂ h
      apply wp_silently h (by simp) (silent_orFail r)
      intro outcomes w₃ h
      apply wp_storeOutcomes_heard (.inl rfl) h
      exact fun q w₄ hq h => hQ _ w₄ ⟨hcp, q, hq, h⟩

theorem wp_persisting_heard {Q : Flow LoopState → World → Prop}
    (h : Answered ctx.runId w₀ l w)
    (hleave : ∀ l' w', Answered ctx.runId w₀ l' w' → Q (.leave l') w')
    (hnext : ∀ l' w', Answered ctx.runId w₀ l' w' → Q (.next l') w') :
    wp (persisting host rt ctx l) Q (Unfinished ctx.runId w₀) w := by
  obtain ⟨hcp, p, hp, h⟩ := h
  unfold persisting
  rw [if_pos (.inl hcp)]
  simp only [LoopState.checking_eq hcp, wp_bind]
  apply wp_silently h hp.boundary.live silent_enter
  intro _ w₁ h
  split
  · exact h.fail hp.boundary.live
  · split
    · exact hleave l w₁ ⟨hcp, p, hp, h⟩
    · exact hnext l w₁ ⟨hcp, p, hp, h⟩
    · exact h.unfinished hp.boundary.live _

/-! ### Passes, loops and runs -/

/-- What a pass leaves, whichever way it ends. -/
def PassHeard (runId : Uuid) (w₀ : World) : Pass LoopState LoopState → World → Prop
  | .again l, w => Paused runId w₀ l w
  | .done l, w => Answered runId w₀ l w

theorem wp_respond_heard (h : Hears ctx.runId w₀ (.committed l.iteration) w)
    (hcp : l.resumeFrom = .checkingPolicy) :
    wp (respond host rt ctx l) (PassHeard ctx.runId w₀) (Unfinished ctx.runId w₀) w := by
  unfold respond
  rw [wp_bind]
  apply wp_processingResponse_heard h hcp
  · exact fun l' w' h => h
  · exact fun l' w' h => h
  · intro l' calls w₁ hcp h
    simp only [answerCalls, wp_bind]
    apply wp_executingTools_heard h hcp
    intro l' w₂ h
    apply wp_persisting_heard h
    · exact fun l' w' h => h
    · exact fun l' w' h => h.paused

/-- A pass announces its context and its model call. -/
theorem wp_pass_heard (h : Paused ctx.runId w₀ l w) :
    wp (pass host rt ctx l) (PassHeard ctx.runId w₀) (Unfinished ctx.runId w₀) w := by
  obtain ⟨hcp, p, hp, h⟩ := h
  unfold pass
  rw [wp_bind]
  apply wp_checkingPolicy_heard h hp hcp
  intro w₁ h
  unfold consult
  rw [wp_bind]
  apply wp_buildingContext_heard (l := { l with iteration := l.iteration + 1 }) h hp hcp
  intro breaker request w₂ h
  rw [wp_bind]
  apply wp_callingModel_heard (l := { l with iteration := l.iteration + 1, breaker := breaker }) h
    hcp rfl
  · intro l' w₃ hcp' hl' h
    refine ⟨hcp', .asking l'.iteration, .inr (.inl rfl), ?_⟩
    rw [hl']
    exact h
  · intro l' w₃ hcp' hl' h
    rw [← hl'] at h
    exact wp_respond_heard h hcp'

/-- The run announces that it is complete, with the number of its model calls. -/
def Finished (runId : Uuid) (w₀ : World) (out : RunOutput) (w : World) : Prop :=
  out.runId = runId ∧ Hears runId w₀ (.completed out.iterations) w

theorem wp_completeRun_heard (h : Answered ctx.runId w₀ l w) :
    wp (completeRun host ctx l) (Finished ctx.runId w₀) (Unfinished ctx.runId w₀) w := by
  obtain ⟨-, p, hp, h⟩ := h
  unfold completeRun
  simp only [wp_bind]
  apply wp_silently h hp.boundary.live silent_updateStatus
  intro _ w₁ h
  apply wp_heard h rfl hp.completed
  exact fun w₂ h => ⟨rfl, h⟩

theorem wp_runLoop_heard (fuel : Nat) (h : Paused ctx.runId w₀ l w) :
    wp (runLoop host rt ctx fuel l) (Finished ctx.runId w₀) (Unfinished ctx.runId w₀) w := by
  have hdelete : Performs Action.Silent (deleteSnapshot host rt ctx.runId) := by
    apply performs_ite _ (performs_pure _)
    exact performs_onSnapshot fun _ => rfl
  have hloop : wp (runLoopInner host rt ctx fuel l) (Finished ctx.runId w₀)
      (Unfinished ctx.runId w₀) w := by
    unfold runLoopInner
    rw [wp_bind]
    apply wp_iterate (Paused ctx.runId w₀)
    · intro l w h
      apply wp_mono (wp_pass_heard h) _ fun _ _ he => he
      intro r w' h
      cases r with
      | again l' => exact h
      | done l' => exact wp_completeRun_heard h
    · exact fun l w ⟨_, _, hp, h⟩ => h.unfinished hp.live _
    · exact h
  unfold runLoop andThen
  rw [wp_bind]
  apply wp_caught
  apply wp_mono hloop
  · intro out w₁ ⟨hrun, h⟩
    rw [wp_bind]
    apply wp_caughtSilently h hdelete
    exact fun _ w₂ h => ⟨hrun, h⟩
  · intro e w₁ h
    cases e with
    | failed e =>
      obtain ⟨p, h, hp⟩ := h
      dsimp only
      rw [wp_bind]
      apply wp_caughtSilently h hdelete
      exact fun _ w₂ h => h.fail fun n => hp e n rfl
    | crashed | panicked | outOfFuel => exact h

theorem silent_chatProvider {id : String} :
    Performs Action.Silent (chatProvider host rt id) := by
  apply performs_bind (performs_perform (by exact rfl))
  intro _
  cases rt.providers.chat id with
  | some provider => exact performs_pure _
  | none => exact performs_fail _

theorem wp_startRun_heard {fuel : Nat} {runId sessionId : Uuid} {request : RunRequest}
    (h : Hears runId w₀ .nothing w) :
    wp (rt.startRun host fuel runId sessionId request) (Finished runId w₀)
      (Unfinished runId w₀) w := by
  unfold startRun
  rw [wp_bind]
  apply wp_heard h rfl rfl
  intro w₁ h
  rw [wp_bind]
  apply wp_silently h (by simp) silent_updateStatus
  intro _ w₂ h
  rw [wp_bind]
  apply wp_silently h (by simp) silent_appendMessage
  intro msgId w₃ h
  rw [wp_bind]
  apply wp_silently h (by simp) silent_chatProvider
  intro provider w₄ h
  exact wp_runLoop_heard fuel ⟨rfl, _, .inl rfl, h⟩

theorem silent_of_admitting {a : Action} (h : Setting.Admitting a) : a.Silent := by
  obtain ⟨hpre, -⟩ := h
  cases a with
  | emitted event => cases hpre
  | _ => rfl

theorem silent_ensureSession {sessionId : Option Uuid} :
    Performs Action.Silent (ensureSession host sessionId) := by
  cases sessionId with
  | some id =>
    apply performs_bind (performs_onSession fun _ => rfl)
    intro _
    apply performs_bind performs_get
    intro w
    exact performs_ite (performs_bind (performs_fail _) fun _ => performs_pure _) (performs_pure _)
  | none =>
    apply performs_bind (performs_newId silent_drew)
    intro id
    exact performs_bind (performs_onSession fun _ => rfl) fun _ => performs_pure _

theorem silent_createRun {runId sessionId : Uuid} {request : RunRequest} :
    Performs Action.Silent (createRun host runId sessionId request) :=
  performs_bind (performs_readClock silent_drew) fun _ => performs_onRun fun _ => rfl

/-- Nothing is heard before the run is accepted. -/
theorem wp_accepted_heard {fuel : Nat} {runId : Uuid} {request : RunRequest}
    (h : Hears runId w₀ .nothing w) :
    wp (do
      let sessionId ← ensureSession host request.sessionId
      acquire host sessionId
      rt.admitInput host sessionId request.input
      createRun host runId sessionId request
      rt.startRun host fuel runId sessionId request)
      (Finished runId w₀) (Unfinished runId w₀) w := by
  rw [wp_bind]
  apply wp_silently h (by simp) silent_ensureSession
  intro sessionId w₁ h
  rw [wp_bind]
  apply wp_silently h (by simp) ((Setting.performs_acquire host sessionId).mono
    fun a ha => silent_of_admitting ha)
  intro _ w₂ h
  rw [wp_bind]
  apply wp_silently h (by simp) ((Setting.performs_admitInput host rt sessionId request.input).mono
    fun a ha => silent_of_admitting ha)
  intro _ w₃ h
  rw [wp_bind]
  apply wp_silently h (by simp) silent_createRun
  exact fun _ w₄ h => wp_startRun_heard h

theorem hears_nothing (runId : Uuid) (w : World) : Hears runId w .nothing w :=
  ⟨[], (List.append_nil _).symm, rfl⟩

theorem wp_run_heard (host : Host) (rt : AgentRuntime) (fuel : Nat) (request : RunRequest)
    (w : World) :
    wp (rt.run host fuel request) (fun out w' => Finished out.runId w out w')
      (fun e w' => ∃ runId, Unfinished runId w e w') w := by
  have hends : ∀ (runId : Uuid) (x : M RunOutput) (w₁ : World),
      wp x (Finished runId w) (Unfinished runId w) w₁ →
      wp x (fun out w' => Finished out.runId w out w') (fun e w' => ∃ runId, Unfinished runId w e w')
        w₁ := by
    intro runId x w₁ hx
    apply wp_mono hx
    · rintro out w' ⟨hrun, h⟩
      exact ⟨rfl, hrun ▸ h⟩
    · exact fun e w' h => ⟨runId, h⟩
  unfold run
  cases request.runId with
  | some id => exact hends id _ w (wp_accepted_heard (hears_nothing id w))
  | none =>
    simp only
    rw [wp_bind]
    have hdrew : ∀ id, Hears id w .nothing (w.apply .drew) := fun id =>
      (hears_nothing id w).silent rfl
    apply wp_newId_crash
    exact ⟨⟨0, (hdrew 0).crashed⟩, fun id => hends id _ _ (wp_accepted_heard (hdrew id))⟩

/-- **The events of a run are a word of the listener, whatever the collaborators do**: they are
events of the run, its start comes first, its end last, the model calls are numbered from one and
announced after their contexts, an answer is stored before the messages of its tools, and a doom
loop is announced before the run fails on it. A run that returns a value has announced that it
is complete, with the number of its model calls; one that returns an error has not. -/
theorem events_of_run (host : Host) (rt : AgentRuntime) (fuel : Nat) (request : RunRequest)
    (w : World) :
    ∃ runId as p, (final (rt.run host fuel request w)).trace = w.trace ++ as ∧
      Heard.listen runId (heardIn as) = some p ∧ Heard.Word runId (heardIn as) p ∧
      (∀ out w', rt.run host fuel request w = .ok out w' →
        out.runId = runId ∧ p = .completed out.iterations) ∧
      (∀ e w', rt.run host fuel request w = .error (.failed e) w' → ∀ n, p ≠ .completed n) := by
  have hwp := wp_run_heard host rt fuel request w
  cases hrun : rt.run host fuel request w with
  | ok out w' =>
    obtain ⟨-, as, htrace, hlisten⟩ := wp_ok hwp hrun
    refine ⟨out.runId, as, _, htrace, hlisten, Heard.word_of_listen hlisten, ?_, nofun⟩
    rintro _ _ ⟨⟩
    exact ⟨rfl, rfl⟩
  | error e w' =>
    obtain ⟨runId, p, ⟨as, htrace, hlisten⟩, hp⟩ := wp_error hwp hrun
    refine ⟨runId, as, p, htrace, hlisten, Heard.word_of_listen hlisten, nofun, ?_⟩
    rintro error _ ⟨⟩ n
    exact hp error n rfl

end AgentRuntime

end Behest
