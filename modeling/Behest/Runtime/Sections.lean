import Behest.Runtime.Follows

/-!
# The sections of a pass

The invariant of the turn loop, which ties its variables to a stage of the protocol, and
what each section of a pass makes of it. A section whose gate is closed does nothing; one
whose gate is open follows the protocol.
-/

namespace Behest

open Effect Compaction

namespace LoopState

/-- The phase a pass starts in. -/
def phase (l : LoopState) : Phase :=
  if l.resumeFrom = .executingTools then
    match l.assistantMessage, l.lastFinish with
    | some message, some finish => .committed message finish
    | _, _ => .idle
  else .idle

/-- The iteration a pass counts as. -/
def counted (l : LoopState) : Nat :=
  if l.resumeFrom = .checkingPolicy then l.iteration + 1 else l.iteration

/-- The invariant of the loop: the variables are those of a snapshot that can be saved, but
for the iteration that the next pass may still have to count. -/
structure Ready (policy : RuntimePolicy) (l : LoopState) (st : Stage) : Prop where
  state : l.resumeFrom ≠ .compacting ∧ l.resumeFrom ≠ .processingResponse
  bounded : l.resumeFrom ≠ .checkingPolicy → 1 ≤ l.iteration ∧ l.iteration ≤ policy.maxIterations
  asked : l.resumeFrom = .executingTools ∨ l.resumeFrom = .persisting →
    l.lastFinish = some .toolCalls ∧ l.assistantMsgId.isSome ∧
      ∃ message, l.assistantMessage = some message ∧ message.toolCalls ≠ []
  phase : st.phase = l.phase
  detector : st.detector = l.doomDetector
  breaker : l.breaker = .new policy.compaction.circuitBreakerThreshold

/-- A success leaves a breaker that has counted no failure as it is. -/
theorem recordSuccess_new {l : LoopState} {threshold : Nat} (h : l.breaker = .new threshold) :
    { l with breaker := l.breaker.recordSuccess } = l := by
  cases l
  cases h
  rfl

/-- A new run is ready for its first pass. -/
theorem ready_start (policy : RuntimePolicy) :
    Ready policy (.start policy) ⟨.idle, .new policy.doomLoop⟩ where
  state := ⟨by rintro ⟨⟩, by rintro ⟨⟩⟩
  bounded h := absurd rfl h
  asked := by rintro (⟨⟨⟩⟩ | ⟨⟨⟩⟩)
  phase := rfl
  detector := rfl
  breaker := rfl

/-- A snapshot that can be saved is ready to be resumed from. -/
theorem ready_ofSnapshot {policy : RuntimePolicy} {s : Snapshot} (h : Savable policy s) :
    Ready policy (.ofSnapshot policy s) ⟨(ofSnapshot policy s).phase, .new policy.doomLoop⟩ where
  state := h.state
  bounded hcp := ⟨h.started, h.bounded hcp⟩
  asked := h.asked
  phase := rfl
  detector := rfl
  breaker := rfl

end LoopState

namespace Setting

variable {S : Setting} {w₀ w : World} {st₀ st : Stage} {provider : ChatProvider} {l : LoopState}

/-- The iteration of a pass that has passed the policy. -/
def Within (S : Setting) (l : LoopState) : Prop :=
  1 ≤ l.iteration ∧ l.iteration ≤ S.rt.policy.maxIterations

/-! ### Entering a state -/

/-- Snapshots are taken of variables that can be saved. -/
theorem wp_saveSnapshot [S.Refuses w₀ st₀ st.phase (S.Halts w₀ st₀)] {state : TurnState}
    {Q : Unit → World → Prop}
    (h : S.Follows w₀ st₀ w st) (live : st.phase.Live)
    (hs : ∀ t, Savable S.rt.policy (l.snapshot (S.context provider) state t))
    (hQ : ∀ w', S.Follows w₀ st₀ w' st → Q () w') :
    wp (AgentRuntime.saveSnapshot S.host S.rt (S.context provider) l state) Q
      (S.Halts w₀ st₀) w := by
  unfold AgentRuntime.saveSnapshot
  split
  · rw [wp_bind]
    apply wp_drawTime h live
    intro t h
    apply wp_onSnapshot_crash
    · intro e
      have h' := h.fault live
        (a := .snapshot (.save (l.snapshot (S.context provider) state t)) (some e)) rfl
      exact ⟨AcceptsCrash.crash h', Refuses.refuse h'⟩
    · have h' := h.quiet live
        (a := .snapshot (.save (l.snapshot (S.context provider) state t)) none) ⟨hs t, rfl, rfl⟩
      exact ⟨AcceptsCrash.crash h', hQ _ h'⟩
  · exact hQ w h

theorem wp_enter [S.Refuses w₀ st₀ st.phase (S.Halts w₀ st₀)] {state : TurnState}
    {Q : Unit → World → Prop}
    (h : S.Follows w₀ st₀ w st) (live : st.phase.Live)
    (hs : ∀ t, Savable S.rt.policy (l.snapshot (S.context provider) state t))
    (hQ : ∀ w', S.Follows w₀ st₀ w' st → Q () w') :
    wp (AgentRuntime.enter S.host S.rt (S.context provider) l state) Q (S.Halts w₀ st₀) w := by
  unfold AgentRuntime.enter
  rw [wp_bind]
  apply wp_saveSnapshot h live hs
  intro w' h
  exact wp_runCall h live (.quiet live ⟨rfl, by simp, rfl⟩) (hQ _)

/-- A run that fails announces it, whether or not its status could be written. -/
theorem wp_failRun {e : RuntimeError} {p : Phase} {d : DoomLoopDetector}
    {Q : Unit → World → Prop} (h : S.Follows w₀ st₀ w ⟨p, d⟩) (hp : p = .idle ∨ p = .condemned)
    (hQ : ∀ w', S.Follows w₀ st₀ w' ⟨.ended .failed, d⟩ → Q () w') :
    wp (AgentRuntime.failRun S.host S.runId e) Q (S.Halts w₀ st₀) w := by
  have hclosing : ∀ fault,
      S.Follows w₀ st₀ (w.apply (.run (.updateRunStatus S.runId .failed) fault))
        ⟨.closing .failed, d⟩ := fun fault => h.snoc (.failing fault hp)
  unfold AgentRuntime.failRun
  rw [wp_bind]
  apply wp_caught
  apply wp_onRun_crash
  · intro e'
    exact ⟨AcceptsCrash.crash (E := S.Halts w₀ st₀) (hclosing _),
      wp_act (hclosing _) .announceFailure (hQ _)⟩
  · intro _
    exact ⟨AcceptsCrash.crash (E := S.Halts w₀ st₀) (hclosing _),
      wp_act (hclosing _) .announceFailure (hQ _)⟩

/-! ### CheckingPolicy -/

/-- The check counts the iteration and lets it pass within the limit. -/
theorem wp_checkingPolicy {Q : LoopState → World → Prop} (h : S.Follows w₀ st₀ w st)
    (hp : st.phase = .idle) (hcp : l.resumeFrom = .checkingPolicy)
    (hQ : ∀ w', S.Follows w₀ st₀ w' st → l.iteration + 1 ≤ S.rt.policy.maxIterations →
      Q { l with iteration := l.iteration + 1 } w') :
    wp (AgentRuntime.checkingPolicy S.host S.rt (S.context provider) l) Q (S.Halts w₀ st₀) w := by
  obtain ⟨p, d⟩ := st
  obtain rfl : p = .idle := hp
  unfold AgentRuntime.checkingPolicy
  rw [if_pos hcp, wp_bind]
  apply wp_saveSnapshot h trivial
  · exact fun t => ⟨⟨nofun, nofun⟩, Nat.le_add_left 1 _, fun hne => absurd rfl hne, nofun⟩
  · intro w' h
    have hfail : ∀ e, wp (do
        AgentRuntime.failRun S.host S.runId e
        fail e : M LoopState) Q (S.Halts w₀ st₀) w' := by
      intro e
      rw [wp_bind]
      apply wp_failRun h (.inl rfl)
      exact fun w' h => ⟨_, h, .inr (.inr rfl)⟩
    unfold AgentRuntime.policyOutcome
    by_cases hle : l.iteration + 1 > S.rt.policy.maxIterations
    · simp only [hle, if_true, TurnTransition.resolve]
      exact hfail _
    · have hpass := hQ w' h (Nat.le_of_not_gt hle)
      simp only [hle, if_false]
      cases S.rt.policy.maxTokens with
      | none => exact hpass
      | some budget =>
        by_cases hbudget : l.totalUsage.totalTokens ≥ budget
        · simp only [hbudget, if_true, TurnTransition.resolve]
          exact hfail _
        · simp only [hbudget, if_false]
          exact hpass

/-! ### BuildingContext -/

/-- A failed compaction ends the run, after the breaker has opened if it had to. -/
theorem wp_compactionFailed {α : Type} {e : RuntimeError} {Q : α → World → Prop}
    (h : S.Follows w₀ st₀ w st)
    (hp : st.phase = .afterFailure S.rt.policy.compaction.circuitBreakerThreshold)
    (hb : l.breaker = .new S.rt.policy.compaction.circuitBreakerThreshold) :
    wp (AgentRuntime.compactionFailed S.host (S.context provider) l e) Q (S.Halts w₀ st₀) w := by
  obtain ⟨p, d⟩ := st
  have hp : p = .afterFailure S.rt.policy.compaction.circuitBreakerThreshold := hp
  unfold AgentRuntime.compactionFailed
  rw [hb]
  by_cases hopen : S.rt.policy.compaction.circuitBreakerThreshold ≤ 1
  · have hrecord : (CompactionCircuitBreaker.new
        S.rt.policy.compaction.circuitBreakerThreshold).recordFailure.1 = true := by
      simp [CompactionCircuitBreaker.recordFailure, CompactionCircuitBreaker.new,
        CompactionCircuitBreaker.isOpen, hopen]
    obtain rfl : p = .tripped := hp.trans (if_pos hopen)
    simp only [hrecord, if_true, wp_bind]
    apply wp_act h .breakerOpened
    exact fun h => ⟨_, h, .inr (.inl rfl)⟩
  · have hrecord : (CompactionCircuitBreaker.new
        S.rt.policy.compaction.circuitBreakerThreshold).recordFailure.1 = false := by
      simp [CompactionCircuitBreaker.recordFailure, CompactionCircuitBreaker.new,
        CompactionCircuitBreaker.isOpen, hopen]
    obtain rfl : p = .degraded := hp.trans (if_neg hopen)
    simp only [hrecord, Bool.false_eq_true, if_false]
    exact ⟨_, h, .inr (.inl rfl)⟩

/-- The answer of a compaction, entered in the transcript. -/
theorem wp_observedCompaction {x : M (Option CompactionResult)} {kind : CompactionKind}
    {Q : Except RuntimeError (Option CompactionResult) → World → Prop} {d : DoomLoopDetector}
    (hx : wp x (fun _ w' => S.Follows w₀ st₀ w' ⟨.compacting kind, d⟩) (S.Compacts w₀ st₀ kind) w)
    (hok : ∀ r w', S.Follows w₀ st₀ w' ⟨.idle, d⟩ → Q (.ok r) w')
    (herror : ∀ e w' st', S.Follows w₀ st₀ w' st' →
      st'.phase = .afterFailure S.rt.policy.compaction.circuitBreakerThreshold →
      Q (.error e) w') :
    wp (AgentRuntime.observed S.host x (.compacted kind)) Q (S.Halts w₀ st₀) w := by
  apply wp_observed
  apply wp_caught
  apply wp_mono hx
  · exact fun r w' h => ⟨_, _, h, .compacted, hok r _⟩
  · intro e w' he
    cases e with
    | failed e =>
      obtain ⟨st', h, hp⟩ := he
      exact ⟨st', _, h, .compactionFailed hp, fun h => herror e _ _ h rfl⟩
    | crashed => exact he
    | panicked => exact he
    | outOfFuel => exact he

/-- A proactive compaction that does not fail changes nothing of the loop. -/
theorem wp_proactiveCompaction {d : DoomLoopDetector} {Q : LoopState → World → Prop}
    (h : S.Follows w₀ st₀ w ⟨.idle, d⟩)
    (hb : l.breaker = .new S.rt.policy.compaction.circuitBreakerThreshold)
    (hQ : ∀ w', S.Follows w₀ st₀ w' ⟨.idle, d⟩ → Q l w') :
    wp (AgentRuntime.proactiveCompaction S.host S.rt (S.context provider) l) Q
      (S.Halts w₀ st₀) w := by
  unfold AgentRuntime.proactiveCompaction
  split
  · split
    · rw [wp_bind]
      apply wp_listMessages h (fun _ => .fault trivial rfl) .considered
      intro w' h
      rw [wp_bind]
      apply wp_observedCompaction (wp_compactIfNeeded h)
      · intro r w' h
        cases r with
        | none => exact hQ w' h
        | some result => exact (LoopState.recordSuccess_new hb).symm ▸ hQ w' h
      · intro e w' st' h hst'
        exact wp_compactionFailed h hst' hb
    · exact hQ w h
  · exact hQ w h

/-- A request is built of the history the session holds. -/
theorem wp_build {user : Option String} {tools : Option (List ToolSpec)} {d : DoomLoopDetector}
    {Q : Except RuntimeError ChatRequest → World → Prop} {next : ChatRequest → Phase}
    (h : S.Follows w₀ st₀ w ⟨.idle, d⟩)
    (hnext : ∀ w' request, S.Assembled w' user request →
      S.Step w' ⟨.idle, d⟩ (.contextBuilt (.ok request)) ⟨next request, d⟩)
    (hok : ∀ request w', S.Follows w₀ st₀ w' ⟨next request, d⟩ → Q (.ok request) w')
    (herror : ∀ e w', S.Follows w₀ st₀ w' ⟨.halted, d⟩ → Q (.error e) w') :
    wp (AgentRuntime.observed S.host
      (S.rt.context.build S.host S.sessionId S.request.model user tools) .contextBuilt) Q
      (S.Halts w₀ st₀) w := by
  apply wp_observed
  apply wp_caught
  unfold Context.ContextPipeline.build
  simp only [wp_bind, wp_get]
  cases hfragments : Context.factoryBuild w ⟨user, some (Uuid.display S.sessionId)⟩
      S.rt.context.adapters with
  | error e => exact ⟨_, _, h, .contextFailed (.inl rfl), herror _ _⟩
  | ok fragments =>
    simp only [wp_bind, wp_pure, Host.listMessages, wp_get]
    apply wp_onSession_crash
    · intro e
      have h' := h.fault (a := .session (.listMessages S.sessionId) (some e)) trivial rfl
      exact ⟨AcceptsCrash.crash (E := S.Halts w₀ st₀) h', _, _, h', .contextFailed (.inr rfl),
        herror _ _⟩
    · intro _
      have h' := h.quiet (a := .session (.listMessages S.sessionId) none) trivial rfl
      apply And.intro (AcceptsCrash.crash (E := S.Halts w₀ st₀) h')
      apply wp_newId_crash
      have h'' := h'.quiet (a := .drew) trivial trivial
      apply And.intro (AcceptsCrash.crash (E := S.Halts w₀ st₀) h'')
      intro id
      refine ⟨_, _, h'', hnext _ _ ⟨id, fragments, tools, ?_, rfl⟩, hok _ _⟩
      intro hadapters
      rw [hadapters] at hfragments
      cases hfragments
      rfl

/-- Snapshots of the states before a response need only the bounds of the iteration. -/
theorem savable_of_within {state : TurnState} (hl : S.Within l)
    (hstate : state = .buildingContext ∨ state = .callingModel) (t : Nat) :
    Savable S.rt.policy (l.snapshot (S.context provider) state t) := by
  rcases hstate with rfl | rfl <;> exact ⟨⟨nofun, nofun⟩, hl.1, fun _ => hl.2, nofun⟩

/-- The request is kept for the model, or built in vain. -/
theorem wp_buildingContext {d : DoomLoopDetector} {next : ChatRequest → Phase}
    {Q : LoopState × Option ChatRequest → World → Prop} (h : S.Follows w₀ st₀ w ⟨.idle, d⟩)
    (hgate : l.resumeFrom = .checkingPolicy ∨ l.resumeFrom = .buildingContext ∨
      l.resumeFrom = .callingModel)
    (hl : S.Within l) (hb : l.breaker = .new S.rt.policy.compaction.circuitBreakerThreshold)
    (hnext : next = .built l.iteration ∨ next = fun _ => .idle)
    (hQ : ∀ request w', S.Follows w₀ st₀ w' ⟨next request, d⟩ → Q (l, some request) w') :
    wp (AgentRuntime.buildingContext S.host S.rt (S.context provider) l) Q (S.Halts w₀ st₀) w := by
  unfold AgentRuntime.buildingContext
  rw [if_pos hgate, wp_bind]
  apply wp_enter h trivial (savable_of_within hl (.inl rfl))
  intro w₁ h
  rw [wp_bind]
  apply wp_proactiveCompaction h hb
  intro w₂ h
  rw [wp_bind]
  have hstep : ∀ w' request, S.Assembled w' (AgentRuntime.requestInput (S.context provider) l)
      request → S.Step w' ⟨.idle, d⟩ (.contextBuilt (.ok request)) ⟨next request, d⟩ := by
    intro w' request hassembled
    rcases hnext with rfl | rfl
    · exact .contextBuilt hassembled
    · exact .contextDiscarded
  apply wp_build h hstep
  · intro request w₃ h
    have live : (next request).Live := by rcases hnext with rfl | rfl <;> trivial
    simp only [AgentRuntime.orFail, wp_bind, wp_pure]
    exact wp_emit h live ⟨rfl, rfl⟩ (hQ request _)
  · exact fun e w₃ h => Accepts.halt (E := S.Halts w₀ st₀) h

/-! ### CallingModel -/

/-- The answer of the model, entered in the transcript. -/
theorem wp_observedModel {iteration : Nat} {request : ChatRequest} {d : DoomLoopDetector}
    {Q : Except RuntimeError ModelAnswer → World → Prop}
    (h : S.Follows w₀ st₀ w ⟨.built iteration request, d⟩)
    (hok : ∀ answer w', S.Follows w₀ st₀ w' ⟨.answered answer, d⟩ → Q (.ok answer) w')
    (hoverflow : ∀ e w', e.isContextOverflow = true →
      S.Follows w₀ st₀ w' ⟨if S.rt.policy.compaction.auto then .overflowed else .idle, d⟩ →
      Q (.error (.provider e)) w')
    (hfailed : ∀ e w', (∀ e', e = .provider e' → e'.isContextOverflow = false) →
      S.Follows w₀ st₀ w' ⟨.halted, d⟩ → Q (.error e) w') :
    wp (AgentRuntime.observed S.host (AgentRuntime.callModel S.host provider request S.runId)
      (.modelAnswered iteration request)) Q (S.Halts w₀ st₀) w := by
  apply wp_observed
  apply wp_caughtQuietly
    (AgentRuntime.performs_callModel callActions_quiet provider request) h trivial
  intro r w' h
  cases r with
  | ok answer => exact ⟨_, _, h, .modelAnswered, hok answer _⟩
  | error e =>
    by_cases hover : ∃ e', e = .provider e' ∧ e'.isContextOverflow = true
    · obtain ⟨e', rfl, hover⟩ := hover
      exact ⟨_, _, h, .modelOverflowed hover, hoverflow e' _ hover⟩
    · have hnot : ∀ e', e = .provider e' → e'.isContextOverflow = false := by
        intro e' he
        by_contra hne
        exact hover ⟨e', he, by simpa using hne⟩
      exact ⟨_, _, h, .modelFailed hnot, hfailed e _ hnot⟩

/-- A reactive compaction that does not fail leaves the loop ready for another pass. -/
theorem wp_reactiveCompaction {d : DoomLoopDetector} {Q : LoopState → World → Prop}
    (h : S.Follows w₀ st₀ w
      ⟨if S.rt.policy.compaction.auto then .overflowed else .idle, d⟩)
    (hb : l.breaker = .new S.rt.policy.compaction.circuitBreakerThreshold)
    (hQ : ∀ w', S.Follows w₀ st₀ w' ⟨.idle, d⟩ → Q l w') :
    wp (AgentRuntime.reactiveCompaction S.host S.rt (S.context provider) l) Q
      (S.Halts w₀ st₀) w := by
  unfold AgentRuntime.reactiveCompaction
  cases hauto : S.rt.policy.compaction.auto with
  | false =>
    rw [hauto] at h
    exact hQ w h
  | true =>
    rw [hauto] at h
    simp only [if_true, wp_bind]
    apply wp_listMessages h (fun _ => .historyRefused) .historyRead
    intro w' h
    apply wp_observedCompaction (d := d)
    · rw [wp_map]
      exact wp_compactAfterOverflow h
    · intro r w' h
      exact (LoopState.recordSuccess_new hb).symm ▸ hQ w' h
    · intro e w' st' h hst'
      exact wp_compactionFailed h hst' hb

theorem wp_emitCacheMetrics {usage : TokenUsage} {Q : Unit → World → Prop}
    (h : S.Follows w₀ st₀ w st) (live : st.phase.Live)
    (hQ : ∀ w', S.Follows w₀ st₀ w' st → Q () w') :
    wp (AgentRuntime.emitCacheMetrics S.host S.runId usage) Q (S.Halts w₀ st₀) w := by
  unfold AgentRuntime.emitCacheMetrics
  simp only
  split
  · exact hQ w h
  · rw [wp_bind]
    apply wp_emit h live ⟨rfl, rfl⟩
    intro h
    apply wp_mono _ (fun _ w' h => hQ w' h) fun _ _ he => he
    apply wp_forM (fun _ w' => S.Follows w₀ st₀ w' st)
    · intro store rest w' h
      rw [wp_bind, wp_get]
      exact wp_act h (.quiet live trivial) fun h => h
    · exact h

/-- The response is stored, and the loop remembers it. -/
theorem wp_commitAnswer {answer : ModelAnswer} {d : DoomLoopDetector} {Q : LoopState → World → Prop}
    (h : S.Follows w₀ st₀ w ⟨.answered answer, d⟩)
    (hQ : ∀ usage msgId w', S.Follows w₀ st₀ w' ⟨.committed answer.message answer.finish, d⟩ →
      Q { l with
        totalUsage := usage, lastFinish := some answer.finish
        assistantMessage := some answer.message, assistantMsgId := some msgId } w') :
    wp (AgentRuntime.commitAnswer S.host (S.context provider) l answer) Q (S.Halts w₀ st₀) w := by
  have hstore : ∀ usage {w'}, S.Follows w₀ st₀ w' ⟨.answered answer, d⟩ → wp (do
      let msgId ← S.host.appendMessage S.sessionId answer.message
      S.host.emit (.assistantMessageCommitted S.runId msgId)
      return { l with
        totalUsage := usage
        lastFinish := some answer.finish
        assistantMessage := some answer.message
        assistantMsgId := some msgId } : M LoopState) Q (S.Halts w₀ st₀) w' := by
    intro usage w' h
    rw [wp_bind]
    apply wp_appendMessage h trivial
    · exact fun _ _ hstored => .commit hstored
    · intro msgId w'' h
      rw [wp_bind]
      exact wp_emit h trivial ⟨rfl, rfl⟩ (hQ _ msgId _)
  unfold AgentRuntime.commitAnswer
  cases husage : answer.usage with
  | none => exact hstore _ h
  | some usage =>
    rw [wp_bind]
    apply wp_emit h trivial ⟨rfl, rfl⟩
    intro h
    rw [wp_bind]
    apply wp_emitCacheMetrics h trivial
    exact fun w' h => hstore _ h

/-- The model answers, or the loop starts another pass after an overflow. -/
theorem wp_callingModel {request : ChatRequest} {d : DoomLoopDetector}
    {Q : Flow LoopState → World → Prop}
    (h : S.Follows w₀ st₀ w ⟨.built l.iteration request, d⟩)
    (hgate : l.resumeFrom = .checkingPolicy ∨ l.resumeFrom = .callingModel) (hl : S.Within l)
    (hb : l.breaker = .new S.rt.policy.compaction.circuitBreakerThreshold)
    (hagain : ∀ w', S.Follows w₀ st₀ w' ⟨.idle, d⟩ →
      Q (.again { l with resumeFrom := .checkingPolicy }) w')
    (hnext : ∀ usage msgId message finish w',
      S.Follows w₀ st₀ w' ⟨.committed message finish, d⟩ →
      Q (.next { l with
        resumeFrom := .checkingPolicy, totalUsage := usage, lastFinish := some finish
        assistantMessage := some message, assistantMsgId := some msgId }) w') :
    wp (AgentRuntime.callingModel S.host S.rt (S.context provider) l (some request)) Q
      (S.Halts w₀ st₀) w := by
  unfold AgentRuntime.callingModel
  rw [if_pos hgate]
  simp only [wp_bind]
  apply wp_enter h trivial (savable_of_within hl (.inr rfl))
  intro w₁ h
  apply wp_emit h trivial ⟨rfl, rfl⟩
  intro h
  apply wp_observedModel h
  · intro answer w₂ h
    simp only [AgentRuntime.modelOutcome, TurnTransition.resolve, wp_bind, AgentRuntime.orFail,
      wp_pure]
    apply wp_commitAnswer h
    exact fun usage msgId w' h => hnext usage msgId _ _ w' h
  · intro e w₂ hover h
    simp only [AgentRuntime.modelOutcome, hover, if_true, TurnTransition.resolve, wp_bind, wp_pure]
    exact wp_reactiveCompaction h hb hagain
  · intro e w₂ hnot h
    have hresolve : TurnTransition.resolve .callingModel (AgentRuntime.modelOutcome (.error e)) =
        .fail "provider error" := by
      cases e with
      | provider e => simp [AgentRuntime.modelOutcome, hnot e rfl, TurnTransition.resolve]
      | _ => rfl
    simp only [hresolve]
    exact Accepts.halt (E := S.Halts w₀ st₀) h

/-! ### ProcessingResponse -/

/-- A response is continued, ends the run, or asks for tools. -/
theorem wp_processingResponse {message : Message} {finish : FinishReason} {d : DoomLoopDetector}
    {Q : Flow (LoopState × List ToolCall) → World → Prop}
    (h : S.Follows w₀ st₀ w ⟨.committed message finish, d⟩) (hcp : l.resumeFrom = .checkingPolicy)
    (hmessage : l.assistantMessage = some message) (hfinish : l.lastFinish = some finish)
    (hagain : ∀ w', S.Follows w₀ st₀ w' ⟨.idle, d⟩ →
      Q (.again { l with outputRecoveryCount := l.outputRecoveryCount + 1 }) w')
    (hleave : message.toolCalls = [] ∨ finish ≠ .toolCalls → Q (.leave l) w)
    (hnext : message.toolCalls ≠ [] → finish = .toolCalls → Q (.next (l, message.toolCalls)) w) :
    wp (AgentRuntime.processingResponse S.host S.rt (S.context provider) l) Q
      (S.Halts w₀ st₀) w := by
  obtain ⟨_, iteration, usage, _, _, msgId, recoveries, detector, breaker⟩ := l
  obtain rfl : _ = TurnState.checkingPolicy := hcp
  obtain rfl : _ = some message := hmessage
  obtain rfl : _ = some finish := hfinish
  unfold AgentRuntime.processingResponse
  rw [if_pos (.inl rfl)]
  dsimp only
  split
  · next hlength =>
    obtain rfl : finish = .length := hlength.1
    rw [wp_bind]
    apply wp_appendMessage h trivial
    · exact fun _ _ hstored => .recover hstored
    · exact fun _ w' h => hagain w' h
  · by_cases hcalls : message.toolCalls = []
    · simp only [AgentRuntime.responseOutcome, hcalls, List.isEmpty_nil, if_true,
        TurnTransition.resolve]
      exact hleave (.inl hcalls)
    · have hempty : message.toolCalls.isEmpty = false := by simpa using hcalls
      by_cases htools : finish = .toolCalls
      · subst htools
        simp only [AgentRuntime.responseOutcome, hempty, Bool.false_eq_true, if_false, ne_eq,
          not_true_eq_false, TurnTransition.resolve]
        exact hnext hcalls rfl
      · simp only [AgentRuntime.responseOutcome, hempty, Bool.false_eq_true, if_false, ne_eq,
          htools, not_false_eq_true, if_true, TurnTransition.resolve]
        exact hleave (.inr htools)

/-! ### ExecutingTools -/

/-- The calls are checked one by one, and the run fails at the first loop. -/
theorem checkDoomLoop_eq (host : Host) (ctx : RunContext) (l : LoopState) (calls : List ToolCall) :
    AgentRuntime.checkDoomLoop host ctx l calls =
      match l.doomDetector.checkCalls host.callHash calls with
      | .ok d => pure { l with doomDetector := d }
      | .error found => (do
          host.emit (.doomLoopDetected ctx.runId found.description)
          AgentRuntime.failRun host ctx.runId (.doomLoopDetected found.description)
          fail (.doomLoopDetected found.description)) := by
  induction calls generalizing l with
  | nil => rfl
  | cons call rest ih =>
    rw [AgentRuntime.checkDoomLoop, DoomLoopDetector.checkCalls]
    rcases l.doomDetector.recordAndCheck host.callHash call.name call.arguments with
      ⟨found | _, d⟩
    · exact ih _
    · rfl

theorem wp_checkDoomLoop {message : Message} {Q : LoopState → World → Prop}
    (h : S.Follows w₀ st₀ w ⟨.committed message .toolCalls, l.doomDetector⟩)
    (hQ : ∀ d, l.doomDetector.checkCalls S.host.callHash message.toolCalls = .ok d →
      Q { l with doomDetector := d } w) :
    wp (AgentRuntime.checkDoomLoop S.host (S.context provider) l message.toolCalls) Q
      (S.Halts w₀ st₀) w := by
  rw [checkDoomLoop_eq]
  cases hcheck : l.doomDetector.checkCalls S.host.callHash message.toolCalls with
  | ok d => exact hQ d hcheck
  | error found =>
    simp only [wp_bind]
    apply wp_act (E := S.Halts w₀ st₀) h (.loopFound hcheck)
    intro h
    apply wp_failRun h (.inr rfl)
    exact fun w' h => ⟨_, h, .inr (.inr rfl)⟩

/-- The answers of the tools, entered in the transcript. -/
theorem wp_observedTools {message : Message} {msgId : Uuid} {d d' : DoomLoopDetector}
    {Q : Except RuntimeError (List ToolExecutionOutcome) → World → Prop}
    (h : S.Follows w₀ st₀ w ⟨.committed message .toolCalls, d⟩) (hcalls : message.toolCalls ≠ [])
    (hcheck : d.checkCalls S.host.callHash message.toolCalls = .ok d')
    (hok : ∀ outcomes w', S.Follows w₀ st₀ w' ⟨.storing outcomes, d'⟩ → Q (.ok outcomes) w')
    (herror : ∀ e w', S.Follows w₀ st₀ w' ⟨.halted, d⟩ → Q (.error e) w') :
    wp (AgentRuntime.observed S.host
      (S.rt.tools.executeBatch S.host message.toolCalls S.sessionId msgId)
      (.toolsAnswered message.toolCalls)) Q (S.Halts w₀ st₀) w := by
  have hstay : ∀ w', Reaches S.Quiet w w' →
      S.Follows w₀ st₀ w' ⟨.committed message .toolCalls, d⟩ :=
    fun w' hr => h.stay hr fun t a ha => .quiet trivial ha
  apply wp_observed
  apply wp_caught
  apply wp_mono (ToolRuntime.wp_executeBatch (K := S.Quiet) batchActions_quiet message.toolCalls
    S.sessionId msgId w)
  · intro outcomes w' ⟨hanswers, hr⟩
    exact ⟨_, _, hstay w' hr, .toolsAnswered hcalls hcheck hanswers, hok outcomes _⟩
  · intro e w' ⟨he, hr⟩
    cases e with
    | failed e => exact ⟨_, _, hstay w' hr, .toolsFailed, herror e _⟩
    | crashed => exact AcceptsCrash.crash (E := S.Halts w₀ st₀) (hstay w' hr)
    | panicked => cases he
    | outOfFuel => cases he

theorem wp_storeOutcomes {outcomes : List ToolExecutionOutcome} {d : DoomLoopDetector}
    (h : S.Follows w₀ st₀ w ⟨.storing outcomes, d⟩) :
    wp (outcomes.forM (AgentRuntime.storeOutcome S.host (S.context provider)))
      (fun _ w' => S.Follows w₀ st₀ w' ⟨.idle, d⟩) (S.Halts w₀ st₀) w := by
  apply wp_forM (fun rest w' => S.Follows w₀ st₀ w' ⟨.storing rest, d⟩) _ outcomes w h
  intro outcome rest w' h
  have h : S.Follows w₀ st₀ w' ⟨.executed outcome rest, d⟩ := h
  unfold AgentRuntime.storeOutcome
  rw [wp_bind]
  apply wp_appendMessage h trivial
  · exact fun _ _ hstored => .store hstored
  · intro msgId w'' h
    exact wp_emit h (Phase.live_storing rest) ⟨rfl, rfl⟩ fun h => h

/-- What the loop knows after a response that asked for tools. -/
structure Asked (S : Setting) (l : LoopState) (message : Message) : Prop where
  within : S.Within l
  finish : l.lastFinish = some .toolCalls
  msgId : l.assistantMsgId.isSome
  response : l.assistantMessage = some message
  calls : message.toolCalls ≠ []

theorem Asked.savable {message : Message} (h : S.Asked l message) {state : TurnState}
    (hstate : state = .executingTools ∨ state = .persisting) (t : Nat) :
    Savable S.rt.policy (l.snapshot (S.context provider) state t) where
  state := by rcases hstate with rfl | rfl <;> exact ⟨nofun, nofun⟩
  started := h.within.1
  bounded _ := h.within.2
  asked _ := ⟨h.finish, h.msgId, message, h.response, h.calls⟩

/-- The calls are answered and the answers stored. -/
theorem wp_executingTools {message : Message} {Q : LoopState → World → Prop}
    (h : S.Follows w₀ st₀ w ⟨.committed message .toolCalls, l.doomDetector⟩)
    (hgate : l.resumeFrom = .checkingPolicy ∨ l.resumeFrom = .executingTools)
    (hl : S.Asked l message)
    (hQ : ∀ d w', S.Follows w₀ st₀ w' ⟨.idle, d⟩ →
      Q { l with resumeFrom := .checkingPolicy, doomDetector := d } w') :
    wp (AgentRuntime.executingTools S.host S.rt (S.context provider) l message.toolCalls) Q
      (S.Halts w₀ st₀) w := by
  unfold AgentRuntime.executingTools
  rw [if_pos hgate]
  simp only [wp_bind]
  have hl' : S.Asked { l with resumeFrom := .checkingPolicy } message :=
    ⟨hl.within, hl.finish, hl.msgId, hl.response, hl.calls⟩
  apply wp_enter h trivial (fun t => hl'.savable (.inl rfl) t)
  intro w₁ h
  split
  · next hnone => exact absurd hl.msgId (by simp [hnone])
  · simp only [wp_bind]
    apply wp_checkDoomLoop (l := { l with resumeFrom := .checkingPolicy }) h
    intro d hcheck
    apply wp_observedTools h hl.calls hcheck
    · intro outcomes w₂ h
      simp only [AgentRuntime.orFail, wp_pure]
      exact wp_mono (wp_storeOutcomes h) (fun _ w' h => hQ d w' h) fun _ _ he => he
    · exact fun e w₂ h => Accepts.halt (E := S.Halts w₀ st₀) h

/-! ### Persisting -/

/-- After tools, the loop always goes on. -/
theorem wp_persisting {message : Message} {d : DoomLoopDetector} {Q : Flow LoopState → World → Prop}
    (h : S.Follows w₀ st₀ w ⟨.idle, d⟩)
    (hgate : l.resumeFrom = .checkingPolicy ∨ l.resumeFrom = .persisting) (hl : S.Asked l message)
    (hQ : ∀ w', S.Follows w₀ st₀ w' ⟨.idle, d⟩ →
      Q (.next { l with resumeFrom := .checkingPolicy }) w') :
    wp (AgentRuntime.persisting S.host S.rt (S.context provider) l) Q (S.Halts w₀ st₀) w := by
  unfold AgentRuntime.persisting
  rw [if_pos hgate]
  simp only [wp_bind]
  have hl' : S.Asked { l with resumeFrom := .checkingPolicy } message :=
    ⟨hl.within, hl.finish, hl.msgId, hl.response, hl.calls⟩
  apply wp_enter h trivial (fun t => hl'.savable (.inr rfl) t)
  intro w₁ h
  split
  · next hnone => cases hl.finish.symm.trans hnone
  · next finish hfinish =>
    obtain rfl : finish = .toolCalls := by
      have hsome := hl.finish.symm.trans hfinish
      exact (Option.some.inj hsome).symm
    exact hQ w₁ h

end Setting

end Behest
