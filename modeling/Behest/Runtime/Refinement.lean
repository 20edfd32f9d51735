import Behest.Runtime.Sections

/-!
# The run follows the protocol

A pass carries the invariant of the loop from one stage of the protocol to another, and
says where the loop stands afterwards; a run of the loop ends with its end announced, or
stops where the protocol allows it.
-/

namespace Behest

open Effect Compaction

namespace LoopState

/-- A pass that starts another one: its iteration is within the limit, and the next pass
counts its own, unless a context is being built without a model call to follow. -/
structure Advances (policy : RuntimePolicy) (l l' : LoopState) : Prop where
  iteration : l'.iteration = l.counted
  within : l.counted ≤ policy.maxIterations
  state : l'.resumeFrom = if l.resumeFrom = .buildingContext then .buildingContext
    else .checkingPolicy

/-- Variables that start with the policy check. -/
theorem ready_checkingPolicy {policy : RuntimePolicy} {l : LoopState}
    (hcp : l.resumeFrom = .checkingPolicy)
    (hb : l.breaker = .new policy.compaction.circuitBreakerThreshold) :
    Ready policy l ⟨.idle, l.doomDetector⟩ where
  state := by rw [hcp]; exact ⟨nofun, nofun⟩
  bounded hne := absurd hcp hne
  asked := by rw [hcp]; exact nofun
  phase := by simp [phase, hcp]
  detector := rfl
  breaker := hb

end LoopState

namespace Setting

variable {S : Setting} {w₀ w : World} {st₀ st : Stage} {provider : ChatProvider} {l : LoopState}

/-- Where a pass leaves the loop. -/
def PassPost (S : Setting) (w₀ : World) (st₀ : Stage) (l : LoopState) :
    Pass LoopState LoopState → World → Prop
  | .again l', w =>
      l.Advances S.rt.policy l' ∧ ∃ st, S.Follows w₀ st₀ w st ∧ l'.Ready S.rt.policy st
  | .done _, w => ∃ message finish d, S.Follows w₀ st₀ w ⟨.committed message finish, d⟩ ∧
      (message.toolCalls = [] ∨ finish ≠ .toolCalls)

/-- A pass back to the policy check. -/
theorem passPost_again {start l' : LoopState} {d : DoomLoopDetector}
    (h : S.Follows w₀ st₀ w ⟨.idle, d⟩) (hstart : start.resumeFrom ≠ .buildingContext)
    (hiteration : l'.iteration = start.counted)
    (hwithin : start.counted ≤ S.rt.policy.maxIterations)
    (hcp : l'.resumeFrom = .checkingPolicy) (hd : l'.doomDetector = d)
    (hb : l'.breaker = .new S.rt.policy.compaction.circuitBreakerThreshold) :
    S.PassPost w₀ st₀ start (.again l') w := by
  subst hd
  exact ⟨⟨hiteration, hwithin, by rw [if_neg hstart, hcp]⟩, _, h,
    LoopState.ready_checkingPolicy hcp hb⟩

/-- What a pass carries besides the stage: the loop it started from, and its bounds. -/
structure Carries (S : Setting) (start l : LoopState) : Prop where
  state : start.resumeFrom ≠ .buildingContext
  iteration : l.iteration = start.counted
  within : S.Within l
  breaker : l.breaker = .new S.rt.policy.compaction.circuitBreakerThreshold

theorem wp_answerCalls {start : LoopState} {message : Message}
    (h : S.Follows w₀ st₀ w ⟨.committed message .toolCalls, l.doomDetector⟩)
    (hgate : l.resumeFrom = .checkingPolicy ∨ l.resumeFrom = .executingTools)
    (hl : S.Asked l message) (hc : S.Carries start l) :
    wp (AgentRuntime.answerCalls S.host S.rt (S.context provider) l message.toolCalls)
      (S.PassPost w₀ st₀ start) (S.Halts w₀ st₀) w := by
  unfold AgentRuntime.answerCalls
  rw [wp_bind]
  apply wp_executingTools h hgate hl
  intro d w₁ h
  rw [wp_bind]
  have hl' : S.Asked { l with resumeFrom := .checkingPolicy, doomDetector := d } message :=
    ⟨hl.within, hl.finish, hl.msgId, hl.response, hl.calls⟩
  apply wp_persisting h (.inl rfl) hl'
  intro w₂ h
  exact passPost_again h hc.state hc.iteration (hc.iteration ▸ hc.within.2) rfl rfl hc.breaker

theorem wp_respond {start : LoopState} {message : Message} {finish : FinishReason}
    (h : S.Follows w₀ st₀ w ⟨.committed message finish, l.doomDetector⟩)
    (hcp : l.resumeFrom = .checkingPolicy) (hmessage : l.assistantMessage = some message)
    (hfinish : l.lastFinish = some finish) (hmsgId : l.assistantMsgId.isSome)
    (hc : S.Carries start l) :
    wp (AgentRuntime.respond S.host S.rt (S.context provider) l) (S.PassPost w₀ st₀ start)
      (S.Halts w₀ st₀) w := by
  unfold AgentRuntime.respond
  rw [wp_bind]
  apply wp_processingResponse h hcp hmessage hfinish
  · intro w' h
    exact passPost_again h hc.state hc.iteration (hc.iteration ▸ hc.within.2) hcp rfl hc.breaker
  · exact fun hend => ⟨message, finish, _, h, hend⟩
  · rintro hcalls rfl
    exact wp_answerCalls h (.inl hcp) ⟨hc.within, hfinish, hmsgId, hmessage, hcalls⟩ hc

theorem wp_consult {start : LoopState} (h : S.Follows w₀ st₀ w ⟨.idle, l.doomDetector⟩)
    (hgate : l.resumeFrom = .checkingPolicy ∨ l.resumeFrom = .callingModel)
    (hc : S.Carries start l) :
    wp (AgentRuntime.consult S.host S.rt (S.context provider) l) (S.PassPost w₀ st₀ start)
      (S.Halts w₀ st₀) w := by
  unfold AgentRuntime.consult
  rw [wp_bind]
  apply wp_buildingContext h _ hc.within hc.breaker (.inl rfl)
  · intro request w₁ h
    simp only [wp_bind]
    apply wp_callingModel h hgate hc.within hc.breaker
    · intro w₂ h
      exact passPost_again h hc.state hc.iteration (hc.iteration ▸ hc.within.2) rfl rfl hc.breaker
    · intro usage msgId message finish w₂ h
      exact wp_respond h rfl rfl rfl rfl ⟨hc.state, hc.iteration, hc.within, hc.breaker⟩
  · exact hgate.elim .inl fun h => .inr (.inr h)

/-- One pass of the loop, from any state it can be in. -/
theorem wp_pass (h : S.Follows w₀ st₀ w st) (hr : l.Ready S.rt.policy st) :
    wp (AgentRuntime.pass S.host S.rt (S.context provider) l) (S.PassPost w₀ st₀ l)
      (S.Halts w₀ st₀) w := by
  obtain ⟨p, d⟩ := st
  obtain rfl : d = l.doomDetector := hr.detector
  obtain rfl : p = l.phase := hr.phase
  unfold AgentRuntime.pass
  rw [wp_bind]
  by_cases hcp : l.resumeFrom = .checkingPolicy
  · have hphase : l.phase = .idle := by simp [LoopState.phase, hcp]
    have hcounted : l.counted = l.iteration + 1 := if_pos hcp
    apply wp_checkingPolicy h hphase hcp
    intro w' h hle
    rw [hphase] at h
    exact wp_consult h (.inl hcp)
      ⟨by simp [hcp], hcounted.symm, ⟨Nat.le_add_left 1 _, hle⟩, hr.breaker⟩
  · have hcounted : l.counted = l.iteration := if_neg hcp
    have hwithin : S.Within l := hr.bounded hcp
    rw [AgentRuntime.checkingPolicy_skip hcp, wp_pure]
    cases hstate : l.resumeFrom with
    | checkingPolicy => exact absurd hstate hcp
    | compacting => exact absurd hstate hr.state.1
    | processingResponse => exact absurd hstate hr.state.2
    | callingModel =>
      have hphase : l.phase = .idle := by simp [LoopState.phase, hstate]
      rw [hphase] at h
      exact wp_consult h (.inr hstate) ⟨by simp [hstate], hcounted.symm, hwithin, hr.breaker⟩
    | buildingContext =>
      have hphase : l.phase = .idle := by simp [LoopState.phase, hstate]
      rw [hphase] at h
      unfold AgentRuntime.consult
      rw [wp_bind]
      apply wp_buildingContext h (.inr (.inl hstate)) hwithin hr.breaker (.inr rfl)
      intro request w₁ h
      simp only [AgentRuntime.callingModel_skip (l := l) (by simp [hstate]), AgentRuntime.respond,
        AgentRuntime.processingResponse_skip (l := l) (by simp [hstate]), AgentRuntime.answerCalls,
        AgentRuntime.executingTools_skip (l := l) (by simp [hstate]),
        AgentRuntime.persisting_skip (l := l) (by simp [hstate]), wp_bind, wp_pure]
      refine ⟨⟨hcounted.symm, hcounted ▸ hwithin.2, by simp [hstate]⟩, _, h, ?_⟩
      exact {
        state := hr.state
        bounded := hr.bounded
        asked := by simp [hstate]
        phase := by simp [LoopState.phase, hstate]
        detector := rfl
        breaker := hr.breaker }
    | executingTools =>
      obtain ⟨hfinish, hmsgId, message, hmessage, hcalls⟩ := hr.asked (.inl hstate)
      have hphase : l.phase = .committed message .toolCalls := by
        simp [LoopState.phase, hstate, hmessage, hfinish]
      rw [hphase] at h
      simp only [AgentRuntime.consult,
        AgentRuntime.buildingContext_skip (l := l) (by simp [hstate]),
        AgentRuntime.callingModel_skip (l := l) (by simp [hstate]), AgentRuntime.respond,
        AgentRuntime.processingResponse_skip (l := l) (by simp [hstate]), wp_bind, wp_pure,
        hmessage, Option.map_some, Option.getD_some]
      exact wp_answerCalls h (.inr hstate) ⟨hwithin, hfinish, hmsgId, hmessage, hcalls⟩
        ⟨by simp [hstate], hcounted.symm, hwithin, hr.breaker⟩
    | persisting =>
      obtain ⟨hfinish, hmsgId, message, hmessage, hcalls⟩ := hr.asked (.inr hstate)
      have hphase : l.phase = .idle := by simp [LoopState.phase, hstate]
      rw [hphase] at h
      simp only [AgentRuntime.consult,
        AgentRuntime.buildingContext_skip (l := l) (by simp [hstate]),
        AgentRuntime.callingModel_skip (l := l) (by simp [hstate]), AgentRuntime.respond,
        AgentRuntime.processingResponse_skip (l := l) (by simp [hstate]), AgentRuntime.answerCalls,
        AgentRuntime.executingTools_skip (l := l) (by simp [hstate]), wp_bind, wp_pure]
      apply wp_persisting h (.inr hstate) ⟨hwithin, hfinish, hmsgId, hmessage, hcalls⟩
      intro w₁ h
      exact passPost_again h (by simp [hstate]) hcounted.symm (hcounted ▸ hwithin.2) rfl rfl
        hr.breaker

/-! ### The loop -/

/-- The program left the protocol where it may, or was cut off. -/
def Leaves (S : Setting) (w₀ : World) (st₀ : Stage) (e : Stop) (w : World) : Prop :=
  ∃ st, S.Follows w₀ st₀ w st ∧ (e = .outOfFuel ∨ st.Stops e)

instance : Accepts S w₀ st₀ (S.Leaves w₀ st₀) where
  crash h := ⟨_, h, .inr trivial⟩
  halt h := ⟨_, h, .inr (.inl rfl)⟩

theorem Halts.leaves {e : Stop} (h : S.Halts w₀ st₀ e w) : S.Leaves w₀ st₀ e w := by
  obtain ⟨st, h, hstops⟩ := h
  exact ⟨st, h, .inr hstops⟩

/-- The run ended with its completion announced. -/
def Completes (S : Setting) (w₀ : World) (st₀ : Stage) (w : World) : Prop :=
  ∃ d, S.Follows w₀ st₀ w ⟨.ended .completed, d⟩

theorem wp_completeRun {message : Message} {finish : FinishReason} {d : DoomLoopDetector}
    (h : S.Follows w₀ st₀ w ⟨.committed message finish, d⟩)
    (hend : message.toolCalls = [] ∨ finish ≠ .toolCalls) :
    wp (AgentRuntime.completeRun S.host (S.context provider) l) (fun _ => S.Completes w₀ st₀)
      (S.Halts w₀ st₀) w := by
  unfold AgentRuntime.completeRun
  simp only [wp_bind]
  apply wp_runCall h trivial (.finishing hend)
  intro h
  exact wp_act h .announceCompletion fun h => ⟨d, h⟩

theorem wp_runLoopInner (fuel : Nat) (h : S.Follows w₀ st₀ w st) (hr : l.Ready S.rt.policy st) :
    wp (AgentRuntime.runLoopInner S.host S.rt (S.context provider) fuel l)
      (fun _ => S.Completes w₀ st₀) (S.Leaves w₀ st₀) w := by
  unfold AgentRuntime.runLoopInner
  rw [wp_bind]
  apply wp_iterate (fun l w => ∃ st, S.Follows w₀ st₀ w st ∧ l.Ready S.rt.policy st)
  · intro l w ⟨st, h, hr⟩
    apply wp_mono (wp_pass h hr) _ fun _ _ he => he.leaves
    intro r w' hr
    cases r with
    | again l' => exact hr.2
    | done l' =>
      obtain ⟨message, finish, d, h, hend⟩ := hr
      exact wp_mono (wp_completeRun h hend) (fun _ _ hq => hq) fun _ _ he => he.leaves
  · exact fun l w ⟨st, h, _⟩ => ⟨st, h, .inl rfl⟩
  · exact ⟨st, h, hr⟩

/-- Whatever happens to the snapshot afterwards, the run has ended as it did. -/
theorem wp_runLoop (fuel : Nat) (h : S.Follows w₀ st₀ w st) (hr : l.Ready S.rt.policy st) :
    wp (AgentRuntime.runLoop S.host S.rt (S.context provider) fuel l)
      (fun _ => S.Completes w₀ st₀) (S.Leaves w₀ st₀) w := by
  have hdelete : ∀ {w' st' α} {result : Except RuntimeError α} {Q : α → World → Prop},
      S.Follows w₀ st₀ w' st' → st'.phase.Over →
      (∀ w'', S.Follows w₀ st₀ w'' st' →
        wp (AgentRuntime.orFail result) Q (S.Leaves w₀ st₀) w'') →
      wp (do
        let _ ← caught (AgentRuntime.deleteSnapshot S.host S.rt S.runId)
        AgentRuntime.orFail result) Q (S.Leaves w₀ st₀) w' := by
    intro w' st' α result Q h ended hQ
    rw [wp_bind]
    apply wp_caught
    unfold AgentRuntime.deleteSnapshot
    split
    · have h' := fun fault => h.snoc (Step.cleanup (S := S) (w := w') fault ended)
      apply wp_onSnapshot_crash
      · exact fun e => ⟨AcceptsCrash.crash (E := S.Leaves w₀ st₀) (h' (some e)), hQ _ (h' (some e))⟩
      · exact ⟨AcceptsCrash.crash (E := S.Leaves w₀ st₀) (h' none), hQ _ (h' none)⟩
    · exact hQ w' h
  unfold AgentRuntime.runLoop AgentRuntime.andThen
  rw [wp_bind]
  apply wp_caught
  apply wp_mono (wp_runLoopInner fuel h hr)
  · intro out w' ⟨d, h⟩
    exact hdelete h trivial fun w'' h => ⟨d, h⟩
  · intro e w' ⟨st', h, hstops⟩
    cases e with
    | failed e =>
      have ended : st'.phase.Over := by
        rcases hstops.resolve_left nofun with hp | hp | hp <;> rw [hp] <;> trivial
      exact hdelete h ended fun w'' h => ⟨st', h, hstops⟩
    | crashed => exact ⟨st', h, hstops⟩
    | panicked => exact ⟨st', h, hstops⟩
    | outOfFuel => exact ⟨st', h, hstops⟩

/-! ### Starting and resuming -/

theorem wp_chatProvider [S.Refuses w₀ st₀ st.phase (S.Leaves w₀ st₀)] {id : String}
    {Q : ChatProvider → World → Prop} (h : S.Follows w₀ st₀ w st) (live : st.phase.Live)
    (hQ : ∀ provider w', S.Follows w₀ st₀ w' st → Q provider w') :
    wp (AgentRuntime.chatProvider S.host S.rt id) Q (S.Leaves w₀ st₀) w := by
  unfold AgentRuntime.chatProvider
  rw [wp_bind]
  cases S.rt.providers.chat id with
  | none =>
    apply wp_act (a := .providerLookup id false) h (.fault live rfl)
    exact fun h => Refuses.refuse (E := S.Leaves w₀ st₀) h
  | some provider => exact wp_act (a := .providerLookup id true) h (.quiet live rfl) (hQ provider _)

theorem wp_acquire [S.Refuses w₀ st₀ st.phase (S.Leaves w₀ st₀)] {Q : Unit → World → Prop}
    (h : S.Follows w₀ st₀ w st) (live : st.phase.Live)
    (hQ : ∀ w', S.Follows w₀ st₀ w' st → Q () w') :
    wp (AgentRuntime.acquire S.host S.sessionId) Q (S.Leaves w₀ st₀) w := by
  unfold AgentRuntime.acquire
  rw [wp_bind, wp_get]
  cases S.host.busy w S.sessionId with
  | true =>
    simp only [if_true, wp_bind]
    apply wp_act (a := .acquired S.sessionId true) h (.fault live rfl)
    exact fun h => Refuses.refuse (E := S.Leaves w₀ st₀) h
  | false =>
    simp only [Bool.false_eq_true, if_false, wp_bind]
    exact wp_act (a := .acquired S.sessionId false) h (.quiet live rfl) (hQ _)

/-- The stage of a run that has just been created. -/
def opened (S : Setting) : Stage := ⟨.opening, .new S.rt.policy.doomLoop⟩

theorem wp_startRun (S : Setting) (fuel : Nat) (w : World) :
    wp (S.rt.startRun S.host fuel S.runId S.sessionId S.request)
      (fun _ => S.Completes w S.opened) (S.Leaves w S.opened) w := by
  have h : S.Follows w S.opened w ⟨.opening, .new S.rt.policy.doomLoop⟩ := .refl _ _
  unfold AgentRuntime.startRun
  rw [wp_bind]
  apply wp_emit h trivial ⟨rfl, rfl⟩
  intro h
  rw [wp_bind]
  apply wp_runCall h trivial
  · exact .quiet trivial ⟨rfl, rfl, rfl⟩
  · intro h
    rw [wp_bind]
    apply wp_appendMessage h trivial
    · exact fun _ _ hstored => .greet hstored
    · intro msgId w' h
      rw [wp_bind]
      apply wp_chatProvider h trivial
      intro provider w'' h
      exact wp_runLoop fuel h (LoopState.ready_start S.rt.policy)

/-- The actions before a run exists. -/
def Preliminary : Action → Prop
  | .drew | .session (.getSession _) _ | .session (.createSession _) _ | .acquired _ _
  | .admitted _ | .run (.createRun _) (some _) => True
  | _ => False

/-- A run was created, in the session the request names or in a new one. -/
structure Creates (S : Setting) (w w' : World) : Prop where
  created : ∃ w₀ now, Reaches Preliminary w w₀ ∧
    w' = w₀.apply (.run (.createRun (.new S.runId S.sessionId S.request now)) none)
  found : ∀ id, S.request.sessionId = some id →
    S.sessionId = id ∧ w'.messages id = w.messages id
  fresh : S.request.sessionId = none → w'.messages S.sessionId = []

/-- The session of a request exists afterwards, with what it held. -/
theorem wp_ensureSession {host : Host} {start w : World} {request : Option Uuid}
    {Q : Uuid → World → Prop} {E : Stop → World → Prop} (h : Reaches Preliminary start w)
    (hE : ∀ e w', Reaches Preliminary start w' → E e w')
    (hQ : ∀ sessionId w', Reaches Preliminary start w' →
      (∀ id, request = some id → sessionId = id ∧ w'.messages id = w.messages id) →
      (request = none → w'.messages sessionId = []) → Q sessionId w') :
    wp (AgentRuntime.ensureSession host request) Q E w := by
  have hnext : ∀ {w' : World} {a : Action}, Reaches Preliminary start w' → Preliminary a →
      Reaches Preliminary start (w'.apply a) := fun h ha => .step h ha
  cases request with
  | some id =>
    unfold AgentRuntime.ensureSession
    rw [wp_bind]
    apply wp_onSession_crash
    · exact fun e => ⟨hE _ _ (hnext h (by trivial)), hE _ _ (hnext h (by trivial))⟩
    · intro _
      apply And.intro (hE _ _ (hnext h (by trivial)))
      simp only [wp_bind, wp_get]
      split
      · exact hE _ _ (hnext h (by trivial))
      · apply hQ id _ (hnext h (by trivial))
        · rintro _ ⟨⟩
          exact ⟨rfl, World.messages_apply _ _ _ (by simp)⟩
        · rintro ⟨⟩
  | none =>
    unfold AgentRuntime.ensureSession
    rw [wp_bind]
    apply wp_newId_crash
    apply And.intro (hE _ _ (hnext h (by trivial)))
    intro id
    have h' := hnext (a := .drew) h trivial
    rw [wp_bind]
    apply wp_onSession_crash
    · exact fun e => ⟨hE _ _ (hnext h' (by trivial)), hE _ _ (hnext h' (by trivial))⟩
    · intro _
      apply And.intro (hE _ _ (hnext h' (by trivial)))
      apply hQ id _ (hnext h' (by trivial))
      · rintro _ ⟨⟩
      · intro _
        simp [World.messages, Action.onSessions]

/-- The actions between the session and the run. -/
def Admitting (a : Action) : Prop := Preliminary a ∧ ¬ a.touchesMessages

theorem performs_acquire (host : Host) (sessionId : Uuid) :
    Performs Admitting (AgentRuntime.acquire host sessionId) := by
  unfold AgentRuntime.acquire
  apply performs_bind performs_get
  intro w
  apply performs_bind (performs_perform ⟨trivial, nofun⟩)
  exact fun _ => performs_ite (performs_fail _) (performs_pure _)

theorem performs_admitInput (host : Host) (rt : AgentRuntime) (sessionId : Uuid)
    (content : String) : Performs Admitting (rt.admitInput host sessionId content) := by
  unfold AgentRuntime.admitInput
  apply performs_bind (performs_newId ⟨trivial, nofun⟩)
  intro id
  apply performs_bind performs_get
  intro w
  apply performs_bind (performs_perform ⟨trivial, nofun⟩)
  exact fun _ => performs_ite (performs_fail _) (performs_pure _)

/-- What a run leaves behind when it returns. -/
def RunPost (host : Host) (rt : AgentRuntime) (request : RunRequest) (w w' : World) : Prop :=
  ∃ runId sessionId w₁, let S : Setting := ⟨host, rt, runId, sessionId, request⟩
    S.Creates w w₁ ∧ S.Completes w₁ S.opened w'

/-- Where a run may stop: before it is created, or in the protocol. -/
def RunStops (host : Host) (rt : AgentRuntime) (request : RunRequest) (w : World) (e : Stop)
    (w' : World) : Prop :=
  Reaches Preliminary w w' ∨
    ∃ runId sessionId w₁, let S : Setting := ⟨host, rt, runId, sessionId, request⟩
      S.Creates w w₁ ∧ S.Leaves w₁ S.opened e w'

theorem wp_createRun {host : Host} {rt : AgentRuntime} {request : RunRequest} {start w : World}
    {runId sessionId : Uuid} (fuel : Nat) (h : Reaches Preliminary start w)
    (hfound : ∀ id, request.sessionId = some id →
      sessionId = id ∧ w.messages id = start.messages id)
    (hfresh : request.sessionId = none → w.messages sessionId = []) :
    wp (do
      AgentRuntime.createRun host runId sessionId request
      rt.startRun host fuel runId sessionId request)
      (fun _ => RunPost host rt request start) (RunStops host rt request start) w := by
  unfold AgentRuntime.createRun
  simp only [wp_bind]
  have hdrew : Reaches Preliminary start (w.apply .drew) := h.step trivial
  apply wp_readClock_crash
  apply And.intro (.inl hdrew)
  intro now
  apply wp_onRun_crash
  · intro e
    have hfault : Reaches Preliminary start
        ((w.apply .drew).apply (.run (.createRun (.new runId sessionId request now)) (some e))) :=
      hdrew.step trivial
    exact ⟨.inl hfault, .inl hfault⟩
  · intro _
    have hmessages : ∀ id, ((w.apply .drew).apply
        (.run (.createRun (.new runId sessionId request now)) none)).messages id = w.messages id :=
      fun id => by simp
    have hcreates : (⟨host, rt, runId, sessionId, request⟩ : Setting).Creates start
        ((w.apply .drew).apply (.run (.createRun (.new runId sessionId request now)) none)) := by
      constructor
      · exact ⟨_, now, hdrew, rfl⟩
      · exact fun id hid => ⟨(hfound id hid).1, (hmessages id).trans (hfound id hid).2⟩
      · exact fun hnone => (hmessages sessionId).trans (hfresh hnone)
    constructor
    · exact .inr ⟨runId, sessionId, _, hcreates, _, .refl _ _, .inr trivial⟩
    · apply wp_mono (wp_startRun ⟨host, rt, runId, sessionId, request⟩ fuel _)
      · exact fun _ w' hdone => ⟨runId, sessionId, _, hcreates, hdone⟩
      · exact fun e w' hstop => .inr ⟨runId, sessionId, _, hcreates, hstop⟩

/-- A run follows the protocol from its creation on, if it gets that far. -/
theorem wp_run (host : Host) (rt : AgentRuntime) (fuel : Nat) (request : RunRequest) (w : World) :
    wp (rt.run host fuel request) (fun _ => RunPost host rt request w)
      (RunStops host rt request w) w := by
  have hrest : ∀ runId w₀, Reaches Preliminary w w₀ → (∀ id, w₀.messages id = w.messages id) →
      wp (do
        let sessionId ← AgentRuntime.ensureSession host request.sessionId
        AgentRuntime.acquire host sessionId
        rt.admitInput host sessionId request.input
        AgentRuntime.createRun host runId sessionId request
        rt.startRun host fuel runId sessionId request)
        (fun _ => RunPost host rt request w) (RunStops host rt request w) w₀ := by
    intro runId w₀ h₀ hmessages
    rw [wp_bind]
    apply wp_ensureSession h₀ (fun _ _ h => .inl h)
    intro sessionId w₁ h₁ hfound hfresh
    have hentry : ∀ {t t' : World}, Reaches Preliminary w t → Reaches Admitting t t' →
        Reaches Preliminary w t' ∧ ∀ id, t'.messages id = t.messages id := by
      intro t t' ht hr
      constructor
      · exact ht.trans (hr.mono fun a ha => ha.1)
      · exact fun id => hr.unchanged (fun u => u.messages id)
          fun u a ha => World.messages_apply u a id ha.2
    rw [wp_bind]
    apply (performs_acquire host sessionId).wp _ fun e w' _ hr => .inl (hentry h₁ hr).1
    intro _ w₂ hr
    have h₂ := hentry h₁ hr
    rw [wp_bind]
    apply (performs_admitInput host rt sessionId request.input).wp _
      fun e w' _ hr => .inl (hentry h₂.1 hr).1
    intro _ w₃ hr
    have h₃ := hentry h₂.1 hr
    have hsame : ∀ id, w₃.messages id = w₁.messages id := fun id => (h₃.2 id).trans (h₂.2 id)
    apply wp_createRun fuel h₃.1
    · exact fun id hid => ⟨(hfound id hid).1,
        ((hsame id).trans (hfound id hid).2).trans (hmessages id)⟩
    · exact fun hnone => (hsame sessionId).trans (hfresh hnone)
  unfold AgentRuntime.run
  cases request.runId with
  | some runId => exact hrest runId w (.refl w) fun _ => rfl
  | none =>
    rw [wp_bind]
    have hdrew : Reaches Preliminary w (w.apply .drew) := .single trivial
    apply wp_newId_crash
    exact ⟨.inl hdrew, fun runId => hrest runId _ hdrew fun id => by simp⟩

/-- However a run ends, it was not created, or it followed the protocol since. -/
theorem follows_of_run {host : Host} {rt : AgentRuntime} {fuel : Nat} {request : RunRequest}
    {w w' : World} (h : Ends (rt.run host fuel request) w w') :
    Reaches Preliminary w w' ∨ ∃ runId sessionId w₁ st,
      let S : Setting := ⟨host, rt, runId, sessionId, request⟩
      S.Creates w w₁ ∧ S.Follows w₁ S.opened w' st := by
  rcases h with ⟨out, h⟩ | ⟨e, h⟩
  · obtain ⟨runId, sessionId, w₁, hcreates, d, h⟩ := wp_ok (wp_run host rt fuel request w) h
    exact .inr ⟨runId, sessionId, w₁, _, hcreates, h⟩
  · rcases wp_error (wp_run host rt fuel request w) h with h | ⟨runId, sessionId, w₁, hcreates, h⟩
    · exact .inl h
    · obtain ⟨st, h, _⟩ := h
      exact .inr ⟨runId, sessionId, w₁, st, hcreates, h⟩

/-- What a run does before and while it is created. -/
theorem Creates.trace {w' : World} (h : S.Creates w w') : ∃ before now,
    w'.trace = w.trace ++ before ++
      [.run (.createRun (.new S.runId S.sessionId S.request now)) none] ∧
    ∀ a ∈ before, Preliminary a := by
  obtain ⟨w₀, now, hr, rfl⟩ := h.created
  obtain ⟨before, htrace, hbefore⟩ := trace_of_reaches hr
  exact ⟨before, now, by rw [World.apply_trace, htrace], hbefore⟩

/-- The setting of a resumed run. -/
def ofSnapshot (host : Host) (rt : AgentRuntime) (runId : Uuid) (s : Snapshot) : Setting :=
  ⟨host, rt, runId, s.sessionId, s.request⟩

/-- The stage a snapshot is resumed in. -/
def resumed (policy : RuntimePolicy) (s : Snapshot) : Stage :=
  ⟨(LoopState.ofSnapshot policy s).phase, .new policy.doomLoop⟩

theorem live_resumed (policy : RuntimePolicy) (s : Snapshot) : (resumed policy s).phase.Live := by
  unfold resumed LoopState.phase
  dsimp only
  split
  · split <;> trivial
  · trivial

theorem refused_resumed (policy : RuntimePolicy) (s : Snapshot) :
    (resumed policy s).phase.refused = .halted := by
  unfold resumed LoopState.phase
  dsimp only
  split
  · split <;> rfl
  · rfl

instance {policy : RuntimePolicy} {s : Snapshot} {E : Stop → World → Prop} [Accepts S w₀ st₀ E] :
    S.Refuses w₀ st₀ (resumed policy s).phase E where
  refuse h := Accepts.halt (refused_resumed policy s ▸ h)

theorem wp_resume (host : Host) {rt : AgentRuntime} {runId : Uuid} {s : Snapshot} (fuel : Nat)
    (w : World) (hstore : rt.hasSnapshotStore = true) (hs : w.snapshots runId = some s)
    (hsavable : Savable rt.policy s) :
    wp (rt.resume host fuel runId)
      (fun _ => (ofSnapshot host rt runId s).Completes w (resumed rt.policy s))
      ((ofSnapshot host rt runId s).Leaves w (resumed rt.policy s)) w := by
  have live := live_resumed rt.policy s
  have h : (ofSnapshot host rt runId s).Follows w (resumed rt.policy s) w (resumed rt.policy s) :=
    .refl _ _
  unfold AgentRuntime.resume
  rw [if_pos hstore, wp_bind]
  apply wp_onSnapshot_crash
  · intro e
    have h' := h.fault (a := .snapshot (.load runId) (some e)) live rfl
    exact ⟨AcceptsCrash.crash h', Refuses.refuse h'⟩
  · have h' := h.quiet (a := .snapshot (.load runId) none) live rfl
    apply And.intro (AcceptsCrash.crash h')
    have hload : (w.apply (.snapshot (.load runId) none)).snapshots runId = some s := hs
    simp only [wp_bind, wp_get, hload]
    unfold AgentRuntime.resumeFrom
    rw [wp_bind]
    apply wp_acquire (S := ofSnapshot host rt runId s) h' live
    intro w₁ h
    rw [wp_bind]
    apply wp_chatProvider (S := ofSnapshot host rt runId s) h live
    intro provider w₂ h
    rw [wp_bind]
    apply wp_runCall (S := ofSnapshot host rt runId s) h live
    · exact .quiet live ⟨rfl, by simp, rfl⟩
    · intro h
      exact wp_runLoop (S := ofSnapshot host rt runId s) fuel h
        (LoopState.ready_ofSnapshot hsavable)

/-- However a resumed run ends, it was refused, or it followed the protocol. -/
theorem follows_of_resume {host : Host} {rt : AgentRuntime} {fuel : Nat} {runId : Uuid}
    {w w' : World} {s : Snapshot} (hs : w.snapshots runId = some s)
    (hsavable : Savable rt.policy s) (h : Ends (rt.resume host fuel runId) w w') :
    w' = w ∨ ∃ st, (ofSnapshot host rt runId s).Follows w (resumed rt.policy s) w' st := by
  by_cases hstore : rt.hasSnapshotStore = true
  · have hwp := wp_resume host fuel w hstore hs hsavable
    rcases h with ⟨out, h⟩ | ⟨e, h⟩
    · obtain ⟨d, h⟩ := wp_ok hwp h
      exact .inr ⟨_, h⟩
    · obtain ⟨st, h, _⟩ := wp_error hwp h
      exact .inr ⟨st, h⟩
  · have hrefused : rt.resume host fuel runId w =
        .error (.failed (.recoveryFailed "snapshot store not configured")) w := by
      unfold AgentRuntime.resume
      rw [if_neg hstore]
      rfl
    rcases h with ⟨out, h⟩ | ⟨e, h⟩
    · rw [hrefused] at h
      cases h
    · rw [hrefused] at h
      cases h
      exact .inl rfl

end Setting

end Behest
