import Behest.Runtime.Protocol

/-!
# The turn loop follows the protocol

Every section of the turn loop is simulated by steps of the protocol, from any stage it can
be entered in. So is a pass, and by the invariant of the loop the whole run; a run that
stops with an error stops in a stage where the protocol allows it.
-/

namespace Behest

open Effect Compaction

namespace AgentRuntime

/-! ### What a model call performs -/

section Performs

variable {host : Host} {runId : Uuid} {K : Action → Prop}

/-- The actions of a model call. -/
structure CallActions (runId : Uuid) (K : Action → Prop) : Prop where
  requested (provider : String) (streaming : Bool) (request : ChatRequest) :
    K (.requested provider streaming request)
  textDelta (delta : String) : K (.emitted (.textDelta runId delta))
  toolCallStarted (callId name : String) : K (.emitted (.toolCallStarted runId callId name))
  toolCallDelta (callId delta : String) : K (.emitted (.toolCallDelta runId callId delta))
  toolCallCompleted (call : ToolCall) : K (.emitted (.toolCallCompleted runId call))

theorem performs_consumeStream (hK : CallActions runId K) (provider : ChatProvider)
    (acc : StreamAccumulator) (finish : FinishReason) (usage : Option TokenUsage)
    (items : List StreamItem) :
    Performs K (consumeStream host provider runId acc finish usage items) := by
  induction items generalizing acc finish usage with
  | nil => exact performs_pure _
  | cons item rest ih =>
    cases item with
    | idle => exact performs_fail _
    | failed e => exact performs_fail _
    | event e =>
      cases e with
      | started => exact ih acc finish usage
      | finished finish usage => exact ih acc finish usage
      | textDelta delta =>
        apply performs_bind (performs_emit (hK.textDelta delta))
        exact fun _ => ih _ finish usage
      | toolCallStarted id name =>
        apply performs_bind (performs_emit (hK.toolCallStarted id name))
        exact fun _ => ih _ finish usage
      | toolCallArgumentsDelta id delta =>
        apply performs_bind (performs_emit (hK.toolCallDelta id delta))
        exact fun _ => ih _ finish usage
      | toolCallCompleted call =>
        apply performs_bind (performs_emit (hK.toolCallCompleted call))
        exact fun _ => ih _ finish usage

theorem performs_callStreaming (hK : CallActions runId K) (provider : ChatProvider)
    (request : ChatRequest) : Performs K (callStreaming host provider request runId) := by
  unfold callStreaming
  apply performs_bind performs_get
  intro w
  apply performs_bind (performs_stream (hK.requested _ _ _))
  intro reply
  apply performs_ite (performs_fail _)
  cases reply with
  | error e => exact performs_fail _
  | ok items => exact performs_consumeStream hK provider _ _ _ items

theorem performs_announce (hK : CallActions runId K) (message : Message) :
    Performs K (announce host runId message) := by
  unfold announce
  cases extractAssistantText message with
  | none => exact performs_forM (fun call => performs_emit (hK.toolCallCompleted call)) _
  | some text =>
    apply performs_bind (performs_emit (hK.textDelta text))
    exact fun _ => performs_forM (fun call => performs_emit (hK.toolCallCompleted call)) _

theorem performs_callComplete (hK : CallActions runId K) (provider : ChatProvider)
    (request : ChatRequest) : Performs K (callComplete host provider request runId) := by
  unfold callComplete
  apply performs_bind performs_get
  intro w
  apply performs_bind (performs_complete (hK.requested _ _ _))
  intro reply
  apply performs_ite (performs_fail _)
  cases reply with
  | error e => exact performs_fail _
  | ok response =>
    exact performs_bind (performs_announce hK response.message) fun _ => performs_pure _

theorem performs_callModel (hK : CallActions runId K) (provider : ChatProvider)
    (request : ChatRequest) : Performs K (callModel host provider request runId) := by
  unfold callModel
  apply performs_ite _ (performs_callComplete hK provider request)
  apply performs_bind (performs_caught (performs_callStreaming hK provider request))
  intro reply
  split
  · exact performs_pure _
  · exact performs_fail _
  · exact performs_callComplete hK provider request

end Performs

end AgentRuntime

/-- How a program may stop in a stage: with an error after a failure, or by a crash. -/
def Stage.Stops (st : Stage) : Stop → Prop
  | .failed _ => st.phase = .halted ∨ st.phase = .degraded ∨ st.phase = .ended .failed
  | .crashed => True
  | .panicked | .outOfFuel => False

namespace Setting

variable {S : Setting} {w₀ w : World} {st₀ st : Stage}

/-- The program stopped, and the protocol was followed until then. -/
def Halts (S : Setting) (w₀ : World) (st₀ : Stage) (e : Stop) (w : World) : Prop :=
  ∃ st, S.Follows w₀ st₀ w st ∧ st.Stops e

/-- A failure postcondition that accepts a crash anywhere. -/
class AcceptsCrash (S : Setting) (w₀ : World) (st₀ : Stage) (E : Stop → World → Prop) : Prop where
  crash {w : World} {st : Stage} (h : S.Follows w₀ st₀ w st) : E .crashed w

/-- A failure postcondition that also accepts an error after a fault. -/
class Accepts (S : Setting) (w₀ : World) (st₀ : Stage) (E : Stop → World → Prop) : Prop extends
    AcceptsCrash S w₀ st₀ E where
  halt {w : World} {d : DoomLoopDetector} {e : RuntimeError}
    (h : S.Follows w₀ st₀ w ⟨.halted, d⟩) : E (.failed e) w

instance : Accepts S w₀ st₀ (S.Halts w₀ st₀) where
  crash h := ⟨_, h, trivial⟩
  halt h := ⟨_, h, .inl rfl⟩

/-- A failure postcondition that accepts an error after a refusal in the phase. -/
class Refuses (S : Setting) (w₀ : World) (st₀ : Stage) (p : Phase) (E : Stop → World → Prop) :
    Prop where
  refuse {w : World} {d : DoomLoopDetector} {e : RuntimeError}
    (h : S.Follows w₀ st₀ w ⟨p.refused, d⟩) : E (.failed e) w

section Refuses

variable {E : Stop → World → Prop} [Accepts S w₀ st₀ E]

instance : S.Refuses w₀ st₀ .opening E := ⟨Accepts.halt⟩

instance : S.Refuses w₀ st₀ .idle E := ⟨Accepts.halt⟩

instance {iteration : Nat} {request : ChatRequest} :
    S.Refuses w₀ st₀ (.built iteration request) E := ⟨Accepts.halt⟩

instance {answer : ModelAnswer} : S.Refuses w₀ st₀ (.answered answer) E := ⟨Accepts.halt⟩

instance {message : Message} {finish : FinishReason} :
    S.Refuses w₀ st₀ (.committed message finish) E := ⟨Accepts.halt⟩

instance {outcome : ToolExecutionOutcome} {rest : List ToolExecutionOutcome} :
    S.Refuses w₀ st₀ (.executed outcome rest) E := ⟨Accepts.halt⟩

end Refuses

/-! ### Rules for single actions -/

section Rules

variable {α : Type} {E : Stop → World → Prop} [AcceptsCrash S w₀ st₀ E]

theorem Follows.quiet {a : Action} (h : S.Follows w₀ st₀ w st) (live : st.phase.Live)
    (ha : S.Quiet a) : S.Follows w₀ st₀ (w.apply a) st :=
  h.snoc (.quiet live ha)

theorem Follows.fault {a : Action} (h : S.Follows w₀ st₀ w st) (live : st.phase.Live)
    (ha : a.isFault = true) : S.Follows w₀ st₀ (w.apply a) ⟨st.phase.refused, st.detector⟩ :=
  h.snoc (.fault live ha)

theorem wp_act {a : Action} {st' : Stage} {Q : Unit → World → Prop}
    (h : S.Follows w₀ st₀ w st) (hstep : S.Step w st a st')
    (hQ : S.Follows w₀ st₀ (w.apply a) st' → Q () (w.apply a)) :
    wp (S.host.perform a) Q E w :=
  have h' : S.Follows w₀ st₀ (w.apply a) st' := h.snoc hstep
  wp_perform_crash ⟨AcceptsCrash.crash h', hQ h'⟩

theorem wp_emit {event : AgentEvent} {Q : Unit → World → Prop} (h : S.Follows w₀ st₀ w st)
    (live : st.phase.Live) (hevent : event.isTerminal = false ∧ event.isOpening = false)
    (hQ : S.Follows w₀ st₀ (w.apply (.emitted event)) st → Q () (w.apply (.emitted event))) :
    wp (S.host.emit event) Q E w :=
  wp_act h (.quiet live hevent) hQ

theorem wp_drawId {Q : Uuid → World → Prop} (h : S.Follows w₀ st₀ w st) (live : st.phase.Live)
    (hQ : ∀ id, S.Follows w₀ st₀ (w.apply .drew) st → Q id (w.apply .drew)) :
    wp S.host.newId Q E w :=
  have h' := h.quiet live (a := .drew) trivial
  wp_newId_crash ⟨AcceptsCrash.crash h', fun id => hQ id h'⟩

theorem wp_drawTime {Q : Nat → World → Prop} (h : S.Follows w₀ st₀ w st) (live : st.phase.Live)
    (hQ : ∀ t, S.Follows w₀ st₀ (w.apply .drew) st → Q t (w.apply .drew)) :
    wp S.host.readClock Q E w :=
  have h' := h.quiet live (a := .drew) trivial
  wp_readClock_crash ⟨AcceptsCrash.crash h', fun t => hQ t h'⟩

theorem wp_sessionCall [S.Refuses w₀ st₀ st.phase E] {op : SessionOp} {st' : Stage}
    {Q : Unit → World → Prop} (h : S.Follows w₀ st₀ w st) (live : st.phase.Live)
    (hstep : w.sessionRefusal op = none → S.Step w st (.session op none) st')
    (hQ : S.Follows w₀ st₀ (w.apply (.session op none)) st' →
      Q () (w.apply (.session op none))) :
    wp (S.host.onSession op) Q E w := by
  apply wp_onSession_crash
  · intro e
    have h' := h.fault live (a := .session op (some e)) rfl
    exact ⟨AcceptsCrash.crash h', Refuses.refuse h'⟩
  · intro hstored
    have h' : S.Follows w₀ st₀ (w.apply (.session op none)) st' := h.snoc (hstep hstored)
    exact ⟨AcceptsCrash.crash h', hQ h'⟩

theorem wp_runCall [S.Refuses w₀ st₀ st.phase E] {op : RunOp} {st' : Stage}
    {Q : Unit → World → Prop} (h : S.Follows w₀ st₀ w st) (live : st.phase.Live)
    (hstep : S.Step w st (.run op none) st')
    (hQ : S.Follows w₀ st₀ (w.apply (.run op none)) st' → Q () (w.apply (.run op none))) :
    wp (S.host.onRun op) Q E w := by
  apply wp_onRun_crash
  · intro e
    have h' := h.fault live (a := .run op (some e)) rfl
    exact ⟨AcceptsCrash.crash h', Refuses.refuse h'⟩
  · intro _
    have h' : S.Follows w₀ st₀ (w.apply (.run op none)) st' := h.snoc hstep
    exact ⟨AcceptsCrash.crash h', hQ h'⟩

/-- The messages of the session are read as they are, for a compaction. -/
theorem wp_listMessages {st' : Stage} {Q : List MessageRecord → World → Prop}
    (h : S.Follows w₀ st₀ w st)
    (hrefused : ∀ e, S.Step w st (.session (.listMessages S.sessionId) (some e))
      ⟨.halted, st.detector⟩)
    (hread : S.Step w st (.session (.listMessages S.sessionId) none) st')
    (hQ : ∀ w', S.Follows w₀ st₀ w' st' → Q (w'.messages S.sessionId) w') :
    wp (S.host.listMessages S.sessionId) Q (S.Halts w₀ st₀) w := by
  unfold Host.listMessages
  rw [wp_bind]
  apply wp_onSession_crash
  · intro e
    have h' : S.Follows w₀ st₀ _ ⟨.halted, st.detector⟩ := h.snoc (hrefused e)
    exact ⟨AcceptsCrash.crash h', Accepts.halt h'⟩
  · intro _
    have h' : S.Follows w₀ st₀ _ st' := h.snoc hread
    exact ⟨AcceptsCrash.crash (E := S.Halts w₀ st₀) h', hQ _ h'⟩

/-- A message is stored by one step of the protocol. -/
theorem wp_appendMessage [S.Refuses w₀ st₀ st.phase E] {message : Message} {st' : Stage}
    {Q : Uuid → World → Prop} (h : S.Follows w₀ st₀ w st) (live : st.phase.Live)
    (hstep : ∀ w' a, S.Stores w' message a → S.Step w' st a st')
    (hQ : ∀ id w', S.Follows w₀ st₀ w' st' → Q id w') :
    wp (S.host.appendMessage S.sessionId message) Q E w := by
  unfold Host.appendMessage
  simp only [wp_bind, wp_pure]
  apply wp_drawId h live
  intro id h
  apply wp_drawTime h live
  intro createdAt h
  apply wp_sessionCall h live
  · intro hstored
    exact hstep _ _ ⟨id, createdAt, rfl, hstored⟩
  · intro h
    exact hQ id _ h

/-- A program of quiet actions whose error is read as a value. -/
theorem wp_caughtQuietly {x : M α} {Q : Except RuntimeError α → World → Prop}
    (hx : Performs S.Quiet x) (h : S.Follows w₀ st₀ w st) (live : st.phase.Live)
    (hQ : ∀ r w', S.Follows w₀ st₀ w' st → Q r w') :
    wp (caught x) Q E w := by
  have hstay : ∀ w', Reaches S.Quiet w w' → S.Follows w₀ st₀ w' st :=
    fun w' hr => h.stay hr fun t a ha => .quiet live ha
  apply wp_caught
  apply hx.wp
  · intro a w' hr
    exact hQ _ w' (hstay w' hr)
  · intro e w' he hr
    cases e with
    | failed e => exact hQ _ w' (hstay w' hr)
    | crashed => exact AcceptsCrash.crash (hstay w' hr)
    | panicked => cases he
    | outOfFuel => cases he

/-- What a collaborator answers is entered in the transcript. -/
theorem wp_observed {x : M α} {entry : Except RuntimeError α → Action}
    {Q : Except RuntimeError α → World → Prop}
    (hx : wp (caught x) (fun r w' => ∃ st' st'', S.Follows w₀ st₀ w' st' ∧
      S.Step w' st' (entry r) st'' ∧
      (S.Follows w₀ st₀ (w'.apply (entry r)) st'' → Q r (w'.apply (entry r))))
      (S.Halts w₀ st₀) w) :
    wp (AgentRuntime.observed S.host x entry) Q (S.Halts w₀ st₀) w := by
  unfold AgentRuntime.observed
  rw [wp_bind]
  apply wp_mono hx
  · intro r w' ⟨st', st'', h, hstep, hQ⟩
    rw [wp_bind]
    exact wp_act h hstep hQ
  · exact fun _ _ he => he

end Rules

/-! ### Compactions -/

section Compactions

variable {kind : CompactionKind} {d : DoomLoopDetector}

/-- A compaction fails where it is, or where a store refused it. -/
def Compacts (S : Setting) (w₀ : World) (st₀ : Stage) (kind : CompactionKind) :
    Stop → World → Prop
  | .failed _, w => ∃ st, S.Follows w₀ st₀ w st ∧
      (st.phase = .compacting kind ∨ st.phase = .aborted kind)
  | e, w => S.Halts w₀ st₀ e w

instance : AcceptsCrash S w₀ st₀ (S.Compacts w₀ st₀ kind) where
  crash h := AcceptsCrash.crash (E := S.Halts w₀ st₀) h

instance : S.Refuses w₀ st₀ (.compacting kind) (S.Compacts w₀ st₀ kind) where
  refuse h := ⟨_, h, .inr rfl⟩

/-- The pair of records is written one after the other. -/
theorem wp_appendPair {tailStartId : Uuid} {text : String}
    (h : S.Follows w₀ st₀ w ⟨.compacting kind, d⟩) :
    wp (CompactionService.appendPair S.host S.sessionId tailStartId text)
      (fun _ w' => S.Follows w₀ st₀ w' ⟨.compacting kind, d⟩) (S.Compacts w₀ st₀ kind) w := by
  unfold CompactionService.appendPair
  simp only [wp_bind, wp_pure]
  apply wp_drawId h trivial
  intro markerId h
  apply wp_drawTime h trivial
  intro markerTime h
  apply wp_sessionCall h trivial
  · exact .compactionWrite ⟨rfl, rfl, rfl, .inl rfl⟩
  · intro h
    apply wp_drawId h trivial
    intro summaryId h
    apply wp_drawTime h trivial
    intro summaryTime h
    apply wp_sessionCall h trivial
    · exact .compactionWrite ⟨rfl, rfl, rfl, .inr rfl⟩
    · exact fun h => h

theorem wp_compactImpl {service : CompactionService} {messages : List MessageRecord}
    {provider : ChatProvider} {model : String} {keep : Option Nat}
    (h : S.Follows w₀ st₀ w ⟨.compacting kind, d⟩) :
    wp (CompactionService.compactImpl S.host service messages provider model S.sessionId keep)
      (fun _ w' => S.Follows w₀ st₀ w' ⟨.compacting kind, d⟩) (S.Compacts w₀ st₀ kind) w := by
  unfold CompactionService.compactImpl
  simp only
  split
  · exact h
  · simp only [wp_bind, wp_pure]
    apply wp_sessionCall h trivial
    · exact fun _ => .quiet trivial rfl
    · intro h
      rw [wp_get]
      unfold CompactionService.runCompactionLlm
      rw [wp_bind]
      have hasked : ∀ request, S.Follows w₀ st₀
          ((w.apply _).apply (.requested provider.id false request)) ⟨.compacting kind, d⟩ :=
        fun request => h.quiet trivial trivial
      apply wp_complete_crash
      apply And.intro (AcceptsCrash.crash (hasked _))
      cases provider.complete _ _ with
      | error e => exact ⟨_, hasked _, .inl rfl⟩
      | ok response =>
        simp only
        split
        · exact ⟨_, hasked _, .inl rfl⟩
        · exact wp_appendPair (hasked _)

theorem wp_compactIfNeeded {service : CompactionService} {messages : List MessageRecord}
    {modelContext maxOutput : Nat} (h : S.Follows w₀ st₀ w ⟨.compacting kind, d⟩) :
    wp (service.compactIfNeeded S.host messages modelContext maxOutput S.sessionId)
      (fun _ w' => S.Follows w₀ st₀ w' ⟨.compacting kind, d⟩) (S.Compacts w₀ st₀ kind) w := by
  unfold CompactionService.compactIfNeeded
  split
  · exact h
  · cases service.resolveCompactionProvider with
    | error e => exact ⟨_, h, .inl rfl⟩
    | ok resolved =>
      simp only [wp_bind, wp_pure]
      exact wp_compactImpl h

theorem wp_compactAfterOverflow {service : CompactionService} {messages : List MessageRecord}
    {modelContext : Nat} (h : S.Follows w₀ st₀ w ⟨.compacting kind, d⟩) :
    wp (service.compactAfterOverflow S.host messages modelContext S.sessionId)
      (fun _ w' => S.Follows w₀ st₀ w' ⟨.compacting kind, d⟩) (S.Compacts w₀ st₀ kind) w := by
  unfold CompactionService.compactAfterOverflow
  cases service.resolveCompactionProvider with
  | error e => exact ⟨_, h, .inl rfl⟩
  | ok resolved => exact wp_compactImpl h

end Compactions

/-! ### Model calls and tools -/

theorem callActions_quiet : AgentRuntime.CallActions S.runId S.Quiet where
  requested _ _ _ := trivial
  textDelta _ := ⟨rfl, rfl⟩
  toolCallStarted _ _ := ⟨rfl, rfl⟩
  toolCallDelta _ _ := ⟨rfl, rfl⟩
  toolCallCompleted _ := ⟨rfl, rfl⟩

theorem batchActions_quiet : ToolRuntime.BatchActions S.Quiet where
  drew := trivial
  toolCalled _ := trivial
  recorded _ _ := trivial

end Setting

end Behest
