import Behest.Runtime.Refinement
import Behest.Tool.Scope

/-!
# Runs that are refused

`AgentRuntime::run` with the stack of tool scopes: an input that the admission policy rejects,
or a session that another run holds, ends the call before a scope is pushed or a run is
recorded. A request that names no session has been given one by then, and keeps it.
-/

namespace Behest

open Effect

/-- What a call works on: the world and the registry of scoped tools. -/
abbrev ScopedWorld := World × ScopedToolRegistry

/-- Programs that see the stack of tool scopes. -/
abbrev ScopedM (α : Type) := EStateM Stop ScopedWorld α

section Lifting

variable {α : Type} {Q : α → ScopedWorld → Prop} {E : Stop → ScopedWorld → Prop} {s : ScopedWorld}

/-- A program that leaves the scopes alone. -/
def onWorld (x : M α) : ScopedM α := fun s =>
  match x s.1 with
  | .ok a w => .ok a (w, s.2)
  | .error e w => .error e (w, s.2)

/-- A scope is pushed, and its guard is dropped on every exit.
Source: `agent.rs:284–286`, `tool_scope.rs:327–333, 372–376`. -/
def withScope (x : ScopedM α) : ScopedM α := fun s =>
  match x (s.1, s.2.pushScope.2) with
  | .ok a s' => .ok a (s'.1, (s'.2.popScope s.2.pushScope.1).2)
  | .error e s' => .error e (s'.1, (s'.2.popScope s.2.pushScope.1).2)

@[simp] theorem wp_onWorld (x : M α) :
    wp (onWorld x) Q E s ↔ wp x (fun a w => Q a (w, s.2)) (fun e w => E e (w, s.2)) s.1 := by
  simp only [wp, onWorld]
  cases x s.1 <;> rfl

@[simp] theorem wp_withScope (x : ScopedM α) :
    wp (withScope x) Q E s ↔
      wp x (fun a s' => Q a (s'.1, (s'.2.popScope s.2.pushScope.1).2))
        (fun e s' => E e (s'.1, (s'.2.popScope s.2.pushScope.1).2)) (s.1, s.2.pushScope.2) := by
  simp only [wp, withScope]
  cases x (s.1, s.2.pushScope.2) <;> rfl

end Lifting

namespace AgentRuntime

variable (host : Host) (rt : AgentRuntime)

/-- The identifier of a run that the request may leave open. Source: `agent.rs:254`. -/
def runIdOf (request : RunRequest) : M Uuid :=
  match request.runId with
  | some id => pure id
  | none => host.newId

/-- `run` with the scope it pushes after the admission. Source: `agent.rs:253–344`. -/
def runScoped (fuel : Nat) (request : RunRequest) : ScopedM RunOutput := do
  let runId ← onWorld (runIdOf host request)
  let sessionId ← onWorld (ensureSession host request.sessionId)
  onWorld (acquire host sessionId)
  onWorld (admitInput host rt sessionId request.input)
  withScope do
    onWorld (createRun host runId sessionId request)
    onWorld (startRun host rt fuel runId sessionId request)

/-- To the world, the scoped run does what `run` does. -/
theorem wp_runScoped (fuel : Nat) (request : RunRequest) {Q : RunOutput → World → Prop}
    {E : Stop → World → Prop} (s : ScopedWorld) :
    wp (rt.runScoped host fuel request) (fun a s' => Q a s'.1) (fun e s' => E e s'.1) s ↔
      wp (rt.run host fuel request) Q E s.1 := by
  unfold runScoped run runIdOf
  cases request.runId <;> simp only [wp_bind, wp_pure, wp_onWorld, wp_withScope]

end AgentRuntime

/-! ### What a refused call may change -/

namespace Action

/-- An event that observers of the runtime receive. -/
def isEvent : Action → Bool
  | emitted _ | eventStored _ _ _ => true
  | _ => false

end Action

namespace World

/-- The event stream. -/
def events (w : World) : List Action := w.trace.filter Action.isEvent

/-- The stores and the event stream are those of the other world. -/
structure Untouched (w w' : World) : Prop where
  sessions : w'.sessions = w.sessions
  runs : w'.runs = w.runs
  snapshots : w'.snapshots = w.snapshots
  executions : w'.executions = w.executions
  events : w'.events = w.events

theorem Untouched.refl (w : World) : Untouched w w := ⟨rfl, rfl, rfl, rfl, rfl⟩

theorem Untouched.trans {w w' w'' : World} (h : Untouched w w') (h' : Untouched w' w'') :
    Untouched w w'' where
  sessions := h'.sessions.trans h.sessions
  runs := h'.runs.trans h.runs
  snapshots := h'.snapshots.trans h.snapshots
  executions := h'.executions.trans h.executions
  events := h'.events.trans h.events

end World

/-- The actions that leave no trace in the stores and the event stream. -/
def Action.Harmless (a : Action) : Prop := ∀ w : World, w.Untouched (w.apply a)

namespace Action

private theorem events_apply {w : World} {a : Action} (h : a.isEvent = false) :
    (w.apply a).events = w.events := by
  unfold World.events
  rw [World.apply_trace, List.filter_append, List.filter_cons_of_neg (by simp [h])]
  simp

theorem harmless_drew : Harmless .drew := fun _ => ⟨rfl, rfl, rfl, rfl, events_apply rfl⟩

theorem harmless_getSession (id : Uuid) (fault : Option StorageError) :
    Harmless (.session (.getSession id) fault) :=
  fun _ => ⟨rfl, rfl, rfl, rfl, events_apply rfl⟩

theorem harmless_refused (op : SessionOp) (e : StorageError) :
    Harmless (.session op (some e)) := by
  intro w
  cases op <;> exact ⟨rfl, rfl, rfl, rfl, events_apply rfl⟩

theorem harmless_acquired (id : Uuid) (busy : Bool) : Harmless (.acquired id busy) :=
  fun _ => ⟨rfl, rfl, rfl, rfl, events_apply rfl⟩

theorem harmless_admitted (seen : List Nat) : Harmless (.admitted seen) :=
  fun _ => ⟨rfl, rfl, rfl, rfl, events_apply rfl⟩

end Action

/-! ### The calls of a process that survives -/

/-- The process does not end during a call. -/
def Host.Survives (host : Host) : Prop := ∀ w, host.crashes w = false

section Surviving

variable {host : Host} {w : World} {E : Stop → World → Prop}

theorem wp_perform_iff (h : host.Survives) {Q : Unit → World → Prop} (a : Action) :
    wp (host.perform a) Q E w ↔ Q () (w.apply a) := by
  simp [Host.perform, h _]

theorem wp_newId_iff (h : host.Survives) {Q : Uuid → World → Prop} :
    wp host.newId Q E w ↔ Q (host.uuid w) (w.apply .drew) := by
  simp [Host.newId, wp_perform_iff h]

theorem wp_call_iff (h : host.Survives) {Q : Unit → World → Prop} (a : Action)
    (fault : Option RuntimeError) :
    wp (host.call a fault) Q E w ↔ match fault with
      | some e => E (.failed e) (w.apply a)
      | none => Q () (w.apply a) := by
  cases fault <;> simp [Host.call, wp_perform_iff h]

end Surviving

/-! ### The gate of the session and of the input -/

/-- The admission policy rejects the text. -/
def RejectsInput (host : Host) (rt : AgentRuntime) (content : String) (w : World) : Prop :=
  InputAdmission.rejects rt.policy.inputAdmission w.seenFingerprints content
    (host.textHash (trimText content)) = true

/-- A failure that leaves no trace. -/
def FailsUntouched (w : World) (e : Stop) (w' : World) : Prop :=
  (∃ err, e = .failed err) ∧ w.Untouched w'

/-- A session that is held, or an input that is rejected, ends the call at the gate. -/
theorem wp_gate {host : Host} (hsurvives : host.Survives) {rt : AgentRuntime} {sessionId : Uuid}
    {content : String} {w : World}
    (h : host.busy w sessionId = true ∨ RejectsInput host rt content w) :
    wp (AgentRuntime.acquire host sessionId)
      (fun _ w' => wp (rt.admitInput host sessionId content) (fun _ _ => False)
        (FailsUntouched w) w')
      (FailsUntouched w) w := by
  unfold AgentRuntime.acquire
  simp only [wp_bind, wp_get, wp_perform_iff hsurvives]
  cases hbusy : host.busy w sessionId with
  | true => exact ⟨⟨_, rfl⟩, Action.harmless_acquired _ _ w⟩
  | false =>
    have hrejects := h.resolve_left (by simp [hbusy])
    have hadmission := (InputAdmission.state_admitRecord rt.policy.inputAdmission
      (.new host.textHash (host.uuid (w.apply (.acquired sessionId false))) sessionId content)
      ((w.apply (.acquired sessionId false)).apply .drew).seenFingerprints).mpr hrejects
    unfold AgentRuntime.admitInput
    simp only [wp_bind, wp_get, wp_perform_iff hsurvives, wp_newId_iff hsurvives]
    rw [if_neg (by simp), wp_pure, if_pos hadmission, wp_fail]
    apply And.intro ⟨_, rfl⟩
    apply (Action.harmless_acquired _ _ w).trans
    apply (Action.harmless_drew _).trans
    exact Action.harmless_admitted _ _

/-- The input is rejected, or the session is held for as long as the call takes. -/
def Refused (host : Host) (rt : AgentRuntime) (request : RunRequest) (w : World) : Prop :=
  RejectsInput host rt request.input w ∨
    ∃ id, request.sessionId = some id ∧
      ∀ w', Reaches Setting.Preliminary w w' → host.busy w' id = true

/-- The world in which the session of a request that names none is drawn. -/
def drawing (request : RunRequest) (w : World) : World :=
  if request.runId.isSome then w else w.apply .drew

/-- The session store refuses to create a session for the request. -/
def CreationRefused (host : Host) (request : RunRequest) (w : World) : Prop :=
  (host.sessionFault ((drawing request w).apply .drew)
    (.createSession (host.uuid (drawing request w)))).isSome = true

theorem untouched_drawing (request : RunRequest) (w : World) :
    w.Untouched (drawing request w) ∧ (drawing request w).seenFingerprints = w.seenFingerprints ∧
      Reaches Setting.Preliminary w (drawing request w) := by
  unfold drawing
  split
  · exact ⟨.refl w, rfl, .refl w⟩
  · exact ⟨Action.harmless_drew w, rfl, .single trivial⟩

theorem wp_runIdOf {host : Host} (hsurvives : host.Survives) {request : RunRequest} {w : World}
    {Q : Uuid → World → Prop} {E : Stop → World → Prop} (h : ∀ id, Q id (drawing request w)) :
    wp (AgentRuntime.runIdOf host request) Q E w := by
  unfold AgentRuntime.runIdOf drawing at *
  cases hid : request.runId with
  | some id => simpa [hid] using h id
  | none =>
    rw [wp_newId_iff hsurvives]
    simpa [hid] using h (host.uuid w)

/-- A session that is named is there, or the call fails without a trace. -/
theorem wp_ensureSession_some {host : Host} (hsurvives : host.Survives) {id : Uuid} {w : World}
    {Q : Uuid → World → Prop} {E : Stop → World → Prop}
    (hE : ∀ err w', w.Untouched w' → E (.failed err) w')
    (hQ : Q id (w.apply (.session (.getSession id) none))) :
    wp (AgentRuntime.ensureSession host (some id)) Q E w := by
  have hfound := fun fault => Action.harmless_getSession id fault w
  simp only [AgentRuntime.ensureSession, Host.onSession, World.sessionRefusal, Option.or_none,
    wp_bind, wp_get, wp_call_iff hsurvives]
  cases host.sessionFault w (.getSession id) with
  | some e => exact hE _ _ (hfound (some e))
  | none =>
    dsimp only [Option.map_none]
    split
    · exact hE _ _ (hfound none)
    · exact hQ

/-- A session that is not named is created, or its creation refused. -/
theorem wp_ensureSession_none {host : Host} (hsurvives : host.Survives) {w : World}
    {Q : Uuid → World → Prop} {E : Stop → World → Prop} :
    wp (AgentRuntime.ensureSession host none) Q E w ↔
      match host.sessionFault (w.apply .drew) (.createSession (host.uuid w)) with
      | some e =>
          E (.failed (.storage e))
            ((w.apply .drew).apply (.session (.createSession (host.uuid w)) (some e)))
      | none =>
          Q (host.uuid w)
            ((w.apply .drew).apply (.session (.createSession (host.uuid w)) none)) := by
  simp only [AgentRuntime.ensureSession, Host.onSession, World.sessionRefusal, Option.or_none,
    wp_bind, wp_get, wp_newId_iff hsurvives, wp_call_iff hsurvives]
  cases host.sessionFault (w.apply .drew) (.createSession (host.uuid w)) <;> rfl

variable {host : Host} {rt : AgentRuntime} {fuel : Nat} {request : RunRequest} {s : ScopedWorld}

/-- A refused call fails with what holds of the worlds that its session leaves untouched. -/
theorem wp_runScoped_refused (hsurvives : host.Survives) {P : World → Prop}
    (hsession : wp (AgentRuntime.ensureSession host request.sessionId)
      (fun sessionId w => (host.busy w sessionId = true ∨ RejectsInput host rt request.input w) ∧
        ∀ w', w.Untouched w' → P w')
      (fun e w => (∃ err, e = .failed err) ∧ P w) (drawing request s.1)) :
    wp (rt.runScoped host fuel request) (fun _ _ => False)
      (fun e s' => (∃ err, e = .failed err) ∧ P s'.1 ∧ s'.2 = s.2) s := by
  unfold AgentRuntime.runScoped
  rw [wp_bind, wp_onWorld]
  apply wp_runIdOf hsurvives
  intro runId
  rw [wp_bind, wp_onWorld]
  apply wp_mono hsession
  · intro sessionId w ⟨hgate, hP⟩
    rw [wp_bind, wp_onWorld]
    apply wp_mono (wp_gate hsurvives hgate)
    · intro _ w' hadmit
      rw [wp_bind, wp_onWorld]
      exact wp_mono hadmit (fun _ _ h => h.elim) fun e w'' he => ⟨he.1, hP w'' he.2, rfl⟩
    · exact fun e w' he => ⟨he.1, hP w' he.2, rfl⟩
  · exact fun e w he => ⟨he.1, he.2, rfl⟩

/-- A refused call leaves no trace when the request names a session, or is given none. -/
theorem wp_refused (fuel : Nat) (hsurvives : host.Survives)
    (hrefused : Refused host rt request s.1)
    (h : request.sessionId.isSome = true ∨ CreationRefused host request s.1) :
    wp (rt.runScoped host fuel request) (fun _ _ => False)
      (fun e s' => (∃ err, e = .failed err) ∧ s.1.Untouched s'.1 ∧ s'.2 = s.2) s := by
  obtain ⟨hdrawing, hseen, hreaches⟩ := untouched_drawing request s.1
  apply wp_runScoped_refused hsurvives
  cases hsession : request.sessionId with
  | some id =>
    apply wp_ensureSession_some hsurvives
    · exact fun err w' h => ⟨⟨err, rfl⟩, hdrawing.trans h⟩
    · constructor
      · rcases hrefused with hrejects | ⟨_, hid, hbusy⟩
        · right
          unfold RejectsInput at hrejects ⊢
          rw [← hseen] at hrejects
          exact hrejects
        · cases hsession.symm.trans hid
          exact .inl (hbusy _ (hreaches.step trivial))
      · exact fun w' h => (hdrawing.trans (Action.harmless_getSession id none _)).trans h
  | none =>
    have hcreation := h.resolve_left (by simp [hsession])
    obtain ⟨e, he⟩ := Option.isSome_iff_exists.mp hcreation
    rw [wp_ensureSession_none hsurvives, he]
    exact ⟨⟨_, rfl⟩, (hdrawing.trans (Action.harmless_drew _)).trans
      (Action.harmless_refused _ e _)⟩

/-- A refused call that is given a session keeps it. -/
theorem wp_keeps (fuel : Nat) (hsurvives : host.Survives)
    (hrefused : Refused host rt request s.1) (hnone : request.sessionId = none)
    (hcreation : ¬ CreationRefused host request s.1) :
    wp (rt.runScoped host fuel request) (fun _ _ => False)
      (fun e s' => (∃ err, e = .failed err) ∧
        s'.1.sessions (host.uuid (drawing request s.1)) = some [] ∧ s'.2 = s.2) s := by
  obtain ⟨-, hseen, -⟩ := untouched_drawing request s.1
  have haccepted := Option.not_isSome_iff_eq_none.mp hcreation
  have hrejects := hrefused.resolve_right fun ⟨id, hid, _⟩ => by simp [hnone] at hid
  apply wp_runScoped_refused hsurvives
    (P := fun w => w.sessions (host.uuid (drawing request s.1)) = some [])
  rw [hnone, wp_ensureSession_none hsurvives, haccepted]
  constructor
  · right
    unfold RejectsInput at hrejects ⊢
    rw [← hseen] at hrejects
    exact hrejects
  · intro w' h
    rw [h.sessions]
    simp [Action.onSessions]

/-- **A refused call leaves no trace if and only if the request names a session, or the store
refuses to create one**: for every world, with generated identifiers that are not in use. -/
theorem refused_untouched_iff (host : Host) (rt : AgentRuntime) (fuel : Nat) (request : RunRequest)
    (s : ScopedWorld) (hsurvives : host.Survives)
    (hunused : s.1.sessions (host.uuid (drawing request s.1)) = none)
    (hrefused : Refused host rt request s.1) :
    (∃ e s', rt.runScoped host fuel request s = .error (.failed e) s' ∧
        s.1.Untouched s'.1 ∧ s'.2 = s.2) ↔
      request.sessionId.isSome = true ∨ CreationRefused host request s.1 := by
  constructor
  · rintro ⟨e, s', hrun, huntouched, _⟩
    by_contra hopens
    obtain ⟨hnone, hcreation⟩ := not_or.mp hopens
    have hkept := (wp_error (wp_keeps fuel hsurvives hrefused
      (Option.not_isSome_iff_eq_none.mp hnone) hcreation) hrun).2.1
    rw [huntouched.sessions, hunused] at hkept
    cases hkept
  · intro h
    have hwp := wp_refused fuel hsurvives hrefused h
    cases hrun : rt.runScoped host fuel request s with
    | ok out s' => exact (wp_ok hwp hrun).elim
    | error e s' =>
      obtain ⟨⟨err, rfl⟩, huntouched, hscopes⟩ := wp_error hwp hrun
      exact ⟨err, s', rfl, huntouched, hscopes⟩

/-! ### An input of blanks -/

/-- A blank input for a session, or for none. -/
def blankRequest (sessionId : Option Uuid) : RunRequest where
  sessionId := sessionId
  runId := some 1
  provider := "p"
  model := "m"
  input := " "
  metadata := .null
  toolChoice := .auto
  clientRequestId := none

/-- One session, and no tool scopes. -/
def oneSession : ScopedWorld := (.ofSession 7 [], .new ⟨[]⟩)

theorem survives_benign : Host.Survives .benign := fun _ => rfl

theorem refused_blank (rt : AgentRuntime) (hpolicy : rt.policy.inputAdmission = {})
    (sessionId : Option Uuid) : Refused .benign rt (blankRequest sessionId) oneSession.1 := by
  left
  unfold RejectsInput
  have hblank : (trimText (blankRequest sessionId).input).isEmpty = true := by
    change (trimText " ").isEmpty = true
    decide +kernel
  simp [hpolicy, InputAdmission.rejects, hblank]

/-- The rejected input of a request that names no session leaves a session behind. -/
theorem blank_leaves_session :
    let rt := AgentRuntime.new ⟨[]⟩ ⟨[]⟩ {} false
    Refused .benign rt (blankRequest none) oneSession.1 ∧ oneSession.1.sessions 1000 = none ∧
      ∃ e s', rt.runScoped .benign 1 (blankRequest none) oneSession = .error (.failed e) s' ∧
        s'.1.sessions 1000 = some [] ∧ ¬ oneSession.1.Untouched s'.1 := by
  intro rt
  have hrefused := refused_blank rt rfl none
  have hwp := wp_keeps 1 survives_benign hrefused rfl Bool.false_ne_true
  refine ⟨hrefused, rfl, ?_⟩
  cases hrun : rt.runScoped .benign 1 (blankRequest none) oneSession with
  | ok out s' => exact (wp_ok hwp hrun).elim
  | error e s' =>
    obtain ⟨⟨err, rfl⟩, hkept, _⟩ := wp_error hwp hrun
    refine ⟨err, s', rfl, hkept, fun huntouched => ?_⟩
    rw [huntouched.sessions] at hkept
    exact absurd hkept nofun

/-- For a session that exists it leaves nothing. -/
theorem blank_leaves_nothing :
    let rt := AgentRuntime.new ⟨[]⟩ ⟨[]⟩ {} false
    ∃ e s', rt.runScoped .benign 1 (blankRequest (some 7)) oneSession = .error (.failed e) s' ∧
      oneSession.1.Untouched s'.1 ∧ s'.2 = oneSession.2 :=
  (refused_untouched_iff .benign _ 1 (blankRequest (some 7)) oneSession survives_benign rfl
    (refused_blank _ rfl (some 7))).mpr (.inl rfl)

end Behest
