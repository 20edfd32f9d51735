import Behest.Runtime.Termination

/-!
# How a run is settled

A run is settled when its record has a terminal status and its end was announced once. The
protocol announces an end only where the run decides it itself: after its last response, or
when the policy or the doom loop detector stops it. A collaborator that fails the run leaves
its status where it was, and nothing announces its end.
-/

namespace Behest

open Effect Compaction

namespace Action

/-- The action announces the end of the run. -/
def announces (runId : Uuid) : Action → Bool
  | emitted event => event.isTerminal && event.runId == runId
  | _ => false

/-- A call to the run store fails. -/
def isRunFault : Action → Bool
  | run _ fault => fault.isSome
  | _ => false

/-- A collaborator fails the run: a store, the registry of providers, the context, a
compaction, the model, or a batch of tools. -/
def isFatal : Action → Bool
  | contextBuilt (.error _) | compacted _ (.error _) | toolsAnswered _ (.error _) => true
  | modelAnswered _ _ (.error (.provider e)) => !e.isContextOverflow
  | modelAnswered _ _ (.error _) => true
  | a => a.isFault

end Action

/-- How often the end of a run was announced. -/
def announcements (runId : Uuid) (trace : List Action) : Nat :=
  trace.countP (Action.announces runId)

/-- The run has a terminal status, which is `Completed` if and only if the call returned a
value, and its end was announced exactly once. -/
def Settled (runId : Uuid) (ok : Bool) (w : World) : Prop :=
  announcements runId w.trace = 1 ∧
    ∃ status, w.status runId = some status ∧ status.isTerminal = true ∧
      (status = .completed ↔ ok = true)

/-- The call returned, with a value or with an error. -/
def Returns {α : Type} (x : M α) (w : World) (ok : Bool) (w' : World) : Prop :=
  (ok = true ∧ ∃ a, x w = .ok a w') ∨ (ok = false ∧ ∃ e, x w = .error (.failed e) w')

/-- The stages in which a call returns. -/
def Stage.ReturnsIn (st : Stage) (ok : Bool) : Prop :=
  ok = true ∧ st.phase = .ended .completed ∨
    ok = false ∧ (st.phase = .halted ∨ st.phase = .degraded ∨ st.phase = .ended .failed)

/-! ### One step -/

namespace Phase

/-- The end was announced. -/
def announced : Phase → Nat
  | ended _ => 1
  | _ => 0

/-- A collaborator failed the run. -/
def Failed : Phase → Prop
  | halted | aborted _ | tripped | degraded => True
  | _ => False

/-- The status the run has been given. -/
def Decided (p : Phase) (status : RunStatus) : Prop := p = closing status ∨ p = ended status

theorem Live.announced {p : Phase} (h : p.Live) : p.announced = 0 := by
  cases p <;> first | rfl | exact h.elim

theorem Live.not_failed {p : Phase} (h : p.Live) : ¬ p.Failed := by
  cases p <;> first | exact id | exact h.elim

theorem Failed.announced {p : Phase} (h : p.Failed) : p.announced = 0 := by
  cases p <;> first | rfl | exact h.elim

theorem Failed.not_decided {p : Phase} (h : p.Failed) (status : RunStatus) :
    ¬ p.Decided status := by
  rintro (rfl | rfl) <;> exact h

theorem failed_refused (p : Phase) : p.refused.Failed := by cases p <;> trivial

theorem failed_afterFailure (threshold : Nat) : (afterFailure threshold).Failed := by
  unfold afterFailure
  split <;> trivial

theorem Live.not_decided {p : Phase} (h : p.Live) (status : RunStatus) : ¬ p.Decided status := by
  rintro (rfl | rfl) <;> exact h

end Phase

namespace Setting

variable {S : Setting} {w w' : World} {st st' : Stage} {a : Action}

theorem Quiet.not_fatal (h : S.Quiet a) : a.isFatal = false := by
  cases a with
  | session op fault => cases op <;> first | exact h.elim | (cases h; rfl)
  | run op fault =>
    cases op with
    | createRun record => exact h.elim
    | updateRunStatus id status =>
      obtain ⟨-, -, rfl⟩ := h
      rfl
  | snapshot op fault =>
    cases op with
    | save s =>
      obtain ⟨-, -, rfl⟩ := h
      rfl
    | load id =>
      cases h
      rfl
    | delete id => exact h.elim
  | acquired sessionId busy => exact h
  | providerLookup id found =>
    cases h
    rfl
  | contextBuilt answer => exact h.elim
  | compacted kind answer => exact h.elim
  | modelAnswered iteration request answer => exact h.elim
  | toolsAnswered calls answer => exact h.elim
  | _ => rfl

theorem Quiet.not_announces (h : S.Quiet a) : a.announces S.runId = false := by
  cases a with
  | emitted event => simp [Action.announces, h.1]
  | _ => rfl

theorem Stores.eq {message : Message} (h : S.Stores w message a) :
    ∃ r, a = .session (.appendMessage r) none := by
  obtain ⟨_, _, ha, _⟩ := h
  exact ⟨_, ha⟩

/-- The end is announced by the step that leads to it. -/
theorem Step.announced (h : S.Step w st a st') :
    st'.phase.announced = st.phase.announced + if a.announces S.runId then 1 else 0 := by
  cases h with
  | quiet live h => simp [h.not_announces]
  | fault live h =>
    rw [live.announced, (Phase.failed_refused _).announced]
    cases a <;> first | rfl | cases h
  | greet h | commit h | recover h =>
    obtain ⟨r, rfl⟩ := h.eq
    rfl
  | store h =>
    obtain ⟨r, rfl⟩ := h.eq
    rw [(Phase.live_storing _).announced]
    rfl
  | toolsAnswered _ _ _ => exact (Phase.live_storing _).announced
  | modelOverflowed _ => cases S.rt.policy.compaction.auto <;> rfl
  | compactionFailed hp =>
    rw [(Phase.failed_afterFailure _).announced]
    rcases hp with rfl | rfl <;> rfl
  | contextFailed hp => rcases hp with rfl | rfl <;> rfl
  | failing fault hp => rcases hp with rfl | rfl <;> rfl
  | announceFailure | announceCompletion =>
    simp [Action.announces, AgentEvent.isTerminal, AgentEvent.runId, Phase.announced]
  | _ => rfl

/-- Without faults of the run store, a run fails exactly at a fatal action. -/
theorem Step.failed_iff (h : S.Step w st a st') (hrun : a.isRunFault = false) :
    st'.phase.Failed ↔ st.phase.Failed ∨ a.isFatal = true := by
  cases h with
  | quiet live h => simp [h.not_fatal]
  | fault live h =>
    have hfatal : a.isFatal = true := by cases a <;> first | exact h | cases h
    simp [hfatal, Phase.failed_refused]
  | cleanup fault _ => simp [Action.isFatal, Action.isFault]
  | greet h | commit h | recover h =>
    obtain ⟨r, rfl⟩ := h.eq
    simp [Action.isFatal, Action.isFault, Phase.Failed]
  | @store d outcome rest _ h =>
    obtain ⟨r, rfl⟩ := h.eq
    have hbefore : ¬ (Phase.executed outcome rest).Failed := id
    simp [Action.isFatal, Action.isFault, hbefore, (Phase.live_storing rest).not_failed]
  | compactionFailed hp => simp [Action.isFatal, Phase.failed_afterFailure]
  | @toolsAnswered d d' message outcomes _ _ _ =>
    have hbefore : ¬ (Phase.committed message .toolCalls).Failed := id
    simp [Action.isFatal, Action.isFault, hbefore, (Phase.live_storing outcomes).not_failed]
  | modelOverflowed h =>
    cases S.rt.policy.compaction.auto <;> simp [Action.isFatal, h, Phase.Failed]
  | @modelFailed d iteration request e h =>
    have hfatal : (Action.modelAnswered iteration request (.error e)).isFatal = true := by
      cases e with
      | provider e' => simp [Action.isFatal, h e' rfl]
      | _ => rfl
    simp [hfatal, Phase.Failed]
  | failing fault hp =>
    have hfatal : (Action.run (.updateRunStatus S.runId .failed) fault).isFatal = false := hrun
    rcases hp with rfl | rfl <;> simp [hfatal, Phase.Failed]
  | _ => simp [Action.isFatal, Action.isFault, Phase.Failed]

/-- A decided status is the status in the store. -/
theorem Step.status (h : S.Step w st a st') (hrun : a.isRunFault = false)
    (hexists : (w.runs S.runId).isSome)
    (hstatus : ∀ status, st.phase.Decided status → w.status S.runId = some status)
    (status : RunStatus) (hdecided : st'.phase.Decided status) :
    (w.apply a).status S.runId = some status := by
  cases h with
  | quiet live _ => exact (live.not_decided status hdecided).elim
  | fault _ _ => exact ((Phase.failed_refused _).not_decided status hdecided).elim
  | compactionFailed _ => exact ((Phase.failed_afterFailure _).not_decided status hdecided).elim
  | store h => exact ((Phase.live_storing _).not_decided status hdecided).elim
  | toolsAnswered _ _ _ => exact ((Phase.live_storing _).not_decided status hdecided).elim
  | modelOverflowed _ =>
    split at hdecided <;> rcases hdecided with hdecided | hdecided <;> cases hdecided
  | cleanup fault _ => exact hstatus status hdecided
  | failing fault _ =>
    obtain rfl : fault = none := by simpa [Action.isRunFault] using hrun
    obtain rfl : RunStatus.failed = status := by
      rcases hdecided with hdecided | hdecided <;> cases hdecided
      rfl
    exact World.status_apply_update hexists
  | finishing _ =>
    obtain rfl : RunStatus.completed = status := by
      rcases hdecided with hdecided | hdecided <;> cases hdecided
      rfl
    exact World.status_apply_update hexists
  | announceFailure =>
    obtain rfl : RunStatus.failed = status := by
      rcases hdecided with hdecided | hdecided <;> cases hdecided
      rfl
    exact hstatus _ (.inl rfl)
  | announceCompletion =>
    obtain rfl : RunStatus.completed = status := by
      rcases hdecided with hdecided | hdecided <;> cases hdecided
      rfl
    exact hstatus _ (.inl rfl)
  | _ => rcases hdecided with hdecided | hdecided <;> cases hdecided

/-- The run has a status that is not terminal. -/
def Open (runId : Uuid) (w : World) : Prop :=
  ∃ status, w.status runId = some status ∧ status.isTerminal = false

/-- A run that has a status exists. -/
theorem Open.exists {runId : Uuid} (h : Open runId w) : (w.runs runId).isSome := by
  obtain ⟨status, hstatus, _⟩ := h
  simpa [World.status] using congrArg Option.isSome hstatus

/-- A run is created with an open status. -/
theorem Creates.open (h : S.Creates w w') : Open S.runId w' := by
  obtain ⟨w₀, now, _, rfl⟩ := h.created
  exact ⟨.pending, by simp [World.status, Action.onRuns, RunRecord.new], rfl⟩

/-- Until it is decided, the status is not terminal. -/
theorem Step.open (h : S.Step w st a st') (hopen : Open S.runId w)
    (hundecided : ∀ status, ¬ st'.phase.Decided status) : Open S.runId (w.apply a) := by
  have hsame : (∀ op, a ≠ .run op none) → Open S.runId (w.apply a) := by
    intro ha
    unfold Open
    rwa [World.status_apply S.runId ha]
  by_cases ha : ∃ op, a = .run op none
  · obtain ⟨op, rfl⟩ := ha
    cases h with
    | quiet live h =>
      cases op with
      | createRun record => exact h.elim
      | updateRunStatus id status =>
        obtain ⟨rfl, hterminal, -⟩ := h
        exact ⟨status, World.status_apply_update hopen.exists, hterminal⟩
    | fault live h => cases h
    | failing fault hp => exact (hundecided _ (.inl rfl)).elim
    | finishing h => exact (hundecided _ (.inl rfl)).elim
    | greet h | commit h | recover h | store h =>
      obtain ⟨r, hr⟩ := h.eq
      cases hr
  · exact hsame fun op hop => ha ⟨op, hop⟩

/-- A decided status stays decided. -/
theorem Step.decided (h : S.Step w st a st') {status : RunStatus}
    (hdecided : st.phase.Decided status) : st'.phase.Decided status := by
  have hlive : ¬ st.phase.Live := fun live => live.not_decided status hdecided
  cases h with
  | quiet live _ => exact (hlive live).elim
  | fault live _ => exact (hlive live).elim
  | cleanup fault _ => exact hdecided
  | announceFailure | announceCompletion =>
    rcases hdecided with hp | hp <;> cases hp
    exact .inr rfl
  | compactionFailed hp => rcases hdecided with rfl | rfl <;> rcases hp with hp | hp <;> cases hp
  | contextFailed hp => rcases hdecided with rfl | rfl <;> rcases hp with hp | hp <;> cases hp
  | failing _ hp => rcases hdecided with rfl | rfl <;> rcases hp with hp | hp <;> cases hp
  | _ => rcases hdecided with hp | hp <;> cases hp

/-! ### A whole run -/

/-- What the actions of a run amount to in a stage. -/
structure Accounts (S : Setting) (as : List Action) (w : World) (st : Stage) : Prop where
  announced : announcements S.runId as = st.phase.announced
  failed : st.phase.Failed ↔ ∃ a ∈ as, a.isFatal = true
  run : (w.runs S.runId).isSome
  status : ∀ status, st.phase.Decided status → w.status S.runId = some status

theorem accounts_of_trail {as : List Action} (h : Trail World.apply S.Step w st as w' st')
    (live : st.phase.Live) (hrun : (w.runs S.runId).isSome)
    (hfaults : ∀ a ∈ as, a.isRunFault = false) : S.Accounts as w' st' := by
  apply h.invariant (fun as w st => (∀ a ∈ as, a.isRunFault = false) → S.Accounts as w st) _ _
    hfaults
  · exact fun _ => {
      announced := live.announced.symm
      failed := by simpa using live.not_failed
      run := hrun
      status := fun status hdecided => (live.not_decided status hdecided).elim }
  · intro as t q a q' ih hstep hfaults
    have hbefore := ih fun b hb => hfaults b (List.mem_append_left _ hb)
    have ha : a.isRunFault = false := hfaults a (by simp)
    exact {
      announced := by
        rw [announcements, List.countP_append, ← announcements, hbefore.announced,
          hstep.announced, List.countP_singleton]
      failed := by
        rw [hstep.failed_iff ha, hbefore.failed]
        simp [or_and_right, exists_or]
      run := World.isSome_runs_apply a hbefore.run
      status := hstep.status ha hbefore.run hbefore.status }

theorem open_of_trail {as : List Action} (h : Trail World.apply S.Step w st as w' st')
    (hopen : Open S.runId w) (hundecided : ∀ status, ¬ st'.phase.Decided status) :
    Open S.runId w' := by
  apply h.invariant (fun _ w st => (∀ status, ¬ st.phase.Decided status) → Open S.runId w) _ _
    hundecided
  · exact fun _ => hopen
  · intro _ t q a q' ih hstep hundecided
    apply hstep.open _ hundecided
    exact ih fun status hdecided => hundecided status (hstep.decided hdecided)

/-- In the stage where a call returns, the account of its actions decides the matter. -/
theorem Accounts.settled {as before : List Action} {ok : Bool} (h : S.Accounts as w st)
    (hstage : st.ReturnsIn ok)
    (htrace : announcements S.runId w.trace =
      announcements S.runId before + announcements S.runId as)
    (hundecided : st.phase.Failed → announcements S.runId before = 0 ∨ Open S.runId w) :
    Settled S.runId ok w ↔ announcements S.runId before = 0 ∧ ∀ a ∈ as, a.isFatal = false := by
  have hfatal : (∀ a ∈ as, a.isFatal = false) ↔ ¬ st.phase.Failed := by
    rw [h.failed]
    simp
  have hended : ∀ status, st.phase = .ended status → status.isTerminal = true →
      (status = .completed ↔ ok = true) →
      (Settled S.runId ok w ↔ announcements S.runId before = 0 ∧ ¬ st.phase.Failed) := by
    intro status hphase hterminal hok
    have hcount : announcements S.runId w.trace = announcements S.runId before + 1 := by
      rw [htrace, h.announced, hphase]
      rfl
    have hnot : ¬ st.phase.Failed := by
      rw [hphase]
      exact id
    constructor
    · intro hsettled
      have hone := hsettled.1
      exact ⟨by omega, hnot⟩
    · intro hzero
      exact ⟨by omega, status, h.status status (.inr hphase), hterminal, hok⟩
  have hfailed : st.phase.Failed → st.phase.announced = 0 →
      (Settled S.runId ok w ↔ announcements S.runId before = 0 ∧ ¬ st.phase.Failed) := by
    intro hphase hzero
    have hcount : announcements S.runId w.trace = announcements S.runId before := by
      rw [htrace, h.announced, hzero, Nat.add_zero]
    constructor
    · intro hsettled
      rcases hundecided hphase with hbefore | ⟨status, hstatus, hopen⟩
      · have hone := hsettled.1
        omega
      · obtain ⟨status', hstatus', hterminal, _⟩ := hsettled.2
        rw [hstatus] at hstatus'
        cases hstatus'
        rw [hopen] at hterminal
        cases hterminal
    · exact fun hnot => absurd hphase hnot.2
  rw [hfatal]
  rcases hstage with ⟨rfl, hphase⟩ | ⟨rfl, hphase | hphase | hphase⟩
  · exact hended .completed hphase rfl (by simp)
  · exact hfailed (hphase ▸ trivial) (by rw [hphase]; rfl)
  · exact hfailed (hphase ▸ trivial) (by rw [hphase]; rfl)
  · exact hended .failed hphase rfl (by simp)

/-- A call that follows the protocol returns in a stage where it may. -/
theorem stage_of_return {α : Type} {x : M α} {ok : Bool} {w₀ : World} {st₀ : Stage}
    (hx : wp x (fun _ => S.Completes w₀ st₀) (S.Leaves w₀ st₀) w) (h : Returns x w ok w') :
    ∃ st, S.Follows w₀ st₀ w' st ∧ st.ReturnsIn ok := by
  rcases h with ⟨rfl, a, h⟩ | ⟨rfl, e, h⟩
  · obtain ⟨d, hfollows⟩ := wp_ok hx h
    exact ⟨_, hfollows, .inl ⟨rfl, rfl⟩⟩
  · obtain ⟨st, hfollows, he⟩ := wp_error hx h
    exact ⟨st, hfollows, .inr ⟨rfl, he.resolve_left nofun⟩⟩

/-- A run that was created returns in a stage where it may. -/
theorem stage_of_run {host : Host} {rt : AgentRuntime} {fuel : Nat} {request : RunRequest}
    {ok : Bool} (h : Returns (rt.run host fuel request) w ok w') :
    Reaches Preliminary w w' ∨ ∃ runId sessionId w₁ st,
      let S : Setting := ⟨host, rt, runId, sessionId, request⟩
      S.Creates w w₁ ∧ S.Follows w₁ S.opened w' st ∧ st.ReturnsIn ok := by
  have hwp := wp_run host rt fuel request w
  rcases h with ⟨rfl, a, h⟩ | ⟨rfl, e, h⟩
  · obtain ⟨runId, sessionId, w₁, hcreates, d, hfollows⟩ := wp_ok hwp h
    exact .inr ⟨runId, sessionId, w₁, _, hcreates, hfollows, .inl ⟨rfl, rfl⟩⟩
  · rcases wp_error hwp h with hr | ⟨runId, sessionId, w₁, hcreates, st, hfollows, he⟩
    · exact .inl hr
    · exact .inr ⟨runId, sessionId, w₁, st, hcreates, hfollows, .inr ⟨rfl, he.resolve_left nofun⟩⟩

/-- The action creates a run. -/
def createsRun : Action → Bool
  | .run (.createRun _) none => true
  | _ => false

/-- In its run, the protocol creates none. -/
theorem Step.not_createsRun (h : S.Step w st a st') : createsRun a = false := by
  cases h with
  | quiet live h =>
    cases a with
    | run op fault =>
      cases op with
      | createRun record => exact h.elim
      | updateRunStatus id status => rfl
    | _ => rfl
  | fault live h =>
    cases a with
    | run op fault =>
      cases fault with
      | none => cases h
      | some e => cases op <;> rfl
    | _ => rfl
  | greet h | commit h | recover h | store h =>
    obtain ⟨r, rfl⟩ := h.eq
    rfl
  | _ => rfl

theorem not_createsRun_of_trail {as : List Action} (h : Trail World.apply S.Step w st as w' st') :
    ∀ a ∈ as, createsRun a = false := by
  intro a ha
  obtain ⟨before, after, rfl⟩ := List.append_of_mem ha
  obtain ⟨_, _, _, _, hstep, _⟩ := h.split
  exact hstep.not_createsRun

end Setting

/-- A list is cut in one way at the only element that satisfies `p`. -/
theorem split_unique {α : Type} {p : α → Bool} {xs ys xs' ys' : List α} {x x' : α}
    (h : xs ++ x :: ys = xs' ++ x' :: ys') (hx : p x = true) (hxs : ∀ a ∈ xs', p a = false)
    (hys : ∀ a ∈ ys', p a = false) : xs = xs' ∧ x = x' ∧ ys = ys' := by
  induction xs' generalizing xs with
  | nil =>
    cases xs with
    | nil =>
      cases h
      exact ⟨rfl, rfl, rfl⟩
    | cons b rest =>
      cases h
      have hfalse := hys x (by simp)
      rw [hx] at hfalse
      cases hfalse
  | cons b rest ih =>
    cases xs with
    | nil =>
      cases h
      have hfalse := hxs x (by simp)
      rw [hx] at hfalse
      cases hfalse
    | cons c rest' =>
      obtain ⟨rfl, htail⟩ := List.cons.inj h
      obtain ⟨rfl, hxx', hys'⟩ := ih htail fun a ha => hxs a (List.mem_cons_of_mem _ ha)
      exact ⟨rfl, hxx', hys'⟩

section Claims

variable {host : Host} {rt : AgentRuntime} {fuel : Nat} {w w' : World} {ok : Bool}
  {before after : List Action}

theorem announcements_append (runId : Uuid) (as bs : List Action) :
    announcements runId (as ++ bs) = announcements runId as + announcements runId bs :=
  List.countP_append

/-- Before a run is created, the transcript holds none. -/
theorem trace_ne_of_reaches {record : RunRecord} (hr : Reaches Setting.Preliminary w w') :
    w'.trace ≠ w.trace ++ before ++ .run (.createRun record) none :: after := by
  intro htrace
  obtain ⟨as, has, hpre⟩ := trace_of_reaches hr
  rw [htrace, List.append_assoc] at has
  have hmem : .run (.createRun record) none ∈ as := by
    rw [← List.append_cancel_left has]
    simp
  exact (hpre _ hmem).elim

/-- What was done before a run was created, and what was done in it. -/
theorem Setting.Creates.split {S : Setting} {w₁ : World} {st₀ st : Stage} {record : RunRecord}
    {bs : List Action} (hcreates : S.Creates w w₁)
    (htrail : Trail World.apply S.Step w₁ st₀ bs w' st)
    (htrace : w'.trace = w.trace ++ before ++ .run (.createRun record) none :: after) :
    (∀ a ∈ before, Preliminary a) ∧
      (∃ now, record = .new S.runId S.sessionId S.request now) ∧
      w₁.trace = w.trace ++ before ++ [.run (.createRun record) none] ∧ after = bs := by
  obtain ⟨pre, now, hcreated, hpre⟩ := hcreates.trace
  have hbs := Setting.trace_of_trail htrail
  have hsplit : before ++ .run (.createRun record) none :: after =
      pre ++ .run (.createRun (.new S.runId S.sessionId S.request now)) none :: bs := by
    rw [htrace, hcreated] at hbs
    simpa using hbs
  obtain ⟨rfl, hrecord, rfl⟩ := split_unique hsplit (p := Setting.createsRun) rfl
    (fun a ha => by
      have hprea := hpre a ha
      cases a with
      | run op fault => cases op <;> cases fault <;> first | rfl | exact hprea.elim
      | _ => rfl)
    (Setting.not_createsRun_of_trail htrail)
  cases hrecord
  exact ⟨hpre, ⟨now, rfl⟩, hcreated, rfl⟩

/-- What a run does after it is created, and how it came to be created. -/
theorem trail_of_run {request : RunRequest} {record : RunRecord}
    (hreturns : Returns (rt.run host fuel request) w ok w')
    (htrace : w'.trace = w.trace ++ before ++ .run (.createRun record) none :: after) :
    let S : Setting := ⟨host, rt, record.id, record.sessionId, request⟩
    (∀ a ∈ before, Setting.Preliminary a) ∧ ∃ w₁ st, S.Creates w w₁ ∧
      w₁.trace = w.trace ++ before ++ [.run (.createRun record) none] ∧
      Trail World.apply S.Step w₁ S.opened after w' st ∧ st.ReturnsIn ok := by
  rcases Setting.stage_of_run hreturns with
    hr | ⟨runId, sessionId, w₁, st, hcreates, ⟨bs, htrail⟩, hstage⟩
  · exact (trace_ne_of_reaches hr htrace).elim
  · obtain ⟨hpre, ⟨now, rfl⟩, hcreated, rfl⟩ := hcreates.split htrail htrace
    exact ⟨hpre, w₁, st, hcreates, hcreated, htrail, hstage⟩

/-- What a resumed run does: nothing without its snapshot, and what the protocol allows from
the stage of the snapshot otherwise. -/
theorem trail_of_resume {runId : Uuid} (hreturns : Returns (rt.resume host fuel runId) w ok w')
    (hsaved : ∀ s, w.snapshots runId = some s → Saved rt.policy s)
    (htrace : w'.trace = w.trace ++ after) :
    (rt.hasSnapshotStore = false ∧ after = []) ∨
      (w.snapshots runId = none ∧ ∃ fault, after = [.snapshot (.load runId) fault]) ∨
      ∃ s st, let S := Setting.ofSnapshot host rt runId s
        rt.hasSnapshotStore = true ∧ w.snapshots runId = some s ∧
          Trail World.apply S.Step w (Setting.resumed rt.policy s) after w' st ∧
          st.ReturnsIn ok := by
  by_cases hstore : rt.hasSnapshotStore = true
  · apply Or.inr
    cases hs : w.snapshots runId with
    | none =>
      have hwp : wp (rt.resume host fuel runId) (fun _ _ => False)
          (fun _ w' => ∃ fault, w' = w.apply (.snapshot (.load runId) fault)) w := by
        unfold AgentRuntime.resume
        rw [if_pos hstore, wp_bind]
        apply wp_onSnapshot_crash
        · exact fun e => ⟨⟨some e, rfl⟩, some e, rfl⟩
        · apply And.intro ⟨none, rfl⟩
          have hload : (w.apply (.snapshot (.load runId) none)).snapshots runId = none := hs
          simp only [wp_bind, wp_get, hload]
          exact ⟨none, rfl⟩
      rcases hreturns with ⟨rfl, out, h⟩ | ⟨rfl, e, h⟩
      · exact (wp_ok hwp h).elim
      · obtain ⟨fault, rfl⟩ := wp_error hwp h
        have hafter : [.snapshot (.load runId) fault] = after :=
          List.append_cancel_left ((World.apply_trace _ _).symm.trans htrace)
        exact .inl ⟨rfl, fault, hafter.symm⟩
    | some s =>
      obtain ⟨st, ⟨bs, htrail⟩, hstage⟩ := Setting.stage_of_return
        (Setting.wp_resume host fuel w hstore hs (hsaved s hs).savable) hreturns
      obtain rfl : after = bs :=
        List.append_cancel_left (htrace.symm.trans (Setting.trace_of_trail htrail))
      exact .inr ⟨s, st, hstore, rfl, htrail, hstage⟩
  · have hrefusal : rt.resume host fuel runId w =
        .error (.failed (.recoveryFailed "snapshot store not configured")) w := by
      unfold AgentRuntime.resume
      rw [if_neg hstore]
      rfl
    have hsame : w' = w := by
      rcases hreturns with ⟨rfl, out, h⟩ | ⟨rfl, e, h⟩ <;> rw [hrefusal] at h <;> cases h
      rfl
    subst hsame
    exact .inl ⟨by simpa using hstore, List.self_eq_append_right.mp htrace⟩

theorem run_settled_iff {request : RunRequest} {record : RunRecord}
    (hreturns : Returns (rt.run host fuel request) w ok w')
    (htrace : w'.trace = w.trace ++ before ++ .run (.createRun record) none :: after)
    (hfaults : ∀ a ∈ after, a.isRunFault = false) :
    Settled record.id ok w' ↔
      announcements record.id w.trace = 0 ∧ ∀ a ∈ after, a.isFatal = false := by
  obtain ⟨hpre, w₁, st, hcreates, hcreated, htrail, hstage⟩ := trail_of_run hreturns htrace
  have haccounts := Setting.accounts_of_trail htrail trivial hcreates.open.exists hfaults
  apply haccounts.settled hstage
  · have hzero : announcements record.id before = 0 := by
      apply List.countP_eq_zero.mpr
      intro a ha
      have hprea := hpre a ha
      cases a <;> first | exact hprea.elim | exact Bool.false_ne_true
    have hnew : announcements record.id [.run (.createRun record) none] = 0 := rfl
    rw [Setting.trace_of_trail htrail, hcreated, announcements_append, announcements_append,
      announcements_append, hzero, hnew]
    rfl
  · intro hfailed
    apply Or.inr
    apply Setting.open_of_trail htrail hcreates.open
    exact fun status hdecided => Phase.Failed.not_decided hfailed status hdecided

theorem resume_settled_iff {runId : Uuid} (hreturns : Returns (rt.resume host fuel runId) w ok w')
    (hsaved : ∀ s, w.snapshots runId = some s → Saved rt.policy s)
    (hrun : (w.runs runId).isSome) (hnew : announcements runId w.trace = 0)
    (htrace : w'.trace = w.trace ++ after) (hfaults : ∀ a ∈ after, a.isRunFault = false) :
    Settled runId ok w' ↔ rt.hasSnapshotStore = true ∧ (w.snapshots runId).isSome ∧
      ∀ a ∈ after, a.isFatal = false := by
  have hrefused : (∀ a ∈ after, a.announces runId = false) → ¬ Settled runId ok w' := by
    intro hnone hsettled
    have hzero : announcements runId after = 0 :=
      List.countP_eq_zero.mpr fun a ha => by simp [hnone a ha]
    have hone := hsettled.1
    rw [htrace, announcements_append] at hone
    omega
  rcases trail_of_resume hreturns hsaved htrace with
    ⟨hstore, rfl⟩ | ⟨hs, fault, rfl⟩ | ⟨s, st, hstore, hs, htrail, hstage⟩
  · constructor
    · exact fun h => absurd h (hrefused (by simp))
    · exact fun h => absurd h.1 (by simp [hstore])
  · constructor
    · exact fun h => absurd h (hrefused (by simp [Action.announces]))
    · exact fun h => absurd h.2.1 (by simp [hs])
  · have haccounts := Setting.accounts_of_trail htrail (Setting.live_resumed _ _) hrun hfaults
    have htotal : announcements runId w'.trace =
        announcements runId w.trace + announcements runId after := by
      rw [htrace, announcements_append]
    have hiff : Settled runId ok w' ↔
        announcements runId w.trace = 0 ∧ ∀ a ∈ after, a.isFatal = false :=
      haccounts.settled hstage htotal fun _ => .inl hnew
    simpa [hstore, hs, hnew] using hiff

/-- **A run is settled if and only if no collaborator failed it**: for every run that was
created, and for every run resumed from a saved snapshot, where the run store accepts every
call and the end of the run was not announced before. -/
theorem settled_iff (host : Host) (rt : AgentRuntime) (fuel : Nat) (w w' : World) (ok : Bool)
    (after : List Action) (hfaults : ∀ a ∈ after, a.isRunFault = false) :
    (∀ request record before, Returns (rt.run host fuel request) w ok w' →
      w'.trace = w.trace ++ before ++ .run (.createRun record) none :: after →
      (Settled record.id ok w' ↔
        announcements record.id w.trace = 0 ∧ ∀ a ∈ after, a.isFatal = false)) ∧
    ∀ runId, Returns (rt.resume host fuel runId) w ok w' →
      (∀ s, w.snapshots runId = some s → Saved rt.policy s) → (w.runs runId).isSome →
      announcements runId w.trace = 0 → w'.trace = w.trace ++ after →
      (Settled runId ok w' ↔ rt.hasSnapshotStore = true ∧ (w.snapshots runId).isSome ∧
        ∀ a ∈ after, a.isFatal = false) :=
  ⟨fun _ _ _ hreturns htrace => run_settled_iff hreturns htrace hfaults,
    fun _ hreturns hsaved hrun hnew htrace =>
      resume_settled_iff hreturns hsaved hrun hnew htrace hfaults⟩

end Claims

/-! ### Runs on a host on which nothing goes wrong -/

/-- A provider that answers at once. -/
def ponging : ChatProvider where
  id := "p"
  capabilities := ⟨false, none, none⟩
  complete _ _ := .ok ⟨.assistantText "pong", .stop, none⟩
  stream _ _ := .error (.overloaded "p")

/-- The outcome is a value. -/
def isValue {α : Type} : EStateM.Result Stop World α → Bool
  | .ok _ _ => true
  | .error _ _ => false

/-- The outcome is an error. -/
def isError {α : Type} : EStateM.Result Stop World α → Bool
  | .error (.failed _) _ => true
  | _ => false

theorem returns_of_isValue {α : Type} {x : M α} {w : World} (h : isValue (x w) = true) :
    Returns x w true (final (x w)) := by
  unfold isValue at h
  split at h
  · next a w' hx => exact .inl ⟨rfl, a, by rw [hx]; rfl⟩
  · cases h

theorem returns_of_isError {α : Type} {x : M α} {w : World} (h : isError (x w) = true) :
    Returns x w false (final (x w)) := by
  unfold isError at h
  split at h
  · next e w' hx => exact .inr ⟨rfl, e, by rw [hx]; rfl⟩
  · cases h

/-- A run for a provider that is not registered is created, and returns an error with its
status at `SessionLoaded` and no end announced. -/
theorem askPing_unsettled :
    let rt := AgentRuntime.new ⟨[]⟩ ⟨[]⟩ {} false
    ∃ w', Returns (rt.run .benign 1 askPing) (.ofSession 7 []) false w' ∧
      w'.trace.any Setting.createsRun = true ∧ w'.status 1 = some .sessionLoaded ∧
      announcements 1 w'.trace = 0 ∧ ¬ Settled 1 false w' := by
  intro rt
  have hzero : announcements 1 (final (rt.run .benign 1 askPing (.ofSession 7 []))).trace = 0 := by
    decide +kernel
  refine ⟨_, returns_of_isError (by decide +kernel), by decide +kernel, by decide +kernel, hzero,
    ?_⟩
  intro hsettled
  have hone := hsettled.1
  rw [hzero] at hone
  cases hone

/-- The action creates a run with such a record. -/
def Action.createsWith (p : RunRecord → Bool) : Action → Bool
  | .run (.createRun record) none => p record
  | _ => false

/-- Where a transcript creates the run 1. -/
theorem exists_created {trace : List Action}
    (h : trace.any (Action.createsWith (·.id == 1)) = true) :
    ∃ before record after, trace = [] ++ before ++ .run (.createRun record) none :: after ∧
      record.id = 1 := by
  obtain ⟨a, ha, hcreates⟩ := List.any_eq_true.mp h
  obtain ⟨before, after, rfl⟩ := List.append_of_mem ha
  unfold Action.createsWith at hcreates
  split at hcreates
  · next record => exact ⟨before, record, after, by simp, by simpa using hcreates⟩
  · cases hcreates

/-- The world of a process that ended after its run was saved in the state. -/
def interrupted (rt : AgentRuntime) (state : TurnState) : World where
  sessions := (World.ofSession 7 []).sessions
  runs := (World.ofRun (.new 1 7 askPing 0)).runs
  snapshots _ := savedIn state (final (rt.run .benign 1 askPing (.ofSession 7 []))).trace
  executions := []
  seenFingerprints := []
  trace := []

/-- What the stopped process had saved. -/
theorem saved_of_interrupted {rt : AgentRuntime} {state : TurnState} {s : Snapshot} {id : Uuid}
    (h : (interrupted rt state).snapshots id = some s) : Saved rt.policy s := by
  unfold interrupted at h
  exact (saved_of_savedIn (w := .ofSession 7 []) rfl h).1

/-- A run that is answered at once is settled, and so is its resumption from the model call. -/
theorem askPing_settled :
    let rt := AgentRuntime.new ⟨[ponging]⟩ ⟨[]⟩ {} true
    (∃ w', Returns (rt.run .benign 1 askPing) (.ofSession 7 []) true w' ∧ Settled 1 true w') ∧
    ∃ w', Returns (rt.resume .benign 1 1) (interrupted rt .callingModel) true w' ∧
      Settled 1 true w' := by
  intro rt
  constructor
  · have hreturns : Returns (rt.run .benign 1 askPing) (.ofSession 7 []) true
        (final (rt.run .benign 1 askPing (.ofSession 7 []))) :=
      returns_of_isValue (by decide +kernel)
    have hclean : (final (rt.run .benign 1 askPing (.ofSession 7 []))).trace.all
        (fun a => !a.isRunFault && !a.isFatal) = true := by decide +kernel
    have hcreated : (final (rt.run .benign 1 askPing (.ofSession 7 []))).trace.any
        (Action.createsWith (·.id == 1)) = true := by decide +kernel
    generalize final (rt.run .benign 1 askPing (.ofSession 7 [])) = w' at hreturns hclean hcreated
    obtain ⟨before, record, after, htrace, hid⟩ := exists_created hcreated
    have hafter : ∀ a ∈ after, a.isRunFault = false ∧ a.isFatal = false := by
      intro a ha
      simpa using List.all_eq_true.mp hclean a (by rw [htrace]; simp [ha])
    have hiff := (settled_iff .benign rt 1 (.ofSession 7 []) w' true after
      fun a ha => (hafter a ha).1).1 askPing record before hreturns htrace
    rw [hid] at hiff
    exact ⟨w', hreturns, hiff.mpr ⟨rfl, fun a ha => (hafter a ha).2⟩⟩
  · have hreturns : Returns (rt.resume .benign 1 1) (interrupted rt .callingModel) true
        (final (rt.resume .benign 1 1 (interrupted rt .callingModel))) :=
      returns_of_isValue (by decide +kernel)
    have hclean : (final (rt.resume .benign 1 1 (interrupted rt .callingModel))).trace.all
        (fun a => !a.isRunFault && !a.isFatal) = true := by decide +kernel
    have hfound : ((interrupted rt .callingModel).snapshots 1).isSome = true := by decide +kernel
    generalize final (rt.resume .benign 1 1 (interrupted rt .callingModel)) = w' at hreturns hclean
    have hafter : ∀ a ∈ w'.trace, a.isRunFault = false ∧ a.isFatal = false := by
      intro a ha
      simpa using List.all_eq_true.mp hclean a ha
    have h1 : announcements 1 (interrupted rt .callingModel).trace = 0 := rfl
    have h2 : ((interrupted rt .callingModel).runs 1).isSome = true := by decide +kernel
    have h3 : w'.trace = (interrupted rt .callingModel).trace ++ w'.trace :=
      (List.nil_append _).symm
    have hs : ∀ s, (interrupted rt .callingModel).snapshots 1 = some s → Saved rt.policy s :=
      fun s hs => saved_of_interrupted hs
    have hiff := (settled_iff .benign rt 1 (interrupted rt .callingModel) w' true w'.trace
      fun a ha => (hafter a ha).1).2 1 hreturns hs h2 h1 h3
    exact ⟨w', hreturns, hiff.mpr ⟨rfl, hfound, fun a ha => (hafter a ha).2⟩⟩

end Behest
