import Behest.Runtime.Refinement

/-!
# Termination of a resumed run

A pass that counts its iteration brings the loop closer to its limit; one that only finishes
what an earlier pass began does so once. A loop resumed while building a context does
neither: its gate is never reset, so every pass builds another context and calls no model.
-/

namespace Behest

open Effect Compaction

/-! ### Saved snapshots -/

/-- The snapshots that runs and resumed runs save under a policy. -/
inductive Saved (policy : RuntimePolicy) : Snapshot → Prop where
  | run {host : Host} {rt : AgentRuntime} {fuel : Nat} {request : RunRequest} {w w' : World}
      {as : List Action} {s : Snapshot} (hpolicy : rt.policy = policy)
      (h : Ends (rt.run host fuel request) w w') (htrace : w'.trace = w.trace ++ as)
      (hs : .snapshot (.save s) none ∈ as) : Saved policy s
  | resume {host : Host} {rt : AgentRuntime} {fuel : Nat} {runId : Uuid} {w w' : World}
      {as : List Action} {s₀ s : Snapshot} (hpolicy : rt.policy = policy) (before : Saved policy s₀)
      (stored : w.snapshots runId = some s₀) (h : Ends (rt.resume host fuel runId) w w')
      (htrace : w'.trace = w.trace ++ as) (hs : .snapshot (.save s) none ∈ as) : Saved policy s

/-- Every snapshot saved by a run, or by a run resumed from such a snapshot, can be saved. -/
theorem Saved.savable {policy : RuntimePolicy} {s : Snapshot} (h : Saved policy s) :
    Savable policy s := by
  induction h with
  | @run host rt fuel request w w' as s hpolicy h htrace hs =>
    rcases Setting.follows_of_run h with hr | ⟨runId, sessionId, w₁, st, hcreates, bs, htrail⟩
    · obtain ⟨bs, hbs, hpre⟩ := trace_of_reaches hr
      obtain rfl : as = bs := List.append_cancel_left (htrace.symm.trans hbs)
      exact (hpre _ hs).elim
    · obtain ⟨before, now, hbefore, hpre⟩ := hcreates.trace
      have hbs := Setting.trace_of_trail htrail
      rw [htrace, hbefore, List.append_assoc, List.append_assoc] at hbs
      rw [List.append_cancel_left hbs, List.mem_append, List.mem_append] at hs
      rcases hs with hs | hs | hs
      · exact (hpre _ hs).elim
      · simp at hs
      · exact hpolicy ▸ (Setting.savable_of_trail htrail hs).1
  | @resume host rt fuel runId w w' as s₀ s hpolicy before stored h htrace hs ih =>
    rcases Setting.follows_of_resume stored (hpolicy ▸ ih) h with rfl | ⟨st, bs, htrail⟩
    · have hnone : as = [] := List.self_eq_append_right.mp htrace
      rw [hnone] at hs
      cases hs
    · have hbs := Setting.trace_of_trail htrail
      obtain rfl : as = bs := List.append_cancel_left (htrace.symm.trans hbs)
      exact hpolicy ▸ (Setting.savable_of_trail htrail hs).1

/-! ### The budget -/

/-- The turn loop resumed from a snapshot. -/
def resumedLoop (host : Host) (rt : AgentRuntime) (provider : ChatProvider) (s : Snapshot)
    (fuel : Nat) : M RunOutput :=
  rt.runLoopInner host (rt.runContext s.runId s.sessionId provider s.request) fuel
    (.ofSnapshot rt.policy s)

/-- Whatever the collaborators do, the loop resumed from the snapshot returns, or its process
ends, within one pass more than the limit of iterations. -/
def Terminates (policy : RuntimePolicy) (s : Snapshot) : Prop :=
  ∀ (host : Host) (rt : AgentRuntime) (provider : ChatProvider) (w : World), rt.policy = policy →
    ∀ e w', resumedLoop host rt provider s (policy.maxIterations + 1) w = .error e w' → e.Clean

/-- The passes a loop has left. -/
def LoopState.rank (policy : RuntimePolicy) (l : LoopState) : Nat :=
  if l.resumeFrom = .checkingPolicy then policy.maxIterations - l.iteration
  else policy.maxIterations - l.iteration + 1

/-- A pass that starts another one leaves one pass less. -/
theorem LoopState.Advances.rank_lt {policy : RuntimePolicy} {l l' : LoopState}
    (h : l.Advances policy l') (hb : l.resumeFrom ≠ .buildingContext) :
    l'.resumeFrom = .checkingPolicy ∧ l'.rank policy < l.rank policy := by
  have hcp : l'.resumeFrom = .checkingPolicy := by rw [h.state, if_neg hb]
  have hiteration := h.iteration
  have hwithin := h.within
  refine ⟨hcp, ?_⟩
  unfold LoopState.counted at hiteration hwithin
  unfold LoopState.rank
  rw [if_pos hcp]
  split
  · next hl =>
    rw [if_pos hl] at hiteration hwithin
    omega
  · next hl =>
    rw [if_neg hl] at hiteration hwithin
    omega

/-- A saved snapshot has no more passes left than the limit allows. -/
theorem Savable.rank_lt {policy : RuntimePolicy} {s : Snapshot} (h : Savable policy s) :
    (LoopState.ofSnapshot policy s).rank policy < policy.maxIterations + 1 := by
  have hstarted := h.started
  have hbounded := h.bounded
  unfold LoopState.rank LoopState.ofSnapshot
  dsimp only
  split
  · omega
  · next hcp =>
    have hle := hbounded hcp
    omega

theorem terminates_of_savable {policy : RuntimePolicy} {s : Snapshot} (h : Savable policy s)
    (hb : s.currentState ≠ .buildingContext) : Terminates policy s := by
  rintro host rt provider w rfl e w' hrun
  let S : Setting := ⟨host, rt, s.runId, s.sessionId, s.request⟩
  have hwp : wp (resumedLoop host rt provider s (rt.policy.maxIterations + 1)) (fun _ _ => True)
      (fun e _ => e.Clean) w := by
    have hstops : ∀ {e : Stop} {w' : World}, S.Halts w (Setting.resumed rt.policy s) e w' →
        e.Clean := by
      intro e w' ⟨st, _, hst⟩
      cases e <;> trivial
    unfold resumedLoop AgentRuntime.runLoopInner
    rw [wp_bind]
    -- the invariant excludes the state whose gate is never reset
    apply wp_iterate_ranked
      (fun l w' => l.resumeFrom ≠ .buildingContext ∧
        ∃ st, S.Follows w (Setting.resumed rt.policy s) w' st ∧ l.Ready rt.policy st)
      (fun l => l.rank rt.policy)
    · intro l w₁ ⟨hl, st, hfollows, hready⟩
      apply wp_mono (Setting.wp_pass (S := S) hfollows hready) _ fun _ _ he => hstops he
      intro r w₂ hpost
      cases r with
      | again l' =>
        obtain ⟨hadvances, hnext⟩ := hpost
        have hlt := hadvances.rank_lt hl
        exact ⟨⟨by rw [hlt.1]; nofun, hnext⟩, hlt.2⟩
      | done l' =>
        obtain ⟨message, finish, d, hfollows, hend⟩ := hpost
        exact wp_mono (Setting.wp_completeRun hfollows hend) (fun _ _ _ => trivial)
          fun _ _ he => hstops he
    · exact ⟨hb, _, .refl _ _, LoopState.ready_ofSnapshot h⟩
    · exact h.rank_lt
  exact wp_error hwp hrun

/-! ### Building a context forever -/

section Benign

variable {w : World} {E : Stop → World → Prop}

theorem wp_benign_updateStatus {Q : Unit → World → Prop} {runId : Uuid} {status : RunStatus}
    (hrun : (w.runs runId).isSome)
    (h : Q () (w.apply (.run (.updateRunStatus runId status) none))) :
    wp (AgentRuntime.updateStatus .benign runId status) Q E w := by
  have hrefusal : w.runRefusal (.updateRunStatus runId status) = none := by
    obtain ⟨record, hrecord⟩ := Option.isSome_iff_exists.mp hrun
    simp [World.runRefusal, hrecord]
  unfold AgentRuntime.updateStatus Host.onRun
  rw [wp_bind, wp_get, hrefusal]
  exact h

end Benign

/-- A provider that states no limits. -/
def unlimited : ChatProvider where
  id := "p"
  capabilities := ⟨false, none, none⟩
  complete _ _ := .error (.overloaded "p")
  stream _ _ := .error (.overloaded "p")

/-- A runtime without tools and without a snapshot store. -/
def bare (policy : RuntimePolicy) : AgentRuntime := .new ⟨[unlimited]⟩ ⟨[]⟩ policy false

/-- A world that holds one run. -/
def World.ofRun (record : RunRecord) : World where
  sessions _ := none
  runs id := if id = record.id then some record else none
  snapshots _ := none
  executions := []
  seenFingerprints := []
  trace := []

/-- A pass resumed while building a context builds one, and leaves its gate as it was. -/
theorem pass_rebuilds {policy : RuntimePolicy} {runId sessionId : Uuid} {request : RunRequest}
    {l : LoopState} {w : World} (hl : l.resumeFrom = .buildingContext)
    (hrun : (w.runs runId).isSome) :
    ∃ l' w', (bare policy).pass .benign
        ((bare policy).runContext runId sessionId unlimited request) l w = .ok (.again l') w' ∧
      l'.resumeFrom = .buildingContext ∧ (w'.runs runId).isSome := by
  have hwp : wp ((bare policy).pass .benign
      ((bare policy).runContext runId sessionId unlimited request) l)
      (fun r w' => ∃ l', r = .again l' ∧ l'.resumeFrom = .buildingContext ∧
        (w'.runs runId).isSome) (fun _ _ => False) w := by
    obtain ⟨_, iteration, usage, lastFinish, message, msgId, recoveries, detector, breaker⟩ := l
    obtain rfl : _ = TurnState.buildingContext := hl
    have hproactive : ∀ l, AgentRuntime.proactiveCompaction .benign (bare policy)
        ((bare policy).runContext runId sessionId unlimited request) l = pure l := by
      intro l
      unfold AgentRuntime.proactiveCompaction
      split <;> rfl
    have hrun' : ((w.apply (.run (.updateRunStatus runId .buildingContext) none)).runs
        runId).isSome := by
      simpa [Action.onRuns] using hrun
    unfold AgentRuntime.pass AgentRuntime.consult AgentRuntime.buildingContext AgentRuntime.enter
    simp only [AgentRuntime.checkingPolicy, reduceCtorEq, if_false, true_or, or_true, if_true,
      wp_bind, wp_pure]
    apply wp_benign_updateStatus hrun
    rw [hproactive, wp_pure]
    exact ⟨_, rfl, rfl, hrun'⟩
  obtain ⟨r, w', hpass, l', rfl, hl', hrun'⟩ := exists_ok_of_wp hwp
  exact ⟨l', w', hpass, hl', hrun'⟩

/-- A loop resumed while building a context exhausts any number of passes. -/
theorem resumedLoop_exhausts {policy : RuntimePolicy} {s : Snapshot}
    (hs : s.currentState = .buildingContext) (record : RunRecord) (hrecord : record.id = s.runId)
    (fuel : Nat) : ∃ w', resumedLoop .benign (bare policy) unlimited s fuel (.ofRun record) =
      .error .outOfFuel w' := by
  obtain ⟨w', hw'⟩ := iterate_exhausted (ε := Stop)
    (fun (l : LoopState) (w : World) => l.resumeFrom = .buildingContext ∧ (w.runs s.runId).isSome)
    (fun _ _ ⟨hl, hrun⟩ => pass_rebuilds hl hrun) fuel (.ofSnapshot policy s) (.ofRun record)
    ⟨hs, by simp [World.ofRun, hrecord]⟩
  exact ⟨w', bind_error hw'⟩

/-- **A loop resumed from a saved snapshot ends within the budget, whatever its collaborators
do, unless the snapshot was taken while building a context**. -/
theorem terminates_iff {policy : RuntimePolicy} {s : Snapshot} (h : Saved policy s) :
    Terminates policy s ↔ s.currentState ≠ .buildingContext := by
  constructor
  · intro hterminates hs
    obtain ⟨w', hw'⟩ := resumedLoop_exhausts hs
      (.new s.runId s.sessionId s.request 0) rfl (policy.maxIterations + 1)
    exact hterminates .benign (bare policy) unlimited _ rfl _ w' hw'
  · exact terminates_of_savable h.savable

/-! ### A run that stops at its first model call -/

/-- The first snapshot that is saved in the state. -/
def savedIn (state : TurnState) (trace : List Action) : Option Snapshot :=
  trace.findSome? fun
    | .snapshot (.save s) none => if s.currentState = state then some s else none
    | _ => none

theorem saved_of_savedIn {host : Host} {rt : AgentRuntime} {fuel : Nat} {request : RunRequest}
    {w : World} {state : TurnState} {s : Snapshot} (hw : w.trace = [])
    (h : savedIn state (final (rt.run host fuel request w)).trace = some s) :
    Saved rt.policy s ∧ s.currentState = state := by
  obtain ⟨a, ha, hs⟩ := List.exists_of_findSome?_eq_some h
  have htrace : (final (rt.run host fuel request w)).trace =
      w.trace ++ (final (rt.run host fuel request w)).trace := by rw [hw, List.nil_append]
  split at hs
  · split at hs
    · next hstate =>
      cases hs
      exact ⟨.run rfl (ends_final _ w) htrace ha, hstate⟩
    · cases hs
  · cases hs

/-- A request in session 7. -/
def askPing : RunRequest where
  sessionId := some 7
  runId := some 1
  provider := "p"
  model := "m"
  input := "ping"
  metadata := .null
  toolChoice := .auto
  clientRequestId := none

/-- The states in which the run of an overloaded provider is saved. -/
theorem exists_saved_askPing (state : TurnState)
    (h : state = .checkingPolicy ∨ state = .buildingContext ∨ state = .callingModel) :
    ∃ s, Saved {} s ∧ s.currentState = state := by
  let rt := AgentRuntime.new ⟨[unlimited]⟩ ⟨[]⟩ {} true
  have hsome : (savedIn state
      (final (rt.run .benign 1 askPing (.ofSession 7 []))).trace).isSome = true := by
    rcases h with rfl | rfl | rfl <;> decide +kernel
  obtain ⟨s, hs⟩ := Option.isSome_iff_exists.mp hsome
  exact ⟨s, saved_of_savedIn rfl hs⟩

/-- The run of an overloaded provider saves a snapshot from which the loop never returns. -/
theorem askPing_never_returns :
    ∃ s, Saved {} s ∧ s.currentState = .buildingContext ∧ ∀ fuel, ∃ w',
      resumedLoop .benign (bare {}) unlimited s fuel
        (.ofRun (.new s.runId s.sessionId s.request 0)) = .error .outOfFuel w' := by
  obtain ⟨s, hsaved, hs⟩ := exists_saved_askPing .buildingContext (.inr (.inl rfl))
  exact ⟨s, hsaved, hs, fun fuel => resumedLoop_exhausts hs _ rfl fuel⟩

/-- The run saves a snapshot from which the loop does return. -/
theorem askPing_terminates :
    ∃ s, Saved {} s ∧ s.currentState = .callingModel ∧ Terminates {} s := by
  obtain ⟨s, hsaved, hs⟩ := exists_saved_askPing .callingModel (.inr (.inr rfl))
  exact ⟨s, hsaved, hs, (terminates_iff hsaved).mpr (by rw [hs]; nofun)⟩

end Behest
