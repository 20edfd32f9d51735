import Behest.RunStore.Memory

/-!
# The projection and the replay

The store answers `get_run_state` from a projection that it maintains beside the log, where
the trait folds the log. The two agree as long as no run is created over a log of its own
and every status that is set is the one the log announced last.
-/

namespace Behest

open Effect

namespace MemoryRunStore

/-- The calls that change the store. -/
inductive Write where
  | createRun (record : RunRecord)
  | appendEvent (record : RunEventRecord)
  | updateRunStatus (runId : Uuid) (status : RunStatus) (now : Nat)
  | deleteRun (runId : Uuid)

/-- The store after a call. -/
def write (s : MemoryRunStore) : Write → MemoryRunStore
  | .createRun record => ((createRun record).run s).2
  | .appendEvent record => ((appendEvent record).run s).2
  | .updateRunStatus runId status now => ((updateRunStatus runId status now).run s).2
  | .deleteRun runId => ((deleteRun runId).run s).2

/-- The store after some calls, one after the other. -/
def writes (s : MemoryRunStore) (calls : List Write) : MemoryRunStore := calls.foldl write s

/-- The store answers as the trait would, for every run. -/
def Replays (s : MemoryRunStore) : Prop :=
  ∀ runId, ((getRunState runId).run s).1 = ((replayRunState runId).run s).1

/-- The call keeps the projection at what the log says: a run is created before its first
event, and the status set for a run that exists is the one its log announced last. -/
def Faithful (s : MemoryRunStore) : Write → Prop
  | .createRun record => s.log record.id = []
  | .updateRunStatus runId status _ =>
      (s.runs.lookup runId).isSome → status = RunState.lastAnnounced (s.log runId)
  | .appendEvent _ | .deleteRun _ => True

/-- Every call of a sequence is faithful where it is made. -/
def AllFaithful (s : MemoryRunStore) : List Write → Prop
  | [] => True
  | call :: rest => s.Faithful call ∧ (s.write call).AllFaithful rest

/-- The state that the log of an existing run folds to. -/
def replayed (s : MemoryRunStore) (runId : Uuid) : Option RunState :=
  (s.runs.lookup runId).map fun record => .create record (s.log runId)

theorem replays_iff (s : MemoryRunStore) :
    s.Replays ↔ ∀ runId, s.projections.lookup runId = s.replayed runId := by
  apply forall_congr'
  intro runId
  have hleft : ((getRunState runId).run s).1 = s.projections.lookup runId := rfl
  have hright : ((replayRunState runId).run s).1 = s.replayed runId := by
    simp only [replayRunState, getRun, replayed, Method.run_bind, Method.run_holding,
      Method.run_look, Method.run_pure]
    cases s.runs.lookup runId with
    | none => rfl
    | some record => rfl
  rw [hleft, hright]

/-! ### One call -/

/-- A creation resets the projection, not the log. -/
theorem write_createRun (s : MemoryRunStore) (record : RunRecord) :
    s.write (.createRun record) =
      (s.putRun record).putProjection record.id (.create record []) := rfl

theorem replays_createRun {s : MemoryRunStore} (hs : s.Replays) (record : RunRecord) :
    (s.write (.createRun record)).Replays ↔ s.log record.id = [] := by
  rw [replays_iff] at hs ⊢
  rw [write_createRun]
  constructor
  · intro h
    have hself := h record.id
    simp only [replayed, projections_putProjection, AList.lookup_insert, runs_putProjection,
      runs_putRun, log_putProjection, log_putRun, Option.map_some, Option.some.injEq] at hself
    have hcount := congrArg RunState.eventCount hself
    simpa using hcount.symm
  · intro hnil runId
    by_cases hid : runId = record.id
    · subst hid
      simp [replayed, hnil]
    · simpa [replayed, AList.lookup_insert_ne hid] using hs runId

/-- The store with an event in its log, before the projection follows. -/
private def logged (s : MemoryRunStore) (record : RunEventRecord) : MemoryRunStore :=
  push { record with sequence := s.sequence } { s with sequence := s.sequence + 1 }

private theorem write_appendEvent (s : MemoryRunStore) (record : RunEventRecord) :
    s.write (.appendEvent record) =
      match s.projections.lookup record.runId, s.runs.lookup record.runId with
      | some state, _ => (s.logged record).putProjection record.runId
          { state.apply record.event with eventCount := (state.apply record.event).eventCount + 1 }
      | none, some run => (s.logged record).putProjection record.runId
          { (RunState.create run []).apply record.event with eventCount := 1 }
      | none, none => s.logged record := by
  simp only [write, appendEvent, projectAnew, Method.run_bind, Method.run_change,
    Method.run_look, Method.run_holding, projections_push]
  cases s.projections.lookup record.runId with
  | some state => rfl
  | none =>
    simp only [Method.run_bind, Method.run_holding, Method.run_look, runs_push]
    cases s.runs.lookup record.runId with
    | some run => rfl
    | none => rfl

theorem replays_appendEvent {s : MemoryRunStore} (hs : s.Replays) (record : RunEventRecord) :
    (s.write (.appendEvent record)).Replays := by
  rw [replays_iff] at hs ⊢
  intro runId
  have hself := hs record.runId
  have hruns : (s.logged record).runs = s.runs := rfl
  have hprojections : (s.logged record).projections = s.projections := rfl
  have hlog : (s.logged record).log record.runId =
      s.log record.runId ++ [{ record with sequence := s.sequence }] := log_push_self _ _
  have hother : runId ≠ record.runId → (s.logged record).log runId = s.log runId :=
    fun hid => log_push_of_ne _ hid
  rw [write_appendEvent]
  -- the projection of the run is there exactly when the run is
  cases hrun : s.runs.lookup record.runId with
  | none =>
    have hproj : s.projections.lookup record.runId = none := by
      rw [hself, replayed, hrun, Option.map_none]
    simp only [hproj]
    by_cases hid : runId = record.runId
    · rw [hid, hprojections, hproj, replayed, hruns, hrun, Option.map_none]
    · rw [hprojections, hs, replayed, replayed, hruns, hother hid]
  | some run =>
    have hproj : s.projections.lookup record.runId = some (.create run (s.log record.runId)) := by
      rw [hself, replayed, hrun, Option.map_some]
    simp only [hproj, replayed, projections_putProjection, runs_putProjection, log_putProjection,
      hruns, hprojections]
    by_cases hid : runId = record.runId
    · rw [hid, AList.lookup_insert, hrun, Option.map_some, hlog, RunState.create_append,
        RunState.eventCount_apply, RunState.create_eventCount]
    · rw [AList.lookup_insert_ne hid, hs, replayed, hother hid]

/-- A status for a run that does not exist changes nothing. -/
private theorem write_updateRunStatus_missing {s : MemoryRunStore} {runId : Uuid}
    (hrun : s.runs.lookup runId = none) (status : RunStatus) (now : Nat) :
    s.write (.updateRunStatus runId status now) = s := by
  have hset : setStatus runId status now s = s := by
    simp only [setStatus, hrun]
  simp only [write, updateRunStatus, Method.run_holding, Method.run_bind, Method.run_change, hset,
    hrun, Method.run_pure]

private theorem write_updateRunStatus_found {s : MemoryRunStore} {runId : Uuid} {record : RunRecord}
    {state : RunState} (hrun : s.runs.lookup runId = some record)
    (hproj : s.projections.lookup runId = some state) (status : RunStatus) (now : Nat) :
    s.write (.updateRunStatus runId status now) =
      putProjection runId { state with status := status } (setStatus runId status now s) := by
  have hkept : (setStatus runId status now s).projections = s.projections := by
    simp only [setStatus, hrun]
  simp only [write, updateRunStatus, Method.run_holding, Method.run_bind, Method.run_change,
    hrun, Method.run_look, hkept, hproj, Method.run_pure]

theorem replays_updateRunStatus {s : MemoryRunStore} (hs : s.Replays) (runId : Uuid)
    (status : RunStatus) (now : Nat) :
    (s.write (.updateRunStatus runId status now)).Replays ↔
      ((s.runs.lookup runId).isSome → status = RunState.lastAnnounced (s.log runId)) := by
  have hs' := (replays_iff s).mp hs
  cases hrun : s.runs.lookup runId with
  | none =>
    rw [write_updateRunStatus_missing hrun]
    simp [hs]
  | some record =>
    have hproj : s.projections.lookup runId = some (.create record (s.log runId)) := by
      rw [hs' runId, replayed, hrun, Option.map_some]
    have hset : setStatus runId status now s = { s with
        runs := s.runs.insert runId { record with status := status, updatedAt := now } } := by
      simp only [setStatus, hrun]
    rw [write_updateRunStatus_found hrun hproj, hset, replays_iff]
    have hlog : ∀ id, ({ s with runs := s.runs.insert runId { record with
        status := status, updatedAt := now } } : MemoryRunStore).log id = s.log id := fun _ => rfl
    simp only [replayed, projections_putProjection, runs_putProjection, log_putProjection, hlog,
      Option.isSome_some, forall_const]
    constructor
    · intro h
      have hself := h runId
      rw [AList.lookup_insert, AList.lookup_insert, Option.map_some, Option.some.injEq,
        RunState.create_update_status] at hself
      have hstatus := congrArg RunState.status hself
      rwa [RunState.status_create] at hstatus
    · intro hstatus other
      by_cases hid : other = runId
      · rw [hid, AList.lookup_insert, AList.lookup_insert, Option.map_some, Option.some.injEq,
          RunState.create_update_status, hstatus, ← RunState.status_create record]
        rfl
      · rw [AList.lookup_insert_ne hid, AList.lookup_insert_ne hid]
        exact hs' other

theorem replays_deleteRun {s : MemoryRunStore} (hs : s.Replays) (runId : Uuid) :
    (s.write (.deleteRun runId)).Replays := by
  rw [replays_iff] at hs ⊢
  intro other
  simp only [write, deleteRun, Method.run_bind, Method.run_holding, Method.run_change,
    Method.run_pure]
  by_cases hid : other = runId
  · subst hid
    simp [replayed]
  · simpa [replayed, log, AList.lookup_erase_ne hid] using hs other

/-- **A faithful call, and no other, keeps the store at its replay**. -/
theorem replays_write_iff {s : MemoryRunStore} (hs : s.Replays) (call : Write) :
    (s.write call).Replays ↔ s.Faithful call := by
  cases call with
  | createRun record => exact replays_createRun hs record
  | appendEvent record => simpa [Faithful] using replays_appendEvent hs record
  | updateRunStatus runId status now => exact replays_updateRunStatus hs runId status now
  | deleteRun runId => simpa [Faithful] using replays_deleteRun hs runId

/-! ### A sequence of calls -/

theorem replays_new : new.Replays := fun _ => rfl

private theorem replays_writes_iff {s : MemoryRunStore} (hs : s.Replays) (calls : List Write) :
    (∀ done, done <+: calls → (s.writes done).Replays) ↔ s.AllFaithful calls := by
  induction calls generalizing s with
  | nil =>
    constructor
    · intro _
      trivial
    · intro _ done hdone
      rw [List.prefix_nil.mp hdone]
      exact hs
  | cons call rest ih =>
    constructor
    · intro h
      have hcall : (s.write call).Replays := h [call] ⟨rest, rfl⟩
      refine ⟨(replays_write_iff hs call).mp hcall, (ih hcall).mp ?_⟩
      intro done hdone
      exact h (call :: done) ((List.prefix_cons_inj call).mpr hdone)
    · rintro ⟨hcall, hrest⟩ done hdone
      have hnext := (replays_write_iff hs call).mpr hcall
      rcases List.prefix_cons_iff.mp hdone with rfl | ⟨later, rfl, hlater⟩
      · exact hs
      · exact (ih hnext).mpr hrest later hlater

/-- **The store answers as its replay after every call of a sequence exactly when every call
is faithful where it is made**. -/
theorem projection_replays_iff (calls : List Write) :
    (∀ done, done <+: calls → (new.writes done).Replays) ↔ new.AllFaithful calls :=
  replays_writes_iff replays_new calls

/-- A run that is created and set to a status has that status in its projection; its empty log
folds to a pending run. -/
theorem projection_not_replayed :
    let record : RunRecord := ⟨1, 7, .pending, "p", "m", .null, none, 0, 0⟩
    let s := new.writes [.createRun record, .updateRunStatus 1 .callingModel 1]
    ((getRunState 1).run s).1.map RunState.status = some .callingModel ∧
      ((replayRunState 1).run s).1.map RunState.status = some .pending ∧ ¬ s.Replays := by
  intro record s
  have hprojected : ((getRunState 1).run s).1.map RunState.status = some .callingModel := by
    decide
  have hreplayed : ((replayRunState 1).run s).1.map RunState.status = some .pending := by
    decide
  refine ⟨hprojected, hreplayed, ?_⟩
  intro h
  rw [h 1, hreplayed] at hprojected
  cases hprojected

end MemoryRunStore

end Behest
