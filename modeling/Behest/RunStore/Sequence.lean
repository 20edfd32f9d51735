import Behest.Effect.Crowd
import Behest.RunStore.Deadlock

/-!
# The order of the event logs

`append_event` draws its sequence number from a counter before it takes the lock of the logs.
Where the calls of a run push in the order in which they have drawn, `list_events` returns
increasing numbers; nothing in the store makes them do so.
-/

namespace Behest

open Effect

namespace MemoryRunStore

/-- The number that a call of `append_event` on the run has drawn and not pushed: what its rest
would push to a new store without drawing. -/
def drawn (runId : Uuid) (c : StoreCall) : Option Nat :=
  match c.op with
  | .appendEvent record =>
      let s := (c.todo.run new).2
      if record.runId = runId ∧ s.sequence = 0 then
        (s.log runId).head?.map RunEventRecord.sequence
      else none
  | _ => none

/-- The numbers drawn on the run and not pushed. -/
def unpushed (runId : Uuid) (calls : List StoreCall) : List Nat := calls.filterMap (drawn runId)

/-- The run of a call of `append_event`. -/
def runOf (c : StoreCall) : Option Uuid :=
  match c.op with
  | .appendEvent record => some record.runId
  | _ => none

/-- A push is that of the smallest number its run has drawn and not pushed. -/
def inTurn (pool : StorePool) : Turn Op → Bool
  | .enter _ => true
  | .advance i =>
      match pool.calls[i]? with
      | none => true
      | some c =>
          match runOf c with
          | none => true
          | some runId =>
              match drawn runId c with
              | none => true
              | some n =>
                  !c.todo.isAccess || (unpushed runId pool.calls).all fun m => decide (n ≤ m)

/-- What a step of a call does to the log of a run: nothing or less, or the call draws, or it
pushes the number it has drawn. -/
inductive Moved (runId : Uuid) (c c' : StoreCall) (s s' : MemoryRunStore) : Prop
  | quiet (hdrawn : drawn runId c' = drawn runId c) (hseq : s.sequence ≤ s'.sequence)
      (hlog : s'.log runId = s.log runId ∨ s'.log runId = [])
  | draw (hnone : drawn runId c = none) (hdrawn : drawn runId c' = some s.sequence)
      (hseq : s'.sequence = s.sequence + 1) (hlog : s'.log runId = s.log runId)
  | push (record : RunEventRecord) (hrun : runOf c = some runId) (haccess : c.todo.isAccess = true)
      (hdrawn : drawn runId c = some record.sequence) (hnone : drawn runId c' = none)
      (hseq : s'.sequence = s.sequence) (hlog : s'.log runId = s.log runId ++ [record])

/-- Every step of a call at the position is one of these. -/
def Ranked (op : Op) (held : List (Lock × Mode)) (todo : StoreMethod Unit) : Prop :=
  ∀ runId s c' s', Call.step ⟨op, held, todo⟩ s = some (c', s') →
    Moved runId ⟨op, held, todo⟩ c' s s'

theorem drawn_eq_none {runId : Uuid} {c : StoreCall} (h : runOf c ≠ some runId) :
    drawn runId c = none := by
  unfold drawn
  unfold runOf at h
  split
  · next record hop =>
    rw [hop] at h
    exact if_neg fun hand => h (congrArg some hand.1)
  · rfl

namespace Ranked

variable {op : Op} {held : List (Lock × Mode)}

theorem done (a : Unit) : Ranked op held (.done a) := fun _ _ _ _ h => by cases h

theorem acquire {l : Lock} {mode : Mode} {next : StoreMethod Unit} :
    Ranked op held (.acquire l mode next) := by
  intro runId s c' s' h
  cases h
  exact .quiet rfl (Nat.le_refl _) (.inl rfl)

theorem release {l : Lock} {next : StoreMethod Unit} : Ranked op held (.release l next) := by
  intro runId s c' s' h
  cases h
  exact .quiet rfl (Nat.le_refl _) (.inl rfl)

/-- An access that leaves the counter alone and at most deletes logs, in a call that has nothing
to push before or after. -/
theorem access {f : MemoryRunStore → MemoryRunStore} {next : MemoryRunStore → StoreMethod Unit}
    (hbefore : ∀ runId, drawn runId ⟨op, held, .access f next⟩ = none)
    (hafter : ∀ runId s, drawn runId ⟨op, held, next s⟩ = none)
    (hseq : ∀ s, (f s).sequence = s.sequence)
    (hlog : ∀ s runId, (f s).log runId = s.log runId ∨ (f s).log runId = []) :
    Ranked op held (.access f next) := by
  intro runId s c' s' h
  cases h
  apply Moved.quiet
  · rw [hbefore, hafter]
  · rw [hseq]
  · exact hlog s runId

/-- The lock of a temporary guard, in a method that appends nothing. -/
theorem always_guarded (hop : ∀ record, op ≠ .appendEvent record) {l : Lock} {mode : Mode}
    {f : MemoryRunStore → MemoryRunStore} {next : MemoryRunStore → StoreMethod Unit}
    (hseq : ∀ s, (f s).sequence = s.sequence)
    (hlog : ∀ s runId, (f s).log runId = s.log runId ∨ (f s).log runId = [])
    (h : ∀ s held, (next s).Always (Ranked op) held) :
    (Method.acquire l mode (.access f fun s => .release l (next s))).Always (Ranked op) held := by
  have hnone : ∀ runId held todo, drawn runId ⟨op, held, todo⟩ = none := by
    intro runId held todo
    apply drawn_eq_none
    unfold runOf
    split
    · next record hrecord => exact absurd hrecord (hop record)
    · nofun
  exact ⟨acquire, access (fun _ => hnone _ _ _) (fun _ _ => hnone _ _ _) hseq hlog,
    fun s => ⟨release, h s _⟩⟩

end Ranked

open Ranked

@[simp] theorem sequence_setStatus (runId : Uuid) (status : RunStatus) (now : Nat)
    (s : MemoryRunStore) : (setStatus runId status now s).sequence = s.sequence := by
  unfold setStatus
  split <;> rfl

@[simp] theorem log_setStatus (id : Uuid) (status : RunStatus) (now : Nat) (s : MemoryRunStore)
    (runId : Uuid) : (setStatus id status now s).log runId = s.log runId := by
  unfold setStatus
  split <;> rfl

/-- The log of a run after another one's has been erased is what it was; its own is empty. -/
theorem log_erase (s : MemoryRunStore) (id runId : Uuid) :
    ({ s with events := s.events.erase id } : MemoryRunStore).log runId = s.log runId ∨
      ({ s with events := s.events.erase id } : MemoryRunStore).log runId = [] := by
  by_cases hid : runId = id
  · right
    subst hid
    show (AList.lookup runId (s.events.erase runId)).getD [] = []
    rw [AList.lookup_erase]
    rfl
  · left
    simp [log, AList.lookup_erase_ne hid]

/-- The methods that append nothing. -/
theorem always_ranked_simple {op : Op} (happend : ∀ record, op ≠ .appendEvent record) :
    (method op).Always (Ranked op) [] := by
  cases op with
  | appendEvent record => exact absurd rfl (happend record)
  | createRun record =>
    exact always_guarded happend (fun _ => rfl) (fun _ _ => .inl rfl) fun _ _ =>
      always_guarded happend (fun _ => rfl) (fun _ _ => .inl rfl) fun _ _ => done ()
  | deleteRun runId =>
    exact always_guarded happend (fun _ => rfl) (fun _ _ => .inl rfl) fun _ _ =>
      always_guarded happend (fun _ => rfl) (fun s id => log_erase s runId id) fun _ _ =>
        always_guarded happend (fun _ => rfl) (fun _ _ => .inl rfl) fun _ _ => done ()
  | updateRunStatus runId status now =>
    rw [method_updateRunStatus]
    refine ⟨acquire, access (fun _ => rfl) (fun _ _ => rfl) (fun s => sequence_setStatus ..)
      (fun s id => .inl (log_setStatus ..)), fun s => ?_⟩
    dsimp only
    cases s.runs.lookup runId with
    | none => exact ⟨release, done ()⟩
    | some record =>
      refine ⟨acquire, access (fun _ => rfl) (fun _ _ => rfl) (fun _ => rfl) (fun _ _ => .inl rfl),
        fun s' => ?_⟩
      dsimp only
      cases s'.projections.lookup runId with
      | none => exact ⟨release, release, done ()⟩
      | some state =>
        exact ⟨access (fun _ => rfl) (fun _ _ => rfl) (fun _ => rfl) (fun _ _ => .inl rfl),
          fun _ => ⟨release, release, done ()⟩⟩
  | getRun _ | getRunState _ | listEvents _ | listRuns _ =>
    exact always_guarded happend (fun _ => rfl) (fun _ _ => .inl rfl) fun _ _ => done ()

/-- A call of `append_event` whose rest pushes nothing has nothing to push. -/
theorem drawn_of_log {runId : Uuid} {c : StoreCall} (h : ((c.todo.run new).2).log runId = []) :
    drawn runId c = none := by
  unfold drawn
  split
  · dsimp only
    rw [h]
    exact ite_self _
  · rfl

/-- The part of `append_event` after the push. -/
theorem always_ranked_project (record : RunEventRecord) (held : List (Lock × Mode)) :
    (Method.access id fun s : MemoryRunStore =>
      match s.projections.lookup record.runId with
      | some state =>
          .access (putProjection record.runId { state.apply record.event with
              eventCount := (state.apply record.event).eventCount + 1 })
            fun _ => .release .projections (.release .events (.done ()))
      | none => .acquire .runs .shared (.access id fun s =>
          match s.runs.lookup record.runId with
          | some run =>
              .access (putProjection record.runId { (RunState.create run []).apply
                  record.event with eventCount := 1 })
                fun _ => .release .runs (.release .projections (.release .events (.done ())))
          | none => .release .runs (.release .projections (.release .events (.done ()))))
        : StoreMethod Unit).Always (Ranked (.appendEvent record)) held := by
  refine ⟨access ?_ ?_ (fun _ => rfl) (fun _ _ => .inl rfl), fun s => ?_⟩
  · exact fun runId => drawn_of_log rfl
  · intro runId s
    apply drawn_of_log
    dsimp only
    cases s.projections.lookup record.runId with
    | some state => rfl
    | none => rfl
  · dsimp only
    cases s.projections.lookup record.runId with
    | some state =>
      exact ⟨access (fun _ => drawn_of_log rfl) (fun _ _ => drawn_of_log rfl) (fun _ => rfl)
        (fun _ _ => .inl rfl), fun _ => ⟨release, release, done ()⟩⟩
    | none =>
      refine ⟨acquire, access (fun _ => drawn_of_log rfl) ?_ (fun _ => rfl) (fun _ _ => .inl rfl),
        fun s' => ?_⟩
      · intro runId s'
        apply drawn_of_log
        dsimp only
        cases s'.runs.lookup record.runId with
        | some run => rfl
        | none => rfl
      · dsimp only
        cases s'.runs.lookup record.runId with
        | none => exact ⟨release, release, release, done ()⟩
        | some run =>
          exact ⟨access (fun _ => drawn_of_log rfl) (fun _ _ => drawn_of_log rfl) (fun _ => rfl)
            (fun _ _ => .inl rfl), fun _ => ⟨release, release, release, done ()⟩⟩

theorem drawn_of_ne {record : RunEventRecord} {runId : Uuid} (h : record.runId ≠ runId)
    {held : List (Lock × Mode)} {todo : StoreMethod Unit} :
    drawn runId ⟨.appendEvent record, held, todo⟩ = none :=
  drawn_eq_none fun hrun => h (Option.some.inj hrun)

/-- A call that begins has not drawn. -/
theorem drawn_enter (runId : Uuid) (op : Op) : drawn runId ⟨op, [], method op⟩ = none := by
  cases op with
  | appendEvent record => exact if_neg fun hand => absurd hand.2 Nat.one_ne_zero
  | _ => rfl

/-- Between the draw and the push. -/
theorem drawn_of_push {record : RunEventRecord} {held : List (Lock × Mode)}
    {todo : StoreMethod Unit} {n : Nat}
    (hrun : (todo.run new).2 = new.push { record with sequence := n }) :
    drawn record.runId ⟨.appendEvent record, held, todo⟩ = some n := by
  show (if record.runId = record.runId ∧ (todo.run new).2.sequence = 0 then
    (((todo.run new).2.log record.runId).head?).map RunEventRecord.sequence else none) = _
  have hlog := log_push_self new { record with sequence := n }
  dsimp only at hlog
  rw [hrun, if_pos ⟨rfl, rfl⟩, hlog]
  rfl

/-- An `append_event` draws its number, waits for its locks and pushes. -/
theorem always_ranked_append (record : RunEventRecord) :
    (method (.appendEvent record)).Always (Ranked (.appendEvent record)) [] := by
  rw [method_appendEvent]
  refine ⟨?_, fun before => ⟨acquire, acquire, ?_, fun _ => always_ranked_project record _⟩⟩
  · intro runId s c' s' h
    cases h
    by_cases hrun : record.runId = runId
    · subst hrun
      apply Moved.draw
      · exact drawn_enter record.runId (.appendEvent record)
      · exact drawn_of_push rfl
      · rfl
      · rfl
    · apply Moved.quiet
      · rw [drawn_of_ne hrun, drawn_of_ne hrun]
      · exact Nat.le_succ _
      · exact .inl rfl
  · intro runId s c' s' h
    cases h
    by_cases hrun : record.runId = runId
    · subst hrun
      apply Moved.push { record with sequence := before.sequence }
      · rfl
      · rfl
      · exact drawn_of_push rfl
      · exact drawn_of_log rfl
      · rfl
      · exact log_push_self s { record with sequence := before.sequence }
    · apply Moved.quiet
      · rw [drawn_of_ne hrun, drawn_of_ne hrun]
      · exact Nat.le_refl _
      · exact .inl (log_push_of_ne s fun h => hrun h.symm)

theorem always_ranked (op : Op) : (method op).Always (Ranked op) [] := by
  cases op with
  | appendEvent record => exact always_ranked_append record
  | _ => exact always_ranked_simple nofun

/-- The log of a run is in order, below all the numbers still to be pushed, and these are
different and below the counter. -/
structure Sequenced (runId : Uuid) (pool : StorePool) : Prop where
  ordered : ((pool.state.log runId).map RunEventRecord.sequence).Pairwise (· < ·)
  below : ∀ e ∈ pool.state.log runId, ∀ n ∈ unpushed runId pool.calls, e.sequence < n
  counted : ∀ e ∈ pool.state.log runId, e.sequence < pool.state.sequence
  drawn : ∀ n ∈ unpushed runId pool.calls, n < pool.state.sequence
  distinct : (unpushed runId pool.calls).Nodup

variable {runId : Uuid} {p : StorePool} {i : Nat} {c c' : StoreCall} {s' : MemoryRunStore}

theorem Sequenced.quiet (h : Sequenced runId p) {calls : List StoreCall}
    (hcalls : unpushed runId calls = unpushed runId p.calls)
    (hseq : p.state.sequence ≤ s'.sequence)
    (hlog : s'.log runId = p.state.log runId ∨ s'.log runId = []) :
    Sequenced runId ⟨calls, s'⟩ := by
  have hmem : ∀ e ∈ s'.log runId, e ∈ p.state.log runId := by
    intro e he
    rcases hlog with hlog | hlog
    · rwa [hlog] at he
    · rw [hlog] at he
      exact absurd he List.not_mem_nil
  constructor
  · show ((s'.log runId).map RunEventRecord.sequence).Pairwise (· < ·)
    rcases hlog with hlog | hlog
    · rw [hlog]
      exact h.ordered
    · rw [hlog]
      exact .nil
  · intro e he n hn
    exact h.below e (hmem e he) n (hcalls ▸ hn)
  · intro e he
    exact Nat.lt_of_lt_of_le (h.counted e (hmem e he)) hseq
  · intro n hn
    exact Nat.lt_of_lt_of_le (h.drawn n (hcalls ▸ hn)) hseq
  · exact hcalls ▸ h.distinct

/-- The number that is drawn is above all others. -/
theorem Sequenced.draw (h : Sequenced runId p) (hi : p.calls[i]? = some c)
    (hnone : MemoryRunStore.drawn runId c = none)
    (hdrawn : MemoryRunStore.drawn runId c' = some p.state.sequence)
    (hseq : s'.sequence = p.state.sequence + 1) (hlog : s'.log runId = p.state.log runId) :
    Sequenced runId ⟨p.calls.set i c', s'⟩ := by
  have hperm : (unpushed runId (p.calls.set i c')).Perm
      (p.state.sequence :: unpushed runId p.calls) := filterMap_set_perm_cons hi hnone hdrawn
  constructor
  · show ((s'.log runId).map RunEventRecord.sequence).Pairwise (· < ·)
    rw [hlog]
    exact h.ordered
  · intro e he n hn
    rw [hlog] at he
    rcases List.mem_cons.mp (hperm.mem_iff.mp hn) with rfl | hn
    · exact h.counted e he
    · exact h.below e he n hn
  · intro e he
    rw [hlog] at he
    have hlt := h.counted e he
    show e.sequence < s'.sequence
    omega
  · intro n hn
    show n < s'.sequence
    rcases List.mem_cons.mp (hperm.mem_iff.mp hn) with rfl | hn
    · omega
    · have hlt := h.drawn n hn
      omega
  · rw [hperm.nodup_iff, List.nodup_cons]
    exact ⟨fun hmem => Nat.lt_irrefl _ (h.drawn _ hmem), h.distinct⟩

/-- The push of the smallest number. -/
theorem Sequenced.push (h : Sequenced runId p) (hi : p.calls[i]? = some c)
    {record : RunEventRecord} (hdrawn : MemoryRunStore.drawn runId c = some record.sequence)
    (hnone : MemoryRunStore.drawn runId c' = none) (hseq : s'.sequence = p.state.sequence)
    (hlog : s'.log runId = p.state.log runId ++ [record])
    (hleast : ∀ m ∈ unpushed runId p.calls, record.sequence ≤ m) :
    Sequenced runId ⟨p.calls.set i c', s'⟩ := by
  have hperm : (unpushed runId p.calls).Perm
      (record.sequence :: unpushed runId (p.calls.set i c')) :=
    perm_cons_filterMap_set hi hdrawn hnone
  have hnodup := List.nodup_cons.mp (hperm.nodup_iff.mp h.distinct)
  have hmem : record.sequence ∈ unpushed runId p.calls :=
    hperm.mem_iff.mpr List.mem_cons_self
  have hold : ∀ n ∈ unpushed runId (p.calls.set i c'), n ∈ unpushed runId p.calls :=
    fun n hn => hperm.mem_iff.mpr (List.mem_cons_of_mem _ hn)
  constructor
  · show ((s'.log runId).map RunEventRecord.sequence).Pairwise (· < ·)
    rw [hlog, List.map_append, List.map_singleton, List.pairwise_append]
    refine ⟨h.ordered, List.pairwise_singleton _ _, ?_⟩
    intro a ha b hb
    obtain ⟨e, he, rfl⟩ := List.mem_map.mp ha
    rw [List.mem_singleton.mp hb]
    exact h.below e he _ hmem
  · intro e he n hn
    rw [hlog] at he
    rcases List.mem_append.mp he with he | he
    · exact h.below e he n (hold n hn)
    · rw [List.mem_singleton.mp he]
      apply Nat.lt_of_le_of_ne (hleast n (hold n hn))
      intro heq
      exact hnodup.1 (heq ▸ hn)
  · intro e he
    rw [hlog] at he
    show e.sequence < s'.sequence
    rw [hseq]
    rcases List.mem_append.mp he with he | he
    · exact h.counted e he
    · rw [List.mem_singleton.mp he]
      exact h.drawn _ hmem
  · intro n hn
    show n < s'.sequence
    rw [hseq]
    exact h.drawn n (hold n hn)
  · exact hnodup.2

/-- A turn in which a push, if it is one, is in turn. -/
theorem Sequenced.step {t : Turn Op} {q : StorePool} (h : Sequenced runId p)
    (hranked : ∀ c ∈ p.calls, c.todo.Always (Ranked c.op) c.held) (ht : inTurn p t = true)
    (hstep : p.step method t = some q) : Sequenced runId q := by
  rcases Pool.step_cases hstep with ⟨op, rfl, rfl⟩ | ⟨i, c, c', s', rfl, hi, _, hmove, rfl⟩
  · apply h.quiet
    · show (p.calls ++ [_]).filterMap _ = _
      rw [List.filterMap_append, List.filterMap_cons_none (drawn_enter runId op),
        List.filterMap_nil, List.append_nil]
      rfl
    · exact Nat.le_refl _
    · exact .inl rfl
  · cases (hranked c (List.mem_of_getElem? hi)).here runId p.state c' s' hmove with
    | quiet hdrawn hseq hlog => exact h.quiet (filterMap_set_eq hi hdrawn) hseq hlog
    | draw hnone hdrawn hseq hlog => exact h.draw hi hnone hdrawn hseq hlog
    | push record hrun haccess hdrawn hnone hseq hlog =>
      apply h.push hi hdrawn hnone hseq hlog
      simp only [inTurn, hi, hrun, hdrawn, haccess, Bool.not_true, Bool.false_or, List.all_eq_true,
        decide_eq_true_eq] at ht
      exact ht

theorem sequenced_new (runId : Uuid) : Sequenced runId ⟨[], new⟩ where
  ordered := .nil
  below _ he := absurd he List.not_mem_nil
  counted _ he := absurd he List.not_mem_nil
  drawn _ hn := absurd hn List.not_mem_nil
  distinct := .nil

/-- **The events that `list_events` returns are in the order of their numbers**, whatever calls
are under way, where the calls of a run push in the order in which they have drawn. -/
theorem listEvents_ordered (pool : StorePool)
    (h : Pool.Leads method (fun p t => inTurn p t = true) ⟨[], new⟩ pool) (runId : Uuid) :
    (((listEvents runId).run pool.state).1.map RunEventRecord.sequence).Pairwise (· < ·) := by
  have hboth : (∀ c ∈ pool.calls, c.todo.Always (Ranked c.op) c.held) ∧ Sequenced runId pool := by
    apply h.invariant (fun p => (∀ c ∈ p.calls, c.todo.Always (Ranked c.op) c.held) ∧
      Sequenced runId p)
    · exact ⟨fun _ hc => absurd hc List.not_mem_nil, sequenced_new runId⟩
    · intro p t q ⟨hranked, hp⟩ ht hstep
      exact ⟨Pool.always_step always_ranked hranked hstep, hp.step hranked ht hstep⟩
  exact hboth.2.ordered

/-- Two events of one run. -/
def twoEvents : List (Turn Op) :=
  [.enter (.appendEvent ⟨0, 1, .runStarted 1 7 "p" "m"⟩),
    .enter (.appendEvent ⟨0, 1, .textDelta 1 "a"⟩)]

/-- Both draw before the first takes the locks; it gives them back and the second pushes. -/
theorem twoEvents_ordered :
    ∃ pool, Pool.stepsWhile method (fun p t => inTurn p t = true) ⟨[], new⟩ (twoEvents ++
        [.advance 0, .advance 1] ++ List.replicate 9 (.advance 0) ++
        List.replicate 3 (.advance 1)) = some pool ∧
      (((listEvents 1).run pool.state).1).length = 2 ∧
      (((listEvents 1).run pool.state).1.map RunEventRecord.sequence).Pairwise (· < ·) := by
  have hruns : (Pool.stepsWhile method (fun p t => inTurn p t = true) ⟨[], new⟩ (twoEvents ++
      [.advance 0, .advance 1] ++ List.replicate 9 (.advance 0) ++
      List.replicate 3 (.advance 1))).any
        (fun pool => (((listEvents 1).run pool.state).1).length == 2) = true := by decide +kernel
  obtain ⟨pool, hpool, hlength⟩ := (Option.any_eq_true _ _).mp hruns
  exact ⟨pool, hpool, beq_iff_eq.mp hlength,
    listEvents_ordered pool (Pool.leads_of_stepsWhile hpool) 1⟩

/-- The second takes the locks first. -/
theorem twoEvents_disordered :
    ∃ pool, Pool.steps method ⟨[], new⟩ (twoEvents ++
        [.advance 0, .advance 1] ++ List.replicate 9 (.advance 1) ++
        List.replicate 9 (.advance 0)) = some pool ∧
      ((listEvents 1).run pool.state).1.map RunEventRecord.sequence = [1, 0] := by
  have hruns : (Pool.steps method ⟨[], new⟩ (twoEvents ++
      [.advance 0, .advance 1] ++ List.replicate 9 (.advance 1) ++
      List.replicate 9 (.advance 0))).any (fun pool =>
        ((listEvents 1).run pool.state).1.map RunEventRecord.sequence == [1, 0]) = true := by
    decide +kernel
  obtain ⟨pool, hpool, hlog⟩ := (Option.any_eq_true _ _).mp hruns
  exact ⟨pool, hpool, beq_iff_eq.mp hlog⟩

end MemoryRunStore

end Behest
