import Behest.RunStore.Memory

/-!
# Deadlocks of the run store

Two methods take a lock while they hold another: `append_event` holds the logs and the
projections when a run without a projection makes it read the runs, and `update_run_status`
holds the runs when it takes the projections. Where one call of each kind gets there, the
two wait for each other; nowhere else do calls of the store deadlock.
-/

namespace Behest

open Effect

namespace MemoryRunStore

/-- A call of the store. -/
inductive Op where
  | createRun (record : RunRecord)
  | getRun (runId : Uuid)
  | getRunState (runId : Uuid)
  | updateRunStatus (runId : Uuid) (status : RunStatus) (now : Nat)
  | appendEvent (record : RunEventRecord)
  | listEvents (runId : Uuid)
  | listRuns (sessionId : Uuid)
  | deleteRun (runId : Uuid)

/-- The method of a call. -/
def method : Op → StoreMethod Unit
  | .createRun record => (createRun record).forget
  | .getRun runId => (getRun runId).forget
  | .getRunState runId => (getRunState runId).forget
  | .updateRunStatus runId status now => (updateRunStatus runId status now).forget
  | .appendEvent record => (appendEvent record).forget
  | .listEvents runId => (listEvents runId).forget
  | .listRuns sessionId => (listRuns sessionId).forget
  | .deleteRun runId => (deleteRun runId).forget

abbrev StoreCall := Call Lock MemoryRunStore Op
abbrev StorePool := Pool Lock MemoryRunStore Op

/-- The locks a call of `append_event` holds while it works on the maps. -/
def appending : List (Lock × Mode) := [(.projections, .exclusive), (.events, .exclusive)]

/-- The lock a call of `update_run_status` holds while it works on the runs. -/
def updating : List (Lock × Mode) := [(.runs, .exclusive)]

/-- The call holds the projections and is about to read the runs. -/
def backtracks (c : StoreCall) : Bool :=
  c.held == appending && c.todo.wants == some (.runs, .shared)

/-- The call holds the runs and is about to take the projections. -/
def straddles (c : StoreCall) : Bool :=
  c.held == updating && c.todo.wants == some (.projections, .exclusive)

/-- The call is an `append_event` at its maps, and its run has no projection. -/
def misses (s : MemoryRunStore) (c : StoreCall) : Bool :=
  match c.op with
  | .appendEvent record =>
      c.held == appending && c.todo.isAccess && (s.projections.lookup record.runId).isNone
  | _ => false

/-- The call is an `update_run_status` at the runs, and its run exists. -/
def finds (s : MemoryRunStore) (c : StoreCall) : Bool :=
  match c.op with
  | .updateRunStatus runId _ _ =>
      c.held == updating && c.todo.isAccess && (s.runs.lookup runId).isSome
  | _ => false

/-- The turn belongs to an `append_event` that finds no projection while an
`update_run_status` stands between its two locks, or the other way round. -/
def collides (pool : StorePool) : Turn Op → Bool
  | .enter _ => false
  | .advance i =>
      match pool.calls[i]? with
      | some c => (misses pool.state c && pool.calls.any straddles) ||
          (finds pool.state c && pool.calls.any backtracks)
      | none => false

/-! ### Positions -/

/-- What is true of a call at each position of its method: it asks for a further lock only in
the three ways named, and it comes to the two crossing ones only by what it finds. -/
structure Position (op : Op) (held : List (Lock × Mode)) (todo : StoreMethod Unit) : Prop where
  nested : ∀ want, todo.wants = some want → held = [] ∨
    (held = [(.events, .exclusive)] ∧ want.1 = .projections) ∨
    backtracks ⟨op, held, todo⟩ = true ∨ straddles ⟨op, held, todo⟩ = true
  backtracks : ∀ s c s', Call.step ⟨op, held, todo⟩ s = some (c, s') → backtracks c = true →
    misses s ⟨op, held, todo⟩ = true
  straddles : ∀ s c s', Call.step ⟨op, held, todo⟩ s = some (c, s') → straddles c = true →
    finds s ⟨op, held, todo⟩ = true

namespace Position

variable {op : Op} {held : List (Lock × Mode)}

theorem done (a : Unit) : Position op held (.done a) where
  nested _ h := by cases h
  backtracks _ _ _ h := by cases h
  straddles _ _ _ h := by cases h

theorem access {f : MemoryRunStore → MemoryRunStore} {next : MemoryRunStore → StoreMethod Unit}
    (hnext : held = [] ∨ ∀ s, (next s).wants = none) : Position op held (.access f next) where
  nested _ h := by cases h
  backtracks s _ _ h hc := by
    cases h
    rcases hnext with rfl | hnext
    · simp [MemoryRunStore.backtracks, appending] at hc
    · simp [MemoryRunStore.backtracks, hnext] at hc
  straddles s _ _ h hc := by
    cases h
    rcases hnext with rfl | hnext
    · simp [MemoryRunStore.straddles, updating] at hc
    · simp [MemoryRunStore.straddles, hnext] at hc

theorem release {l : Lock} {next : StoreMethod Unit}
    (hnext : next.wants = none ∨ held.filter (fun h => h.1 != l) = []) :
    Position op held (.release l next) where
  nested _ h := by cases h
  backtracks s _ _ h hc := by
    cases h
    rcases hnext with hnext | hnext <;> simp [MemoryRunStore.backtracks, hnext, appending] at hc
  straddles s _ _ h hc := by
    cases h
    rcases hnext with hnext | hnext <;> simp [MemoryRunStore.straddles, hnext, updating] at hc

/-- A lock taken where it may be taken, with work to do under it. -/
theorem acquire {l : Lock} {mode : Mode} {next : StoreMethod Unit}
    (hheld : ∀ want, (Method.acquire l mode next).wants = some want → held = [] ∨
      (held = [(.events, .exclusive)] ∧ want.1 = .projections) ∨
      MemoryRunStore.backtracks ⟨op, held, .acquire l mode next⟩ = true ∨
      MemoryRunStore.straddles ⟨op, held, .acquire l mode next⟩ = true)
    (hnext : next.wants = none) : Position op held (.acquire l mode next) where
  nested := hheld
  backtracks s _ _ h hc := by
    cases h
    simp [MemoryRunStore.backtracks, hnext] at hc
  straddles s _ _ h hc := by
    cases h
    simp [MemoryRunStore.straddles, hnext] at hc

/-- A first lock, with work to do under it. -/
theorem first {l : Lock} {mode : Mode} {next : StoreMethod Unit} (hnext : next.wants = none) :
    Position op [] (.acquire l mode next) :=
  acquire (fun _ _ => .inl rfl) hnext

/-- The lock of a temporary guard, taken and given back around one access. -/
theorem always_guarded {l : Lock} {mode : Mode} {f : MemoryRunStore → MemoryRunStore}
    {next : MemoryRunStore → StoreMethod Unit} (h : ∀ s, (next s).Always (Position op) []) :
    (Method.acquire l mode (.access f fun s => .release l (next s))).Always (Position op) [] := by
  have hfree : ([(l, mode)] : List (Lock × Mode)).filter (fun h => h.1 != l) = [] := by simp
  refine ⟨first rfl, access (.inr fun _ => rfl), fun s => ⟨release (.inr hfree), ?_⟩⟩
  rw [hfree]
  exact h s

end Position

open Position

/-- The methods that hold one lock at a time. -/
theorem always_position_simple {op : Op} (happend : ∀ record, op ≠ .appendEvent record)
    (hupdate : ∀ runId status now, op ≠ .updateRunStatus runId status now) :
    (method op).Always (Position op) [] := by
  cases op with
  | appendEvent record => exact absurd rfl (happend record)
  | updateRunStatus runId status now => exact absurd rfl (hupdate runId status now)
  | createRun record =>
    exact always_guarded fun _ => always_guarded fun _ => done ()
  | deleteRun runId =>
    exact always_guarded fun _ => always_guarded fun _ => always_guarded fun _ => done ()
  | getRun _ | getRunState _ | listEvents _ | listRuns _ => exact always_guarded fun _ => done ()

/-- What `update_run_status` does between its first lock and its last release. -/
theorem method_updateRunStatus (runId : Uuid) (status : RunStatus) (now : Nat) :
    method (.updateRunStatus runId status now) =
      .acquire .runs .exclusive (.access (setStatus runId status now) fun s =>
        match s.runs.lookup runId with
        | none => .release .runs (.done ())
        | some _ => .acquire .projections .exclusive (.access id fun s =>
            match s.projections.lookup runId with
            | some state => .access (putProjection runId { state with status := status })
                fun _ => .release .projections (.release .runs (.done ()))
            | none => .release .projections (.release .runs (.done ())))) := by
  show Method.acquire _ _ (.access _ _) = _
  congr 2
  ext1 s
  simp only [Method.andThen]
  cases s.runs.lookup runId with
  | none => rfl
  | some record =>
    show Method.acquire _ _ (.access id _) = _
    congr 2
    ext1 s'
    simp only [Method.andThen]
    cases s'.projections.lookup runId with
    | none => rfl
    | some state => rfl

theorem always_position_update (runId : Uuid) (status : RunStatus) (now : Nat) :
    (method (.updateRunStatus runId status now)).Always
      (Position (.updateRunStatus runId status now)) [] := by
  rw [method_updateRunStatus]
  refine ⟨first rfl, ?_, ?_⟩
  · -- the runs are held; the projections are asked for when the run is there
    constructor
    · intro _ h
      cases h
    · intro s _ _ h hc
      cases h
      simp [MemoryRunStore.backtracks, appending] at hc
    · intro s _ _ h hc
      cases h
      cases hrun : s.runs.lookup runId with
      | none => simp [MemoryRunStore.straddles, hrun, Method.wants] at hc
      | some record => simp [finds, updating, Method.isAccess, hrun]
  · intro s
    dsimp only
    cases s.runs.lookup runId with
    | none => exact ⟨release (.inl rfl), done ()⟩
    | some record =>
      refine ⟨acquire (fun _ h => .inr (.inr (.inr rfl))) rfl, access (.inr ?_), ?_⟩
      · intro s'
        cases s'.projections.lookup runId with
        | none => rfl
        | some state => rfl
      · intro s'
        dsimp only
        cases s'.projections.lookup runId with
        | none => exact ⟨release (.inl rfl), release (.inl rfl), done ()⟩
        | some state =>
          exact ⟨access (.inr fun _ => rfl),
            fun _ => ⟨release (.inl rfl), release (.inl rfl), done ()⟩⟩

/-- What `append_event` does between its first lock and its last release. -/
theorem method_appendEvent (record : RunEventRecord) :
    method (.appendEvent record) =
      .access (fun s => { s with sequence := s.sequence + 1 }) fun before =>
        .acquire .events .exclusive (.acquire .projections .exclusive
          (.access (push { record with sequence := before.sequence }) fun _ =>
            .access id fun s =>
              match s.projections.lookup record.runId with
              | some state =>
                  .access (putProjection record.runId { state.apply record.event with
                      eventCount := (state.apply record.event).eventCount + 1 })
                    fun _ => .release .projections (.release .events (.done ()))
              | none => .acquire .runs .shared (.access id fun s =>
                  match s.runs.lookup record.runId with
                  | some run =>
                      .access (putProjection record.runId { (RunState.create run []).apply
                          record.event with eventCount := 1 })
                        fun _ => .release .runs
                          (.release .projections (.release .events (.done ())))
                  | none => .release .runs
                      (.release .projections (.release .events (.done ())))))) := by
  show Method.access _ (fun before => Method.acquire _ _ (.acquire _ _
    (.access _ fun _ => .access id _))) = _
  congr 1
  ext1 before
  congr 3
  ext1 _
  congr 1
  ext1 s
  simp only [Method.andThen]
  cases s.projections.lookup record.runId with
  | some state => rfl
  | none =>
    show Method.acquire _ _ (.access id _) = _
    congr 2
    ext1 s'
    simp only [Method.andThen]
    cases s'.runs.lookup record.runId with
    | some run => rfl
    | none => rfl

theorem always_position_append (record : RunEventRecord) :
    (method (.appendEvent record)).Always (Position (.appendEvent record)) [] := by
  rw [method_appendEvent]
  refine ⟨access (.inl rfl), fun before =>
    ⟨?_, ?_, access (.inr fun _ => rfl), fun _ => ⟨?_, ?_⟩⟩⟩
  · -- the logs are taken, and the projections right after them
    constructor
    · exact fun _ _ => .inl rfl
    · intro s _ _ h hc
      cases h
      simp [MemoryRunStore.backtracks, appending] at hc
    · intro s _ _ h hc
      cases h
      simp [MemoryRunStore.straddles, updating] at hc
  · apply acquire _ rfl
    intro want h
    cases h
    exact .inr (.inl ⟨rfl, rfl⟩)
  · -- the runs are asked for when there is no projection
    constructor
    · intro _ h
      cases h
    · intro s _ _ h hc
      cases h
      cases hproj : s.projections.lookup record.runId with
      | none => simp [misses, appending, Method.isAccess, hproj]
      | some state => simp [MemoryRunStore.backtracks, hproj, Method.wants] at hc
    · intro s _ _ h hc
      cases h
      simp [MemoryRunStore.straddles, updating] at hc
  · intro s
    dsimp only
    cases s.projections.lookup record.runId with
    | some state =>
      exact ⟨access (.inr fun _ => rfl), fun _ => ⟨release (.inl rfl), release (.inl rfl), done ()⟩⟩
    | none =>
      refine ⟨acquire (fun _ h => .inr (.inr (.inl rfl))) rfl, access (.inr ?_), ?_⟩
      · intro s'
        cases s'.runs.lookup record.runId with
        | none => rfl
        | some run => rfl
      · intro s'
        dsimp only
        cases s'.runs.lookup record.runId with
        | none =>
          exact ⟨release (.inl rfl), release (.inl rfl), release (.inl rfl), done ()⟩
        | some run =>
          exact ⟨access (.inr fun _ => rfl),
            fun _ => ⟨release (.inl rfl), release (.inl rfl), release (.inl rfl), done ()⟩⟩

theorem always_position (op : Op) : (method op).Always (Position op) [] := by
  cases op with
  | updateRunStatus runId status now => exact always_position_update runId status now
  | appendEvent record => exact always_position_append record
  | _ => exact always_position_simple nofun nofun

/-! ### Pools -/

/-- Calls of the two kinds are about to take a second lock. -/
def Crossed (pool : StorePool) : Prop :=
  (∃ c ∈ pool.calls, backtracks c = true) ∧ ∃ c ∈ pool.calls, straddles c = true

/-- Every call is at a position of its method. -/
def Placed (pool : StorePool) : Prop :=
  ∀ c ∈ pool.calls, c.todo.Always (Position c.op) c.held

theorem Placed.nested {pool : StorePool} (h : Placed pool) {c : StoreCall} (hc : c ∈ pool.calls)
    {want : Lock × Mode} (hwant : c.todo.wants = some want) {l : Lock} (hl : c.holds l = true) :
    (l = .events ∧ want.1 = .projections) ∨
      (backtracks c = true ∧ l ≠ .runs ∧ want.1 = .runs) ∨
      (straddles c = true ∧ l = .runs ∧ want.1 = .projections) := by
  rcases (h c hc).here.nested want hwant with hheld | ⟨hheld, hlock⟩ | hback | hstraddle
  · simp [Call.holds, hheld] at hl
  · have heq : Lock.events = l := by simpa [Call.holds, hheld] using hl
    exact .inl ⟨heq.symm, hlock⟩
  · refine .inr (.inl ⟨hback, ?_, ?_⟩)
    all_goals
      simp only [backtracks, Bool.and_eq_true, beq_iff_eq, hwant, Option.some.injEq] at hback
    · rintro rfl
      simp [Call.holds, hback.1, appending] at hl
    · rw [hback.2]
  · refine .inr (.inr ⟨hstraddle, ?_, ?_⟩)
    all_goals
      simp only [straddles, Bool.and_eq_true, beq_iff_eq, hwant, Option.some.injEq] at hstraddle
    · have heq : Lock.runs = l := by simpa [Call.holds, hstraddle.1, updating] using hl
      exact heq.symm
    · rw [hstraddle.2]

/-- While no `update_run_status` stands between its locks. -/
def appendRank : Lock → Nat
  | .events => 0
  | .projections => 1
  | .runs => 2

/-- While no `append_event` is about to read the runs. -/
def updateRank : Lock → Nat
  | .events => 0
  | .runs => 1
  | .projections => 2

/-- Only calls that cross deadlock. -/
theorem crossed_of_deadlocked {pool : StorePool} (h : Placed pool) (hdead : pool.Deadlocked) :
    Crossed pool := by
  by_contra hcrossed
  by_cases hback : ∃ c ∈ pool.calls, backtracks c = true
  · apply Pool.not_deadlocked_of_rank appendRank _ hdead
    intro c hc want hwant l hl
    rcases h.nested hc hwant hl with ⟨rfl, hw⟩ | ⟨_, hne, hw⟩ | ⟨hstraddle, _⟩
    · rw [hw]
      decide
    · rw [hw]
      cases l <;> first | decide | exact absurd rfl hne
    · exact absurd ⟨hback, c, hc, hstraddle⟩ hcrossed
  · apply Pool.not_deadlocked_of_rank updateRank _ hdead
    intro c hc want hwant l hl
    rcases h.nested hc hwant hl with ⟨rfl, hw⟩ | ⟨hb, _⟩ | ⟨_, rfl, hw⟩
    · rw [hw]
      decide
    · exact absurd ⟨c, hc, hb⟩ hback
    · rw [hw]
      decide

/-- Calls that cross do deadlock. -/
theorem deadlocked_of_crossed {pool : StorePool} (h : Crossed pool) : pool.Deadlocked := by
  obtain ⟨⟨b, hb, hback⟩, d, hd, hstraddle⟩ := h
  obtain ⟨i, hi⟩ := List.mem_iff_getElem?.mp hb
  obtain ⟨j, hj⟩ := List.mem_iff_getElem?.mp hd
  simp only [backtracks, straddles, Bool.and_eq_true, beq_iff_eq] at hback hstraddle
  have hne : i ≠ j := by
    rintro rfl
    rw [hi] at hj
    cases hj
    rw [hback.1] at hstraddle
    cases hstraddle.1
  refine ⟨{i, j}, ⟨i, by simp⟩, ?_⟩
  intro k hk
  rcases Finset.mem_insert.mp hk with rfl | hk
  · refine ⟨j, by simp, Pool.waits_iff.mpr ⟨hne, b, d, _, hi, hj, hback.2, ?_⟩⟩
    simp [Call.holds, hstraddle.1, updating]
  · rw [Finset.mem_singleton] at hk
    subst hk
    refine ⟨i, by simp, Pool.waits_iff.mpr ⟨hne.symm, d, b, _, hj, hi, hstraddle.2, ?_⟩⟩
    simp [Call.holds, hback.1, appending]

/-- **Calls of the store deadlock exactly where an `append_event` and an `update_run_status`
cross**. -/
theorem deadlocked_iff {pool : StorePool} (h : Placed pool) : pool.Deadlocked ↔ Crossed pool :=
  ⟨crossed_of_deadlocked h, deadlocked_of_crossed⟩

/-- A turn makes calls cross only where it collides. -/
theorem not_crossed_step {p q : StorePool} {t : Turn Op} (h : Placed p) (hp : ¬ Crossed p)
    (ht : collides p t = false) (hstep : p.step method t = some q) : ¬ Crossed q := by
  rintro ⟨⟨b, hb, hback⟩, d, hd, hstraddle⟩
  rcases Pool.step_cases hstep with ⟨op, rfl, rfl⟩ | ⟨i, c, c', s', rfl, hc, _, hmove, rfl⟩
  · -- a call begins without a lock
    have hold : ∀ {x}, x ∈ p.calls ++ [⟨op, [], method op⟩] → x.held ≠ [] → x ∈ p.calls := by
      intro x hx hheld
      rcases List.mem_append.mp hx with hx | hx
      · exact hx
      · rw [List.mem_singleton.mp hx] at hheld
        exact absurd rfl hheld
    apply hp
    refine ⟨⟨b, hold hb ?_, hback⟩, d, hold hd ?_, hstraddle⟩
    · intro hnil
      simp [backtracks, hnil, appending] at hback
    · intro hnil
      simp [straddles, hnil, updating] at hstraddle
  · have hpos : Position c.op c.held c.todo := (h c (List.mem_of_getElem? hc)).here
    simp only [collides, hc, Bool.or_eq_false_iff] at ht
    rcases List.mem_or_eq_of_mem_set hb with hb' | rfl
    · rcases List.mem_or_eq_of_mem_set hd with hd' | rfl
      · exact hp ⟨⟨b, hb', hback⟩, d, hd', hstraddle⟩
      · have hany : p.calls.any backtracks = true := List.any_eq_true.mpr ⟨b, hb', hback⟩
        have hfinds : finds p.state c = true := hpos.straddles p.state d s' hmove hstraddle
        rw [hany, hfinds] at ht
        cases ht.2
    · rcases List.mem_or_eq_of_mem_set hd with hd' | rfl
      · have hany : p.calls.any straddles = true := List.any_eq_true.mpr ⟨d, hd', hstraddle⟩
        have hmisses : misses p.state c = true := hpos.backtracks p.state b s' hmove hback
        rw [hany, hmisses] at ht
        cases ht.1
      · simp only [backtracks, straddles, Bool.and_eq_true, beq_iff_eq] at hback hstraddle
        rw [hback.1] at hstraddle
        cases hstraddle.1

/-- **Calls none of whose turns collide never deadlock**, however many there are and in
whatever order they take their steps. -/
theorem not_deadlocked_of_calm (store : MemoryRunStore) (pool : StorePool)
    (h : Pool.Leads method (fun p t => collides p t = false) ⟨[], store⟩ pool) :
    ¬ pool.Deadlocked := by
  have hboth : Placed pool ∧ ¬ Crossed pool := by
    apply h.invariant (fun p => Placed p ∧ ¬ Crossed p)
    · constructor
      · intro c hc
        cases hc
      · rintro ⟨⟨c, hc, _⟩, _⟩
        cases hc
    · intro p t q ⟨hplaced, hcrossed⟩ ht hstep
      exact ⟨Pool.always_step always_position hplaced hstep,
        not_crossed_step hplaced hcrossed ht hstep⟩
  rw [deadlocked_iff hboth.1]
  exact hboth.2

/-- Two calls on a run that exists, one setting its status while the other waits for the logs. -/
def statusBesideEvent : List (Turn Op) :=
  [.enter (.createRun ⟨1, 7, .pending, "p", "m", .null, none, 0, 0⟩)] ++
    List.replicate 6 (.advance 0) ++
  [.enter (.updateRunStatus 1 .callingModel 1),
    .enter (.appendEvent ⟨0, 1, .runStarted 1 7 "p" "m"⟩),
    .advance 1, .advance 1, .advance 2, .advance 2]

/-- They do not deadlock. -/
theorem statusBesideEvent_calm :
    ∃ pool, Pool.stepsWhile method (fun p t => collides p t = false) ⟨[], new⟩ statusBesideEvent =
      some pool ∧ pool.calls.length = 3 ∧ ¬ pool.Deadlocked := by
  have hruns : (Pool.stepsWhile method (fun p t => collides p t = false) ⟨[], new⟩
      statusBesideEvent).any (fun pool => pool.calls.length == 3) = true := by decide +kernel
  obtain ⟨pool, hpool, hlength⟩ := (Option.any_eq_true _ _).mp hruns
  exact ⟨pool, hpool, beq_iff_eq.mp hlength,
    not_deadlocked_of_calm new pool (Pool.leads_of_stepsWhile hpool)⟩

/-- A run exists and its status is being set; the first event of another run, which does not
exist, is being appended. -/
def eventOfUnknownRun : List (Turn Op) :=
  [.enter (.createRun ⟨1, 7, .pending, "p", "m", .null, none, 0, 0⟩)] ++
    List.replicate 6 (.advance 0) ++
  [.enter (.updateRunStatus 1 .callingModel 1),
    .enter (.appendEvent ⟨0, 2, .runStarted 2 7 "p" "m"⟩)] ++
    List.replicate 5 (.advance 2) ++ [.advance 1, .advance 1]

/-- Each of the two calls waits for the other, and neither can take a step. -/
theorem eventOfUnknownRun_deadlocks :
    ∃ pool, Pool.steps method ⟨[], new⟩ eventOfUnknownRun = some pool ∧ pool.Deadlocked ∧
      (pool.step method (.advance 1)).isNone = true ∧
      (pool.step method (.advance 2)).isNone = true := by
  have hruns : (Pool.steps method ⟨[], new⟩ eventOfUnknownRun).any (fun pool =>
      (pool.waits 1 2 && pool.waits 2 1) && ((pool.step method (.advance 1)).isNone &&
        (pool.step method (.advance 2)).isNone)) = true := by decide +kernel
  obtain ⟨pool, hpool, hall⟩ := (Option.any_eq_true _ _).mp hruns
  rw [Bool.and_eq_true, Bool.and_eq_true, Bool.and_eq_true] at hall
  refine ⟨pool, hpool, ⟨{1, 2}, ⟨1, by simp⟩, ?_⟩, hall.2⟩
  intro i hi
  rcases Finset.mem_insert.mp hi with rfl | hi
  · exact ⟨2, by simp, hall.1.1⟩
  · rw [Finset.mem_singleton.mp hi]
    exact ⟨1, by simp, hall.1.2⟩

end MemoryRunStore

end Behest
