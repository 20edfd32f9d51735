import Behest.Runtime.Settlement
import Mathlib.Data.List.Induction

/-!
# Failed compactions

What a run makes of compactions that fail. The circuit breaker counts failures in a row and
opens at its threshold, but the turn loop returns the first failure as its own error: no turn
goes on after one, and a breaker that tolerates a failure never opens.
-/

namespace Behest

open Effect Compaction

/-! ### The breaker over a transcript -/

namespace Action

/-- A compaction fails. -/
def failsCompaction : Action → Bool
  | compacted _ (.error _) => true
  | _ => false

/-- A proactive compaction fails. -/
def failsProactively : Action → Bool
  | compacted .proactive (.error _) => true
  | _ => false

/-- The opening of the breaker is announced. -/
def announcesOpening : Action → Bool
  | emitted event => event.isOpening
  | _ => false

/-- The context of a turn is built, or fails to be. -/
def buildsContext : Action → Bool
  | contextBuilt _ => true
  | _ => false

end Action

namespace Compaction.CompactionCircuitBreaker

/-- The breaker after an action. A history that needed no compaction tells it nothing. -/
def observe (b : CompactionCircuitBreaker) : Action → CompactionCircuitBreaker
  | .compacted _ (.ok (some _)) => b.recordSuccess
  | .compacted _ (.error _) => b.recordFailure.2
  | _ => b

/-- How often the breaker opens on the way. -/
def openings (b : CompactionCircuitBreaker) : List Action → Nat
  | [] => 0
  | a :: as => (if !b.isOpen && (b.observe a).isOpen then 1 else 0) + (b.observe a).openings as

/-- The breaker of a run after its actions. -/
def after (threshold : Nat) (as : List Action) : CompactionCircuitBreaker :=
  as.foldl observe (.new threshold)

end Compaction.CompactionCircuitBreaker

/-- One more action, after so many failures in a row. -/
def streakStep (n : Nat) : Action → Nat
  | .compacted _ (.ok (some _)) => 0
  | .compacted _ (.error _) => n + 1
  | _ => n

/-- How many compactions have failed since one last succeeded. -/
def streak (as : List Action) : Nat := as.foldl streakStep 0

/-- How a run is to take failed compactions. -/
structure Degrades (config : CompactionConfig) (as : List Action) : Prop where
  /-- After a failed proactive compaction, the turn goes on to build its context. -/
  goesOn : ∀ before e rest, as = before ++ .compacted .proactive (.error e) :: rest →
    ∃ a ∈ rest, a.buildsContext = true
  /-- As many failures in a row as the threshold open the breaker. -/
  opens : ∀ before rest, as = before ++ rest → config.circuitBreakerThreshold ≤ streak before →
    (CompactionCircuitBreaker.after config.circuitBreakerThreshold before).isOpen = true
  /-- While the breaker is open, no proactive compaction is attempted. -/
  gated : ∀ before answer rest, as = before ++ .compacted .proactive answer :: rest →
    (CompactionCircuitBreaker.after config.circuitBreakerThreshold before).isOpen = false
  /-- Every opening is announced once. -/
  announced : as.countP Action.announcesOpening =
    (CompactionCircuitBreaker.new config.circuitBreakerThreshold).openings as
  /-- A reactive compaction follows every overflow, unless the history cannot be read. -/
  retried : config.auto = true → ∀ before iteration request e rest,
    as = before ++ .modelAnswered iteration request (.error (.provider e)) :: rest →
    e.isContextOverflow = true →
    (∃ answer, .compacted .reactive answer ∈ rest) ∨
      ∃ sessionId fault rest', rest = .session (.listMessages sessionId) (some fault) :: rest'

/-! ### The breaker counts failures in a row -/

namespace Compaction.CompactionCircuitBreaker

/-- A closed breaker has counted the failures, which are fewer than its threshold. -/
structure Counts (threshold n : Nat) (b : CompactionCircuitBreaker) : Prop where
  limit : b.threshold = threshold
  below : b.isOpen = false → b.consecutiveFailures = n ∧ n < threshold

theorem Counts.observe {threshold n : Nat} {b : CompactionCircuitBreaker}
    (h : Counts threshold n b) (hpos : 1 ≤ threshold) (a : Action) :
    Counts threshold (streakStep n a) (b.observe a) := by
  have hsuccess : Counts threshold 0 b.recordSuccess := ⟨h.limit, fun _ => ⟨rfl, hpos⟩⟩
  have hfailure : Counts threshold (n + 1) b.recordFailure.2 := by
    unfold recordFailure
    by_cases hopen : b.isOpen = true
    · rw [if_pos hopen]
      exact ⟨h.limit, fun hclosed => by simp [hopen] at hclosed⟩
    · obtain ⟨hcount, -⟩ := h.below (by simpa using hopen)
      rw [if_neg hopen, hcount, h.limit]
      by_cases hreached : n + 1 ≥ threshold
      · rw [if_pos hreached]
        exact ⟨rfl, nofun⟩
      · rw [if_neg hreached]
        exact ⟨rfl, fun _ => ⟨rfl, Nat.lt_of_not_ge hreached⟩⟩
  cases a with
  | compacted kind answer =>
    cases answer with
    | error e => exact hfailure
    | ok result =>
      cases result with
      | none => exact h
      | some result => exact hsuccess
  | _ => exact h

theorem counts_after {threshold : Nat} (hpos : 1 ≤ threshold) (as : List Action) :
    Counts threshold (streak as) (after threshold as) := by
  induction as using List.reverseRecOn with
  | nil => exact ⟨rfl, fun _ => ⟨rfl, hpos⟩⟩
  | append_singleton as a ih =>
    unfold streak after
    rw [List.foldl_append, List.foldl_append]
    exact ih.observe hpos a

/-- The breaker is open once it has seen as many failures in a row as its threshold. -/
theorem isOpen_after {threshold : Nat} {as : List Action} (hpos : 1 ≤ threshold)
    (h : threshold ≤ streak as) : (after threshold as).isOpen = true := by
  by_contra hclosed
  have hbelow := ((counts_after hpos as).below (by simpa using hclosed)).2
  exact absurd h (Nat.not_le_of_lt hbelow)

/-- A breaker that has counted no failure stays as it is until the first one. -/
theorem observe_new {threshold : Nat} {a : Action} (h : a.failsCompaction = false) :
    (new threshold).observe a = new threshold := by
  cases a with
  | compacted kind answer =>
    cases answer with
    | error e => cases h
    | ok result => cases result <;> rfl
  | _ => rfl

theorem foldl_observe_new {threshold : Nat} {as : List Action}
    (h : ∀ a ∈ as, a.failsCompaction = false) :
    as.foldl observe (new threshold) = new threshold := by
  induction as with
  | nil => rfl
  | cons a as ih =>
    rw [List.foldl_cons, observe_new (h a (by simp))]
    exact ih fun b hb => h b (List.mem_cons_of_mem a hb)

theorem openings_append (b : CompactionCircuitBreaker) (as bs : List Action) :
    b.openings (as ++ bs) = b.openings as + (as.foldl observe b).openings bs := by
  induction as generalizing b with
  | nil => exact (Nat.zero_add _).symm
  | cons a as ih =>
    show _ + (b.observe a).openings (as ++ bs) = _ + _ + _
    rw [ih, Nat.add_assoc]
    rfl

/-- A breaker that is told nothing does not open. -/
theorem openings_quiet {b : CompactionCircuitBreaker} {as : List Action}
    (h : ∀ a ∈ as, b.observe a = b) : b.openings as = 0 := by
  induction as with
  | nil => rfl
  | cons a as ih =>
    have ha : b.observe a = b := h a (by simp)
    unfold openings
    rw [ha, ih fun c hc => h c (List.mem_cons_of_mem a hc)]
    simp

end Compaction.CompactionCircuitBreaker

/-! ### The aftermath of a failed compaction -/

namespace Phase

/-- A compaction has failed the run. -/
def Tripped : Phase → Prop
  | tripped | degraded => True
  | _ => False

theorem tripped_afterFailure (threshold : Nat) : (afterFailure threshold).Tripped := by
  unfold afterFailure
  split <;> trivial

theorem Live.not_tripped {p : Phase} (h : p.Live) : ¬ p.Tripped := by
  cases p <;> first | exact id | exact h.elim

theorem not_tripped_refused (p : Phase) : ¬ p.refused.Tripped := by cases p <;> exact id

end Phase

namespace Setting

variable {S : Setting} {w w' : World} {st st' : Stage} {a : Action} {as : List Action}

theorem Quiet.not_failsCompaction (h : S.Quiet a) : a.failsCompaction = false := by
  cases a with
  | compacted kind answer => exact h.elim
  | _ => rfl

theorem Quiet.not_announcesOpening (h : S.Quiet a) : a.announcesOpening = false := by
  cases a with
  | emitted event => exact h.2
  | _ => rfl

/-- A compaction fails the run exactly when it fails, and only then is an opening announced. -/
theorem Step.tripped (h : S.Step w st a st') :
    (st'.phase.Tripped ↔ st.phase.Tripped ∨ a.failsCompaction = true) ∧
      (a.announcesOpening = true → st.phase.Tripped) := by
  cases h with
  | quiet live h => simp [h.not_failsCompaction, h.not_announcesOpening]
  | fault live h =>
    have hfails : a.failsCompaction = false := by cases a <;> first | rfl | cases h
    have hannounces : a.announcesOpening = false := by cases a <;> first | rfl | cases h
    simp [hfails, hannounces, live.not_tripped, Phase.not_tripped_refused]
  | cleanup fault _ => simp [Action.failsCompaction, Action.announcesOpening]
  | greet h | commit h | recover h =>
    obtain ⟨r, rfl⟩ := h.eq
    simp [Action.failsCompaction, Action.announcesOpening, Phase.Tripped]
  | @store d outcome rest _ h =>
    obtain ⟨r, rfl⟩ := h.eq
    have hbefore : ¬ (Phase.executed outcome rest).Tripped := id
    simp [Action.failsCompaction, Action.announcesOpening, hbefore,
      (Phase.live_storing rest).not_tripped]
  | compactionFailed hp =>
    simp [Action.failsCompaction, Action.announcesOpening, Phase.tripped_afterFailure]
  | @toolsAnswered d d' message outcomes _ _ _ =>
    have hbefore : ¬ (Phase.committed message .toolCalls).Tripped := id
    simp [Action.failsCompaction, Action.announcesOpening, hbefore,
      (Phase.live_storing outcomes).not_tripped]
  | modelOverflowed h =>
    cases S.rt.policy.compaction.auto <;>
      simp [Action.failsCompaction, Action.announcesOpening, Phase.Tripped]
  | failing fault hp =>
    rcases hp with rfl | rfl <;>
      simp [Action.failsCompaction, Action.announcesOpening, Phase.Tripped]
  | contextFailed hp =>
    rcases hp with rfl | rfl <;>
      simp [Action.failsCompaction, Action.announcesOpening, Phase.Tripped]
  | _ =>
    simp [Action.failsCompaction, Action.announcesOpening, Phase.Tripped, AgentEvent.isOpening]

/-- Nothing of compactions is heard before the first one fails. -/
theorem calm_of_trail (h : Trail World.apply S.Step w st as w' st') (hnot : ¬ st'.phase.Tripped) :
    ∀ a ∈ as, a.failsCompaction = false ∧ a.announcesOpening = false := by
  apply h.invariant (fun as _ st => ¬ st.phase.Tripped →
    ∀ a ∈ as, a.failsCompaction = false ∧ a.announcesOpening = false) _ _ hnot
  · exact fun _ a ha => absurd ha List.not_mem_nil
  · intro as t q a q' ih hstep hnot b hb
    obtain ⟨htripped, hannounces⟩ := hstep.tripped
    rw [htripped, not_or] at hnot
    rcases List.mem_append.mp hb with hb | hb
    · exact ih hnot.1 b hb
    · obtain rfl := List.mem_singleton.mp hb
      exact ⟨by simpa using hnot.2, by simpa using fun h => hnot.1 (hannounces h)⟩

/-- A compaction has failed the run exactly when one has failed. -/
theorem tripped_iff_of_trail (h : Trail World.apply S.Step w st as w' st') (live : st.phase.Live) :
    st'.phase.Tripped ↔ ∃ a ∈ as, a.failsCompaction = true := by
  apply h.invariant (fun as _ st => st.phase.Tripped ↔ ∃ a ∈ as, a.failsCompaction = true)
  · simpa using live.not_tripped
  · intro as t q a q' ih hstep
    rw [hstep.tripped.1, ih]
    simp [or_and_right, exists_or]

/-- What follows the failure of a compaction: its opening of the breaker, and the cleanup. -/
theorem aftermath_of_trail {d : DoomLoopDetector} {threshold : Nat}
    (h : Trail World.apply S.Step w ⟨.afterFailure threshold, d⟩ as w' st')
    (ended : st'.phase.Over) :
    ∃ opening cleanup, as = opening ++ cleanup ∧
      (∀ a ∈ cleanup, ∃ fault, a = .snapshot (.delete S.runId) fault) ∧
      if threshold ≤ 1 then ∃ n, opening = [.emitted (.compactionCircuitOpened S.runId n)]
      else opening = [] := by
  have hinv := h.invariant (fun as _ st =>
    (st.phase = .tripped ∧ threshold ≤ 1 ∧ as = []) ∨ st.phase = .degraded ∧
      ∃ opening cleanup, as = opening ++ cleanup ∧
        (∀ a ∈ cleanup, ∃ fault, a = .snapshot (.delete S.runId) fault) ∧
        if threshold ≤ 1 then ∃ n, opening = [.emitted (.compactionCircuitOpened S.runId n)]
        else opening = []) ?_ ?_
  · rcases hinv with ⟨hp, -, -⟩ | ⟨-, haftermath⟩
    · rw [hp] at ended
      exact ended.elim
    · exact haftermath
  · by_cases hopen : threshold ≤ 1
    · exact .inl ⟨if_pos hopen, hopen, rfl⟩
    · exact .inr ⟨if_neg hopen, [], [], rfl, by simp, by rw [if_neg hopen]⟩
  · intro as t ⟨p, d⟩ a q' hinv hstep
    rcases hinv with ⟨hp, hopen, rfl⟩ | ⟨hp, opening, cleanup, rfl, hcleanup, hopening⟩
    · obtain rfl : p = .tripped := hp
      cases hstep with
      | quiet live _ => exact live.elim
      | fault live _ => exact live.elim
      | cleanup fault ended => exact ended.elim
      | compactionFailed hp => rcases hp with hp | hp <;> cases hp
      | contextFailed hp => rcases hp with hp | hp <;> cases hp
      | failing _ hp => rcases hp with hp | hp <;> cases hp
      | @breakerOpened _ n =>
        exact .inr ⟨rfl, [_], [], rfl, by simp, by rw [if_pos hopen]; exact ⟨n, rfl⟩⟩
    · obtain rfl : p = .degraded := hp
      cases hstep with
      | quiet live _ => exact live.elim
      | fault live _ => exact live.elim
      | compactionFailed hp => rcases hp with hp | hp <;> cases hp
      | contextFailed hp => rcases hp with hp | hp <;> cases hp
      | failing _ hp => rcases hp with hp | hp <;> cases hp
      | cleanup fault _ =>
        apply Or.inr
        apply And.intro rfl
        refine ⟨opening, cleanup ++ [.snapshot (.delete S.runId) fault], by simp, ?_, hopening⟩
        intro b hb
        rcases List.mem_append.mp hb with hb | hb
        · exact hcleanup b hb
        · exact ⟨fault, List.mem_singleton.mp hb⟩

/-- What follows an overflow: the history is read, and a reactive compaction is attempted. -/
theorem retried_of_trail {d : DoomLoopDetector}
    (h : Trail World.apply S.Step w ⟨.overflowed, d⟩ as w' st') (ended : st'.phase.Over) :
    (∃ answer, .compacted .reactive answer ∈ as) ∨
      ∃ fault rest, as = .session (.listMessages S.sessionId) (some fault) :: rest := by
  have hinv := h.invariant (fun as _ st =>
    (st.phase = .overflowed ∧ as = []) ∨
      (st.phase = .compacting .reactive ∨ st.phase = .aborted .reactive) ∨
      (∃ answer, .compacted .reactive answer ∈ as) ∨
      ∃ fault rest, as = .session (.listMessages S.sessionId) (some fault) :: rest)
    (.inl ⟨rfl, rfl⟩) ?_
  · rcases hinv with ⟨hp, -⟩ | (hp | hp) | hdone
    · rw [hp] at ended
      exact ended.elim
    · rw [hp] at ended
      exact ended.elim
    · rw [hp] at ended
      exact ended.elim
    · exact hdone
  · intro as t ⟨p, d⟩ a q' hinv hstep
    rcases hinv with ⟨hp, rfl⟩ | (hp | hp) | ⟨answer, hmem⟩ | ⟨fault, rest, rfl⟩
    · obtain rfl : p = .overflowed := hp
      cases hstep with
      | quiet live _ => exact live.elim
      | fault live _ => exact live.elim
      | cleanup _ ended => exact ended.elim
      | compactionFailed hp => rcases hp with hp | hp <;> cases hp
      | contextFailed hp => rcases hp with hp | hp <;> cases hp
      | failing _ hp => rcases hp with hp | hp <;> cases hp
      | historyRead => exact .inr (.inl (.inl rfl))
      | historyRefused => exact .inr (.inr (.inr ⟨_, [], rfl⟩))
    · obtain rfl : p = .compacting .reactive := hp
      cases hstep with
      | quiet _ _ => exact .inr (.inl (.inl rfl))
      | fault _ _ => exact .inr (.inl (.inr rfl))
      | compactionWrite _ _ => exact .inr (.inl (.inl rfl))
      | cleanup _ ended => exact ended.elim
      | contextFailed hp => rcases hp with hp | hp <;> cases hp
      | failing _ hp => rcases hp with hp | hp <;> cases hp
      | @compacted _ _ result => exact .inr (.inr (.inl ⟨.ok result, by simp⟩))
      | @compactionFailed _ _ _ e hp =>
        rcases hp with hp | hp <;> cases hp
        exact .inr (.inr (.inl ⟨.error e, by simp⟩))
    · obtain rfl : p = .aborted .reactive := hp
      cases hstep with
      | quiet live _ => exact live.elim
      | fault live _ => exact live.elim
      | cleanup _ ended => exact ended.elim
      | contextFailed hp => rcases hp with hp | hp <;> cases hp
      | failing _ hp => rcases hp with hp | hp <;> cases hp
      | @compactionFailed _ _ _ e hp =>
        rcases hp with hp | hp <;> cases hp
        exact .inr (.inr (.inl ⟨.error e, by simp⟩))
    · exact .inr (.inr (.inl ⟨answer, List.mem_append_left _ hmem⟩))
    · exact .inr (.inr (.inr ⟨fault, rest ++ [a], rfl⟩))

/-- A compaction reports its answer, and only its failures count. -/
theorem Step.compacted_cases {kind : CompactionKind}
    {answer : Except RuntimeError (Option CompactionResult)}
    (h : S.Step w st (.compacted kind answer) st') :
    (∃ result, answer = .ok result ∧ st.phase = .compacting kind ∧ st' = ⟨.idle, st.detector⟩) ∨
    ∃ e, answer = .error e ∧ (st.phase = .compacting kind ∨ st.phase = .aborted kind) ∧
      st' = ⟨.afterFailure S.rt.policy.compaction.circuitBreakerThreshold, st.detector⟩ := by
  cases h with
  | quiet _ h => exact h.elim
  | fault _ h => cases h
  | greet h | commit h | recover h | store h =>
    obtain ⟨r, hr⟩ := h.eq
    cases hr
  | compacted => exact .inl ⟨_, rfl, rfl, rfl⟩
  | compactionFailed hp => exact .inr ⟨_, rfl, hp, rfl⟩

/-- Before a compaction reports its answer, none has failed. -/
theorem Step.not_tripped_of_compacted {kind : CompactionKind}
    {answer : Except RuntimeError (Option CompactionResult)}
    (h : S.Step w st (.compacted kind answer) st') : ¬ st.phase.Tripped := by
  rcases h.compacted_cases with ⟨_, -, hp, -⟩ | ⟨_, -, hp | hp, -⟩
  all_goals
    rw [hp]
    exact id

/-- An overflow has its history compacted. -/
theorem Step.overflowed {iteration : Nat} {request : ChatRequest} {e : ProviderError}
    (h : S.Step w st (.modelAnswered iteration request (.error (.provider e))) st')
    (hoverflow : e.isContextOverflow = true) (hauto : S.rt.policy.compaction.auto = true) :
    st' = ⟨.overflowed, st.detector⟩ := by
  cases h with
  | quiet _ h => exact h.elim
  | fault _ h => cases h
  | greet h | commit h | recover h | store h =>
    obtain ⟨r, hr⟩ := h.eq
    cases hr
  | modelOverflowed _ => rw [if_pos hauto]
  | modelFailed h =>
    rw [h e rfl] at hoverflow
    cases hoverflow

theorem Step.afterFailure {kind : CompactionKind} {e : RuntimeError}
    (h : S.Step w st (.compacted kind (.error e)) st') :
    st' = ⟨.afterFailure S.rt.policy.compaction.circuitBreakerThreshold, st.detector⟩ := by
  obtain ⟨_, hanswer, -⟩ | ⟨_, -, -, hst'⟩ := h.compacted_cases
  · cases hanswer
  · exact hst'

/-- Before a compaction reports its answer, the breaker is as new. -/
theorem after_of_trail (h : Trail World.apply S.Step w st as w' st') (hnot : ¬ st'.phase.Tripped)
    (threshold : Nat) : CompactionCircuitBreaker.after threshold as = .new threshold :=
  CompactionCircuitBreaker.foldl_observe_new fun a ha => (calm_of_trail h hnot a ha).1

/-- The first failure opens a breaker that tolerates none, and no other. -/
theorem openings_failure {threshold : Nat} {kind : CompactionKind} {e : RuntimeError}
    {rest : List Action} (h : ∀ b : CompactionCircuitBreaker, ∀ a ∈ rest, b.observe a = b) :
    (CompactionCircuitBreaker.new threshold).openings (.compacted kind (.error e) :: rest) =
      if threshold ≤ 1 then 1 else 0 := by
  unfold CompactionCircuitBreaker.openings
  rw [CompactionCircuitBreaker.openings_quiet (h _), Nat.add_zero]
  by_cases hopen : threshold ≤ 1 <;>
    simp [CompactionCircuitBreaker.observe, CompactionCircuitBreaker.recordFailure,
      CompactionCircuitBreaker.new, CompactionCircuitBreaker.isOpen, hopen]

/-- What follows a failure announces the opening it caused. -/
theorem announced_of_aftermath {threshold : Nat} {kind : CompactionKind} {e : RuntimeError}
    {d : DoomLoopDetector} (h : Trail World.apply S.Step w ⟨.afterFailure threshold, d⟩ as w' st')
    (ended : st'.phase.Over) :
    as.countP Action.announcesOpening = (CompactionCircuitBreaker.new threshold).openings
      (.compacted kind (.error e) :: as) := by
  obtain ⟨opening, cleanup, rfl, hcleanup, hopening⟩ := aftermath_of_trail h ended
  have hcount : cleanup.countP Action.announcesOpening = 0 := by
    apply List.countP_eq_zero.mpr
    intro a ha
    obtain ⟨fault, rfl⟩ := hcleanup a ha
    exact Bool.false_ne_true
  have hquiet : ∀ b : CompactionCircuitBreaker, ∀ a ∈ opening ++ cleanup, b.observe a = b := by
    intro b a ha
    rcases List.mem_append.mp ha with ha | ha
    · split at hopening
      · obtain ⟨n, rfl⟩ := hopening
        obtain rfl := List.mem_singleton.mp ha
        rfl
      · rw [hopening] at ha
        cases ha
    · obtain ⟨fault, rfl⟩ := hcleanup a ha
      rfl
  rw [openings_failure hquiet, List.countP_append, hcount, Nat.add_zero]
  by_cases hopen : threshold ≤ 1
  · rw [if_pos hopen] at hopening ⊢
    obtain ⟨n, rfl⟩ := hopening
    rfl
  · rw [if_neg hopen] at hopening ⊢
    rw [hopening]
    rfl

/-- The openings of the breaker are those announced. -/
theorem announced_of_trail (h : Trail World.apply S.Step w st as w' st') (live : st.phase.Live)
    (ended : st'.phase.Over) :
    as.countP Action.announcesOpening =
      (CompactionCircuitBreaker.new
        S.rt.policy.compaction.circuitBreakerThreshold).openings as := by
  have hcalm : ∀ {bs w₁ st₁}, Trail World.apply S.Step w st bs w₁ st₁ → ¬ st₁.phase.Tripped →
      bs.countP Action.announcesOpening = 0 ∧ (CompactionCircuitBreaker.new
        S.rt.policy.compaction.circuitBreakerThreshold).openings bs = 0 := by
    intro bs w₁ st₁ hbs hnot
    have hbs := calm_of_trail hbs hnot
    constructor
    · exact List.countP_eq_zero.mpr fun a ha => by simp [hbs a ha]
    · apply CompactionCircuitBreaker.openings_quiet
      exact fun a ha => CompactionCircuitBreaker.observe_new (hbs a ha).1
  by_cases htripped : st'.phase.Tripped
  · obtain ⟨a, ha, hfails⟩ := (tripped_iff_of_trail h live).mp htripped
    obtain ⟨before, rest, rfl⟩ := List.append_of_mem ha
    obtain ⟨t, q, q', hbefore, hstep, hafter⟩ := h.split
    obtain ⟨kind, e, rfl⟩ : ∃ kind e, a = .compacted kind (.error e) := by
      unfold Action.failsCompaction at hfails
      split at hfails
      · next kind e => exact ⟨kind, e, rfl⟩
      · cases hfails
    have hnot := hstep.not_tripped_of_compacted
    obtain ⟨hcount, hopenings⟩ := hcalm hbefore hnot
    obtain rfl := hstep.afterFailure
    rw [List.countP_append, CompactionCircuitBreaker.openings_append, hcount, hopenings,
      CompactionCircuitBreaker.foldl_observe_new fun a ha => (calm_of_trail hbefore hnot a ha).1,
      ← announced_of_aftermath hafter ended]
    rfl
  · obtain ⟨hcount, hopenings⟩ := hcalm h htripped
    rw [hcount, hopenings]

/-- A run that has ended degrades as it is to if and only if no proactive compaction failed. -/
theorem degrades_of_trail (h : Trail World.apply S.Step w st as w' st') (live : st.phase.Live)
    (ended : st'.phase.Over) (hpos : 1 ≤ S.rt.policy.compaction.circuitBreakerThreshold) :
    Degrades S.rt.policy.compaction as ↔ ∀ a ∈ as, a.failsProactively = false := by
  constructor
  · intro hdegrades a ha
    by_contra hfails
    obtain ⟨before, rest, rfl⟩ := List.append_of_mem ha
    obtain ⟨t, q, q', _, hstep, hafter⟩ := h.split
    obtain ⟨e, rfl⟩ : ∃ e, a = .compacted .proactive (.error e) := by
      unfold Action.failsProactively at hfails
      split at hfails
      · next e => exact ⟨e, rfl⟩
      · exact absurd rfl hfails
    obtain ⟨b, hb, hbuilds⟩ := hdegrades.goesOn before e rest rfl
    obtain rfl := hstep.afterFailure
    obtain ⟨opening, cleanup, rfl, hcleanup, hopening⟩ := aftermath_of_trail hafter ended
    rcases List.mem_append.mp hb with hb | hb
    · split at hopening
      · obtain ⟨n, rfl⟩ := hopening
        obtain rfl := List.mem_singleton.mp hb
        cases hbuilds
      · rw [hopening] at hb
        cases hb
    · obtain ⟨fault, rfl⟩ := hcleanup b hb
      cases hbuilds
  · intro hnone
    exact {
      goesOn := by
        rintro before e rest rfl
        have hfails := hnone (.compacted .proactive (.error e)) (by simp)
        cases hfails
      opens := fun before rest _ => CompactionCircuitBreaker.isOpen_after hpos
      gated := by
        rintro before answer rest rfl
        obtain ⟨t, q, q', hbefore, hstep, _⟩ := h.split
        rw [after_of_trail hbefore hstep.not_tripped_of_compacted]
        rfl
      announced := announced_of_trail h live ended
      retried := by
        rintro hauto before iteration request e rest rfl hoverflow
        obtain ⟨t, q, q', _, hstep, hafter⟩ := h.split
        rw [hstep.overflowed hoverflow hauto] at hafter
        exact (retried_of_trail hafter ended).imp_right fun h => ⟨_, h⟩ }

end Setting

/-! ### Whole runs -/

theorem Stage.ReturnsIn.ended {st : Stage} {ok : Bool} (h : st.ReturnsIn ok) : st.phase.Over := by
  rcases h with ⟨-, hp⟩ | ⟨-, hp | hp | hp⟩ <;> rw [hp] <;> trivial

/-- A run that only asked for its snapshot has compacted nothing. -/
theorem degrades_of_snapshots (config : CompactionConfig) {as : List Action}
    (hpos : 1 ≤ config.circuitBreakerThreshold)
    (h : ∀ a ∈ as, ∃ op fault, a = .snapshot op fault) :
    Degrades config as ∧ ∀ a ∈ as, a.failsProactively = false := by
  constructor
  · exact {
      goesOn := by
        rintro before e rest rfl
        obtain ⟨_, _, ha⟩ := h (.compacted .proactive (.error e)) (by simp)
        cases ha
      opens := fun before rest _ => CompactionCircuitBreaker.isOpen_after hpos
      gated := by
        rintro before answer rest rfl
        obtain ⟨_, _, ha⟩ := h (.compacted .proactive answer) (by simp)
        cases ha
      announced := by
        rw [CompactionCircuitBreaker.openings_quiet, List.countP_eq_zero.mpr]
        · intro a ha
          obtain ⟨_, _, rfl⟩ := h a ha
          exact Bool.false_ne_true
        · intro a ha
          obtain ⟨_, _, rfl⟩ := h a ha
          rfl
      retried := by
        rintro _ before iteration request e rest rfl _
        obtain ⟨_, _, ha⟩ := h (.modelAnswered iteration request (.error (.provider e))) (by simp)
        cases ha }
  · intro a ha
    obtain ⟨_, _, rfl⟩ := h a ha
    rfl

/-- **A run degrades as it is to if and only if none of its proactive compactions fails**: for
every run that was created, and for every run resumed from a saved snapshot. -/
theorem degrades_iff (host : Host) (rt : AgentRuntime) (fuel : Nat) (w w' : World) (ok : Bool)
    (after : List Action) (hpos : 1 ≤ rt.policy.compaction.circuitBreakerThreshold) :
    (∀ request record before, Returns (rt.run host fuel request) w ok w' →
      w'.trace = w.trace ++ before ++ .run (.createRun record) none :: after →
      (Degrades rt.policy.compaction after ↔ ∀ a ∈ after, a.failsProactively = false)) ∧
    ∀ runId, Returns (rt.resume host fuel runId) w ok w' →
      (∀ s, w.snapshots runId = some s → Saved rt.policy s) → w'.trace = w.trace ++ after →
      (Degrades rt.policy.compaction after ↔ ∀ a ∈ after, a.failsProactively = false) := by
  constructor
  · intro request record before hreturns htrace
    obtain ⟨_, w₁, st, _, _, htrail, hstage⟩ := trail_of_run hreturns htrace
    exact Setting.degrades_of_trail htrail trivial hstage.ended hpos
  · intro runId hreturns hsaved htrace
    have hasked : (∀ a ∈ after, ∃ op fault, a = .snapshot op fault) →
        (Degrades rt.policy.compaction after ↔ ∀ a ∈ after, a.failsProactively = false) := by
      intro h
      obtain ⟨hdegrades, hnone⟩ := degrades_of_snapshots rt.policy.compaction hpos h
      exact iff_of_true hdegrades hnone
    rcases trail_of_resume hreturns hsaved htrace with
      ⟨_, rfl⟩ | ⟨_, fault, rfl⟩ | ⟨s, st, _, _, htrail, hstage⟩
    · exact hasked (by simp)
    · exact hasked (by simp)
    · exact Setting.degrades_of_trail htrail (Setting.live_resumed _ _) hstage.ended hpos

/-- A provider whose context is full with any message. -/
def cramped : ChatProvider := { ponging with capabilities := ⟨false, some 1, some 0⟩ }

/-- A compaction without a provider ends the run at its first turn, with a breaker that
tolerates two failures. -/
theorem askPing_gives_up :
    let rt :=
      AgentRuntime.new ⟨[cramped]⟩ ⟨[]⟩ { compaction := { provider := some "absent" } } false
    ∃ w' before record after, Returns (rt.run .benign 1 askPing) (.ofSession 7 []) false w' ∧
      w'.trace = [] ++ before ++ .run (.createRun record) none :: after ∧
      rt.policy.compaction.circuitBreakerThreshold = 3 ∧
      ¬ Degrades rt.policy.compaction after := by
  intro rt
  have hreturns : Returns (rt.run .benign 1 askPing) (.ofSession 7 []) false
      (final (rt.run .benign 1 askPing (.ofSession 7 []))) :=
    returns_of_isError (by decide +kernel)
  have hcreated : (final (rt.run .benign 1 askPing (.ofSession 7 []))).trace.any
      (Action.createsWith (·.id == 1)) = true := by decide +kernel
  have hfails : (final (rt.run .benign 1 askPing (.ofSession 7 []))).trace.any
      Action.failsProactively = true := by decide +kernel
  have hnone : (final (rt.run .benign 1 askPing (.ofSession 7 []))).trace.all
      (fun a => !a.buildsContext) = true := by decide +kernel
  generalize final (rt.run .benign 1 askPing (.ofSession 7 [])) = w' at *
  obtain ⟨before, record, after, htrace, _⟩ := exists_created hcreated
  refine ⟨w', before, record, after, hreturns, htrace, rfl, fun hdegrades => ?_⟩
  obtain ⟨a, ha, hfails⟩ := List.any_eq_true.mp hfails
  have hpre := (trail_of_run hreturns htrace).1
  have hafter : a ∈ after := by
    rw [htrace] at ha
    rcases List.mem_append.mp ha with ha | ha
    · have hprea := hpre a (by simpa using ha)
      cases a <;> first | exact hprea.elim | cases hfails
    · rcases List.mem_cons.mp ha with rfl | ha
      · cases hfails
      · exact ha
  obtain ⟨first, rest, rfl⟩ := List.append_of_mem hafter
  unfold Action.failsProactively at hfails
  split at hfails
  · next e =>
    obtain ⟨b, hb, hbuilds⟩ := hdegrades.goesOn first e rest rfl
    have hnot := List.all_eq_true.mp hnone b (by rw [htrace]; simp [hb])
    simp [hbuilds] at hnot
  · cases hfails

/-- A run without a failed compaction degrades as it is to. -/
theorem askPing_degrades :
    let rt := AgentRuntime.new ⟨[ponging]⟩ ⟨[]⟩ {} false
    ∃ w' before record after, Returns (rt.run .benign 1 askPing) (.ofSession 7 []) true w' ∧
      w'.trace = [] ++ before ++ .run (.createRun record) none :: after ∧
      Degrades rt.policy.compaction after := by
  intro rt
  have hreturns : Returns (rt.run .benign 1 askPing) (.ofSession 7 []) true
      (final (rt.run .benign 1 askPing (.ofSession 7 []))) :=
    returns_of_isValue (by decide +kernel)
  have hcreated : (final (rt.run .benign 1 askPing (.ofSession 7 []))).trace.any
      (Action.createsWith (·.id == 1)) = true := by decide +kernel
  have hnone : (final (rt.run .benign 1 askPing (.ofSession 7 []))).trace.all
      (fun a => !a.failsProactively) = true := by decide +kernel
  generalize final (rt.run .benign 1 askPing (.ofSession 7 [])) = w' at *
  obtain ⟨before, record, after, htrace, _⟩ := exists_created hcreated
  refine ⟨w', before, record, after, hreturns, htrace, ?_⟩
  apply ((degrades_iff .benign rt 1 (.ofSession 7 []) w' true after (by decide)).1 askPing record
    before hreturns htrace).mpr
  intro a ha
  simpa using List.all_eq_true.mp hnone a (by rw [htrace]; simp [ha])

end Behest
