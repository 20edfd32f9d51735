import Mathlib.Data.List.Induction
import Behest.Compaction.Service

/-!
# The two circuit breakers of compaction

The breaker of the runtime, which keeps whether it is open, and that of
`behest-core/src/journal.rs`, which reads it off its counter. Thresholds are the 32-bit words
that both accept.
-/

namespace Behest.Compaction

/-- Source: `journal.rs:382–385`. -/
structure CompactCircuitBreaker where
  maxConsecutiveFailures : Nat
  consecutiveFailures : Nat

namespace CompactCircuitBreaker

/-- Source: `journal.rs:401–406`. -/
def new (maxConsecutiveFailures : Nat) : CompactCircuitBreaker := ⟨maxConsecutiveFailures, 0⟩

/-- Source: `journal.rs:411–413`. -/
def isOpen (b : CompactCircuitBreaker) : Bool :=
  decide (b.consecutiveFailures ≥ b.maxConsecutiveFailures)

/-- Source: `journal.rs:422–424`. -/
def recordSuccess (b : CompactCircuitBreaker) : CompactCircuitBreaker :=
  { b with consecutiveFailures := 0 }

/-- The counter stays at the largest word. Source: `journal.rs:427–429`. -/
def recordFailure (b : CompactCircuitBreaker) : CompactCircuitBreaker :=
  { b with consecutiveFailures := min (b.consecutiveFailures + 1) usizeMax }

end CompactCircuitBreaker

/-- A call on a breaker. -/
inductive BreakerRecord where
  | success
  | failure
deriving DecidableEq

/-- The failures since the last success, or all of them. -/
def failuresSince (records : List BreakerRecord) : Nat :=
  records.foldl (fun n record => match record with
    | .success => 0
    | .failure => n + 1) 0

/-- The breaker of the runtime after some calls. -/
def runtimeAfter (threshold : UInt32) (records : List BreakerRecord) : CompactionCircuitBreaker :=
  records.foldl (fun b record => match record with
    | .success => b.recordSuccess
    | .failure => b.recordFailure.2) (.new threshold.toNat)

/-- The breaker of the core after some calls. -/
def coreAfter (threshold : UInt32) (records : List BreakerRecord) : CompactCircuitBreaker :=
  records.foldl (fun b record => match record with
    | .success => b.recordSuccess
    | .failure => b.recordFailure) (.new threshold.toNat)

section After

variable (threshold : UInt32) (records : List BreakerRecord)

@[simp] theorem failuresSince_success : failuresSince (records ++ [.success]) = 0 := by
  simp [failuresSince]

@[simp] theorem failuresSince_failure :
    failuresSince (records ++ [.failure]) = failuresSince records + 1 := by
  simp [failuresSince]

@[simp] theorem runtimeAfter_success :
    runtimeAfter threshold (records ++ [.success]) =
      (runtimeAfter threshold records).recordSuccess := by
  simp [runtimeAfter]

@[simp] theorem runtimeAfter_failure :
    runtimeAfter threshold (records ++ [.failure]) =
      (runtimeAfter threshold records).recordFailure.2 := by
  simp [runtimeAfter]

@[simp] theorem coreAfter_success :
    coreAfter threshold (records ++ [.success]) = (coreAfter threshold records).recordSuccess := by
  simp [coreAfter]

@[simp] theorem coreAfter_failure :
    coreAfter threshold (records ++ [.failure]) = (coreAfter threshold records).recordFailure := by
  simp [coreAfter]

/-- A closed breaker has counted the failures; an open one has seen enough of them. Its counter
is a 32-bit word. -/
structure Tracks (n : Nat) (b : CompactionCircuitBreaker) : Prop where
  threshold_eq : b.threshold = threshold.toNat
  bounded : b.consecutiveFailures ≤ max 1 threshold.toNat
  closed : b.isOpen = false → b.consecutiveFailures = n ∧ n < max 1 threshold.toNat
  opened : b.isOpen = true → max 1 threshold.toNat ≤ n

variable {threshold} in
theorem Tracks.recordFailure {n : Nat} {b : CompactionCircuitBreaker} (h : Tracks threshold n b) :
    Tracks threshold (n + 1) b.recordFailure.2 := by
  unfold CompactionCircuitBreaker.recordFailure
  by_cases hopen : b.isOpen = true
  · rw [if_pos hopen]
    exact ⟨h.threshold_eq, h.bounded, fun hclosed => by simp [hopen] at hclosed,
      fun hopen => Nat.le_succ_of_le (h.opened hopen)⟩
  · obtain ⟨hcount, hlt⟩ := h.closed (by simpa using hopen)
    rw [if_neg hopen, hcount, h.threshold_eq]
    by_cases hreached : n + 1 ≥ threshold.toNat
    · rw [if_pos hreached]
      exact ⟨rfl, by show n + 1 ≤ _; omega, nofun, fun _ => by omega⟩
    · rw [if_neg hreached]
      refine ⟨rfl, by show n + 1 ≤ _; omega, fun _ => ⟨rfl, by omega⟩, fun hopened => ?_⟩
      exact absurd hopened hopen

theorem tracks_runtimeAfter :
    Tracks threshold (failuresSince records) (runtimeAfter threshold records) := by
  induction records using List.reverseRecOn with
  | nil =>
    exact ⟨rfl, Nat.zero_le _,
      fun _ => ⟨rfl, Nat.lt_of_lt_of_le Nat.one_pos (Nat.le_max_left ..)⟩, nofun⟩
  | append_singleton records record ih =>
    cases record with
    | success =>
      rw [runtimeAfter_success, failuresSince_success]
      exact ⟨ih.threshold_eq, Nat.zero_le _,
        fun _ => ⟨rfl, Nat.lt_of_lt_of_le Nat.one_pos (Nat.le_max_left ..)⟩, nofun⟩
    | failure =>
      rw [runtimeAfter_failure, failuresSince_failure]
      exact ih.recordFailure

/-- The breaker of the runtime is open when enough failures came in a row, and at least one. -/
theorem isOpen_runtimeAfter : (runtimeAfter threshold records).isOpen = true ↔
    max 1 threshold.toNat ≤ failuresSince records := by
  have htracks := tracks_runtimeAfter threshold records
  constructor
  · exact htracks.opened
  · intro hle
    by_contra hclosed
    have := (htracks.closed (by simpa using hclosed)).2
    omega

theorem coreAfter_eq : coreAfter threshold records =
    ⟨threshold.toNat, min (failuresSince records) usizeMax⟩ := by
  induction records using List.reverseRecOn with
  | nil => rfl
  | append_singleton records record ih =>
    cases record with
    | success =>
      rw [coreAfter_success, ih, failuresSince_success]
      rfl
    | failure =>
      rw [coreAfter_failure, ih, failuresSince_failure]
      have hcount : min (min (failuresSince records) usizeMax + 1) usizeMax =
          min (failuresSince records + 1) usizeMax := by omega
      exact congrArg (CompactCircuitBreaker.mk threshold.toNat) hcount

/-- The breaker of the core is open when enough failures came in a row. -/
theorem isOpen_coreAfter : (coreAfter threshold records).isOpen = true ↔
    threshold.toNat ≤ failuresSince records := by
  have hlt := threshold.toNat_lt
  have hmax : (2 : Nat) ^ 32 ≤ usizeMax := by decide
  rw [coreAfter_eq, CompactCircuitBreaker.isOpen, decide_eq_true_eq]
  dsimp only
  omega

/-- Whether the breaker of the runtime says that it opens. -/
theorem recordFailure_fst (b : CompactionCircuitBreaker) : b.recordFailure.1 = true ↔
    b.isOpen = false ∧ b.recordFailure.2.isOpen = true := by
  unfold CompactionCircuitBreaker.recordFailure
  by_cases hopen : b.isOpen = true
  · simp [hopen]
  · rw [Bool.not_eq_true] at hopen
    rw [if_neg (by simp [hopen])]
    split
    · simpa [CompactionCircuitBreaker.isOpen] using hopen
    · simp [CompactionCircuitBreaker.isOpen]

end After

/-- What the breakers promise each other: after each call they are both open or both closed, open
exactly when enough failures, and at least one, came since the last success; and the breaker of
the runtime tells exactly when it opens. -/
structure Agree (threshold : UInt32) (records : List BreakerRecord) : Prop where
  same : ∀ done, done <+: records → done ≠ [] →
    (runtimeAfter threshold done).isOpen = (coreAfter threshold done).isOpen
  isOpen_iff : ∀ done, done <+: records → done ≠ [] →
    ((runtimeAfter threshold done).isOpen = true ↔ max 1 threshold.toNat ≤ failuresSince done) ∧
      ((coreAfter threshold done).isOpen = true ↔ max 1 threshold.toNat ≤ failuresSince done)
  tells : ∀ done, done ++ [.failure] <+: records →
    ((runtimeAfter threshold done).recordFailure.1 = true ↔
      (runtimeAfter threshold done).isOpen = false ∧
        (runtimeAfter threshold (done ++ [.failure])).isOpen = true)

/-- **The breakers agree exactly when the threshold is at least one or nothing succeeds**: with a
threshold of zero the breaker of the core never closes. -/
theorem agree_iff (threshold : UInt32) (records : List BreakerRecord) :
    Agree threshold records ↔ 1 ≤ threshold.toNat ∨ .success ∉ records := by
  constructor
  · intro h
    by_contra hnot
    push Not at hnot
    obtain ⟨hzero, hsuccess⟩ := hnot
    obtain ⟨before, after, rfl⟩ := List.append_of_mem hsuccess
    have hopen := ((h.isOpen_iff (before ++ [.success]) ⟨after, by simp⟩ (by simp)).2).mp
      ((isOpen_coreAfter threshold _).mpr (by omega))
    rw [failuresSince_success] at hopen
    omega
  · intro h
    have henough : ∀ done, done <+: records → done ≠ [] →
        (threshold.toNat ≤ failuresSince done ↔ max 1 threshold.toNat ≤ failuresSince done) := by
      intro done hdone hne
      rcases h with hpos | hnone
      · rw [Nat.max_eq_right hpos]
      · -- without a success, a call that was made is a failure
        obtain ⟨init, last, rfl⟩ := List.eq_nil_or_concat done |>.resolve_left hne
        rw [List.concat_eq_append] at hdone ⊢
        cases last with
        | success => exact absurd (hdone.subset (by simp)) hnone
        | failure =>
          rw [failuresSince_failure]
          omega
    refine ⟨fun done hdone hne => ?_, fun done hdone hne => ⟨isOpen_runtimeAfter threshold done,
      ?_⟩, fun done _ => ?_⟩
    · rw [Bool.eq_iff_iff, isOpen_runtimeAfter, isOpen_coreAfter, henough done hdone hne]
    · rw [isOpen_coreAfter, henough done hdone hne]
    · rw [runtimeAfter_failure]
      exact recordFailure_fst _

/-- After one success the breaker of the core is open, that of the runtime closed. -/
theorem success_disagrees : ¬ Agree 0 [.success] := by
  intro h
  have hsame := h.same [.success] (List.prefix_refl _) (by simp)
  revert hsame
  decide

end Behest.Compaction
