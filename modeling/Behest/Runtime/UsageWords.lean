import Mathlib.Algebra.Order.BigOperators.Group.List
import Behest.RunStore.State
import Behest.Word.Overflow

/-!
# Token counts as words

Token counts are 64-bit words. The usage of a run (`behest-core/src/message.rs`,
`behest-runtime/src/state.rs`) is added up with plain additions, the cache statistics
(`behest-runtime/src/cache_stats.rs`) with saturating ones, whose totals are then added plainly.
-/

namespace Behest

open Word

variable (mode : Overflow)

/-! ### The usage of a run -/

namespace TokenUsage

/-- Source: `message.rs:361–370`. -/
def newWords (inputTokens outputTokens : Nat) : Option TokenUsage :=
  (add mode max64 inputTokens outputTokens).map fun totalTokens =>
    { new inputTokens outputTokens with totalTokens }

/-- Source: `message.rs:426–432`. -/
def addOptWords : Option Nat → Option Nat → Option (Option Nat)
  | none, none => some none
  | some x, none => some (some x)
  | none, some y => some (some y)
  | some x, some y => (add mode max64 x y).map some

/-- Source: `message.rs:405–423`. -/
def mergeWords (a b : TokenUsage) : Option TokenUsage := do
  let inputTokens ← add mode max64 a.inputTokens b.inputTokens
  let outputTokens ← add mode max64 a.outputTokens b.outputTokens
  let input ← add mode max64 a.inputTokens b.inputTokens
  let input ← add mode max64 input a.outputTokens
  let totalTokens ← add mode max64 input b.outputTokens
  let creation ← addOptWords mode a.cacheCreationInputTokens b.cacheCreationInputTokens
  let read ← addOptWords mode a.cacheReadInputTokens b.cacheReadInputTokens
  let cached ← addOptWords mode a.cachedInputTokens b.cachedInputTokens
  return ⟨inputTokens, outputTokens, totalTokens, creation, read, cached⟩

/-- Every count cut off at the largest word. -/
def saturated (u : TokenUsage) : TokenUsage where
  inputTokens := min u.inputTokens max64
  outputTokens := min u.outputTokens max64
  totalTokens := min u.totalTokens max64
  cacheCreationInputTokens := u.cacheCreationInputTokens.map (min · max64)
  cacheReadInputTokens := u.cacheReadInputTokens.map (min · max64)
  cachedInputTokens := u.cachedInputTokens.map (min · max64)

/-- Every total is a word. -/
structure Fits (u : TokenUsage) : Prop where
  total : u.totalTokens ≤ max64
  creation : u.cacheCreationInputTokens.getD 0 ≤ max64
  read : u.cacheReadInputTokens.getD 0 ≤ max64
  cached : u.cachedInputTokens.getD 0 ≤ max64

/-- The sum of what is there, if anything is. -/
def sumOpt (counts : List (Option Nat)) : Option Nat :=
  match counts.filterMap id with
  | [] => none
  | there => some there.sum

/-- The true sums of some usages. -/
def summed (usages : List TokenUsage) : TokenUsage where
  inputTokens := (usages.map (·.inputTokens)).sum
  outputTokens := (usages.map (·.outputTokens)).sum
  totalTokens := (usages.map (·.inputTokens)).sum + (usages.map (·.outputTokens)).sum
  cacheCreationInputTokens := sumOpt (usages.map (·.cacheCreationInputTokens))
  cacheReadInputTokens := sumOpt (usages.map (·.cacheReadInputTokens))
  cachedInputTokens := sumOpt (usages.map (·.cachedInputTokens))

end TokenUsage

/-- Plain sums of usages; everything else is `apply`. Source: `state.rs:93–159`. -/
def RunState.applyWords (s : RunState) : AgentEvent → Option RunState
  | .usageRecorded _ usage =>
      (s.totalUsage.mergeWords mode usage).map fun total => { s with totalUsage := total }
  | event => some (s.apply event)

/-- The usages that are reported in a run. -/
def usages (events : List AgentEvent) : List TokenUsage :=
  events.filterMap fun
    | .usageRecorded _ usage => some usage
    | _ => none

/-! ### Cache statistics -/

/-- Source: `cache_stats.rs:41–62`. -/
@[ext] structure CacheStats where
  callCount : Nat
  totalInputTokens : Nat
  totalOutputTokens : Nat
  totalCacheCreationInputTokens : Nat
  totalCacheReadInputTokens : Nat
  totalCachedInputTokens : Nat
deriving DecidableEq

namespace CacheStats

/-- Source: `cache_stats.rs:75–102`. -/
def step (stats : CacheStats) : AgentEvent → CacheStats
  | .usageRecorded _ usage =>
      { stats with
        callCount := saturatingAdd max64 stats.callCount 1
        totalInputTokens := saturatingAdd max64 stats.totalInputTokens usage.inputTokens
        totalOutputTokens := saturatingAdd max64 stats.totalOutputTokens usage.outputTokens }
  | .cacheMetrics _ creation read cached =>
      { stats with
        totalCacheCreationInputTokens :=
          saturatingAdd max64 stats.totalCacheCreationInputTokens creation
        totalCacheReadInputTokens := saturatingAdd max64 stats.totalCacheReadInputTokens read
        totalCachedInputTokens := saturatingAdd max64 stats.totalCachedInputTokens cached }
  | _ => stats

/-- Source: `cache_stats.rs:72–104`. -/
def fromEvents (events : List AgentEvent) : CacheStats := events.foldl step ⟨0, 0, 0, 0, 0, 0⟩

/-- Source: `cache_stats.rs:120–124`. -/
def totalCacheTokens (stats : CacheStats) : Option Nat := do
  let cacheTokens ←
    add mode max64 stats.totalCacheCreationInputTokens stats.totalCacheReadInputTokens
  add mode max64 cacheTokens stats.totalCachedInputTokens

/-- The two numbers whose quotient is returned, or zero where the second is zero.
Source: `cache_stats.rs:137–144`. -/
def cacheHitRate (stats : CacheStats) : Option (Nat × Nat) := do
  let hits ← add mode max64 stats.totalCacheReadInputTokens stats.totalCachedInputTokens
  let cacheTokens ← stats.totalCacheTokens mode
  let total ← add mode max64 stats.totalInputTokens cacheTokens
  return (hits, total)

/-- Source: `cache_stats.rs:153–172`. -/
def merge (a b : CacheStats) : CacheStats where
  callCount := saturatingAdd max64 a.callCount b.callCount
  totalInputTokens := saturatingAdd max64 a.totalInputTokens b.totalInputTokens
  totalOutputTokens := saturatingAdd max64 a.totalOutputTokens b.totalOutputTokens
  totalCacheCreationInputTokens :=
    saturatingAdd max64 a.totalCacheCreationInputTokens b.totalCacheCreationInputTokens
  totalCacheReadInputTokens :=
    saturatingAdd max64 a.totalCacheReadInputTokens b.totalCacheReadInputTokens
  totalCachedInputTokens :=
    saturatingAdd max64 a.totalCachedInputTokens b.totalCachedInputTokens

/-- Every count cut off at the largest word. -/
def saturated (s : CacheStats) : CacheStats where
  callCount := min s.callCount max64
  totalInputTokens := min s.totalInputTokens max64
  totalOutputTokens := min s.totalOutputTokens max64
  totalCacheCreationInputTokens := min s.totalCacheCreationInputTokens max64
  totalCacheReadInputTokens := min s.totalCacheReadInputTokens max64
  totalCachedInputTokens := min s.totalCachedInputTokens max64

instance : Zero CacheStats := ⟨⟨0, 0, 0, 0, 0, 0⟩⟩

/-- Exact sums of statistics. -/
instance : Add CacheStats where
  add a b := ⟨a.callCount + b.callCount, a.totalInputTokens + b.totalInputTokens,
    a.totalOutputTokens + b.totalOutputTokens,
    a.totalCacheCreationInputTokens + b.totalCacheCreationInputTokens,
    a.totalCacheReadInputTokens + b.totalCacheReadInputTokens,
    a.totalCachedInputTokens + b.totalCachedInputTokens⟩

instance : AddCommMonoid CacheStats where
  add_assoc a b c := CacheStats.ext (Nat.add_assoc ..) (Nat.add_assoc ..) (Nat.add_assoc ..)
    (Nat.add_assoc ..) (Nat.add_assoc ..) (Nat.add_assoc ..)
  add_comm a b := CacheStats.ext (Nat.add_comm ..) (Nat.add_comm ..) (Nat.add_comm ..)
    (Nat.add_comm ..) (Nat.add_comm ..) (Nat.add_comm ..)
  zero_add a := CacheStats.ext (Nat.zero_add _) (Nat.zero_add _) (Nat.zero_add _)
    (Nat.zero_add _) (Nat.zero_add _) (Nat.zero_add _)
  add_zero _ := rfl
  nsmul := nsmulRec

/-- What one event counts for. -/
def ofEvent : AgentEvent → CacheStats
  | .usageRecorded _ usage => ⟨1, usage.inputTokens, usage.outputTokens, 0, 0, 0⟩
  | .cacheMetrics _ creation read cached => ⟨0, 0, 0, creation, read, cached⟩
  | _ => 0

/-- The true sums over some events. -/
def exact (events : List AgentEvent) : CacheStats := (events.map ofEvent).sum

end CacheStats

variable {mode : Overflow}

/-! ### Plain sums -/

namespace TokenUsage

theorem filterMap_id_concat (counts : List (Option Nat)) (count : Option Nat) :
    (counts ++ [count]).filterMap id = counts.filterMap id ++ count.toList := by
  cases count <;> simp

/-- One count more. -/
theorem sumOpt_concat (counts : List (Option Nat)) (count : Option Nat) :
    sumOpt (counts ++ [count]) = addOpt (sumOpt counts) count := by
  unfold sumOpt
  rw [filterMap_id_concat]
  cases counts.filterMap id <;> cases count <;> simp [addOpt, Nat.add_assoc]

theorem sumOpt_perm {counts others : List (Option Nat)} (h : counts.Perm others) :
    sumOpt counts = sumOpt others := by
  have hperm := h.filterMap id
  unfold sumOpt
  generalize counts.filterMap id = there at hperm
  generalize others.filterMap id = there' at hperm
  cases there with
  | nil => rw [List.nil_perm.mp hperm]
  | cons x rest =>
    cases there' with
    | nil => cases hperm.length_eq
    | cons y rest' => exact congrArg some hperm.sum_eq

theorem getD_addOpt (a b : Option Nat) : (addOpt a b).getD 0 = a.getD 0 + b.getD 0 := by
  cases a <;> cases b <;> simp [addOpt]

/-- The true sums, one usage after the other. -/
theorem summed_concat (usages : List TokenUsage) (u : TokenUsage) :
    summed (usages ++ [u]) = (summed usages).merge u := by
  simp only [summed, merge, List.map_append, List.map_cons, List.map_nil, List.sum_append,
    List.sum_cons, List.sum_nil, Nat.add_zero, sumOpt_concat]
  congr 1
  omega

theorem summed_perm {usages others : List TokenUsage} (h : usages.Perm others) :
    summed usages = summed others := by
  simp only [summed, (h.map _).sum_eq, sumOpt_perm (h.map _)]

theorem addOptWords_of_le {a b : Option Nat} (h : (addOpt a b).getD 0 ≤ max64) :
    addOptWords mode a b = some (addOpt a b) := by
  rw [getD_addOpt] at h
  cases a <;> cases b <;> simp [addOptWords, addOpt]
  exact add_of_le h

theorem addOptWords_panics {a b c : Option Nat} (h : addOptWords .panics a b = some c) :
    c = addOpt a b := by
  cases a <;> cases b <;> simp_all [addOptWords, addOpt, add_panics_eq_some_iff]

/-- A merge whose totals are words is exact. -/
theorem mergeWords_of_fits {a b : TokenUsage} (h : (a.merge b).Fits) :
    a.mergeWords mode b = some (a.merge b) := by
  have htotal : a.inputTokens + b.inputTokens + a.outputTokens + b.outputTokens ≤ max64 := h.total
  have hinput : a.inputTokens + b.inputTokens ≤ max64 := by omega
  have houtput : a.outputTokens + b.outputTokens ≤ max64 := by omega
  have hboth : a.inputTokens + b.inputTokens + a.outputTokens ≤ max64 := by omega
  simp only [mergeWords, add_of_le hinput, add_of_le houtput, add_of_le hboth, add_of_le htotal,
    addOptWords_of_le h.creation, addOptWords_of_le h.read, addOptWords_of_le h.cached,
    Option.bind_eq_bind, Option.bind_some, Option.pure_def]
  rfl

/-- A merge that does not panic is exact. -/
theorem mergeWords_panics {a b c : TokenUsage} (h : a.mergeWords .panics b = some c) :
    c = a.merge b := by
  simp only [mergeWords, Option.bind_eq_bind, Option.bind_eq_some_iff, Option.pure_def,
    add_panics_eq_some_iff, Option.some.injEq] at h
  obtain ⟨_, ⟨-, rfl⟩, _, ⟨-, rfl⟩, _, ⟨-, rfl⟩, _, ⟨-, rfl⟩, _, ⟨-, rfl⟩, _, hcreation, _, hread,
    _, hcached, rfl⟩ := h
  rw [addOptWords_panics hcreation, addOptWords_panics hread, addOptWords_panics hcached]
  rfl

/-- Fewer usages fit as well. -/
theorem fits_of_concat {usages : List TokenUsage} {u : TokenUsage}
    (h : (summed (usages ++ [u])).Fits) : (summed usages).Fits := by
  rw [summed_concat] at h
  obtain ⟨htotal, hcreation, hread, hcached⟩ := h
  simp only [merge, getD_addOpt] at htotal hcreation hread hcached
  refine ⟨?_, by omega, by omega, by omega⟩
  change (summed usages).inputTokens + (summed usages).outputTokens ≤ max64
  omega

theorem Fits.saturated {u : TokenUsage} (h : u.Fits) (hinput : u.inputTokens ≤ max64)
    (houtput : u.outputTokens ≤ max64) : u.saturated = u := by
  have hcount : ∀ count : Option Nat, count.getD 0 ≤ max64 → count.map (min · max64) = count := by
    intro count hcount
    cases count with
    | none => rfl
    | some n => exact congrArg some (min_eq_left hcount)
  rw [TokenUsage.saturated, min_eq_left hinput, min_eq_left houtput, min_eq_left h.total,
    hcount _ h.creation, hcount _ h.read, hcount _ h.cached]

/-- Sums that fit are not cut off. -/
theorem saturated_summed_of_fits {usages : List TokenUsage} (h : (summed usages).Fits) :
    (summed usages).saturated = summed usages := by
  have htotal : (summed usages).inputTokens + (summed usages).outputTokens ≤ max64 := h.total
  exact h.saturated (by omega) (by omega)

/-- Only sums that fit are not cut off. -/
theorem fits_of_saturated_eq {u : TokenUsage} (h : u.saturated = u) : u.Fits := by
  have hcount : ∀ count : Option Nat, count.map (min · max64) = count → count.getD 0 ≤ max64 := by
    intro count hcount
    cases count with
    | none => exact Nat.zero_le _
    | some n => exact min_eq_left_iff.mp (Option.some.inj hcount)
  exact ⟨min_eq_left_iff.mp (congrArg totalTokens h),
    hcount _ (congrArg cacheCreationInputTokens h), hcount _ (congrArg cacheReadInputTokens h),
    hcount _ (congrArg cachedInputTokens h)⟩

end TokenUsage

namespace RunState

open TokenUsage

theorem usages_concat (events : List AgentEvent) (event : AgentEvent) :
    usages (events ++ [event]) = usages events ++ usages [event] :=
  List.filterMap_append

/-- The usage of a run is the sum of those reported. -/
theorem totalUsage_foldl (record : RunRecord) (n : Nat) (events : List AgentEvent) :
    (events.foldl apply (blank record n)).totalUsage = summed (usages events) := by
  induction events using List.reverseRecOn with
  | nil => rfl
  | append_singleton events event ih =>
    rw [List.foldl_concat, usages_concat]
    cases event with
    | usageRecorded runId usage =>
      rw [apply, ih]
      exact (summed_concat _ usage).symm
    | _ => simpa [apply, usages] using ih

theorem applyWords_panics {s s' : RunState} {event : AgentEvent}
    (h : s.applyWords .panics event = some s') : s' = s.apply event := by
  cases event with
  | usageRecorded runId usage =>
    obtain ⟨total, htotal, rfl⟩ := Option.map_eq_some_iff.mp h
    rw [mergeWords_panics htotal]
    rfl
  | _ => exact (Option.some.inj h).symm

/-- A run whose sums do not panic is exact. -/
theorem foldlM_panics {s s' : RunState} {events : List AgentEvent}
    (h : events.foldlM (applyWords .panics) s = some s') : s' = events.foldl apply s := by
  induction events generalizing s with
  | nil => exact (Option.some.inj h).symm
  | cons event rest ih =>
    rw [List.foldlM_cons, Option.bind_eq_bind, Option.bind_eq_some_iff] at h
    obtain ⟨next, hnext, hrest⟩ := h
    rw [ih hrest, applyWords_panics hnext, List.foldl_cons]

/-- A run whose sums are words is exact. -/
theorem foldlM_of_fits {record : RunRecord} {n : Nat} {events : List AgentEvent}
    (h : (summed (usages events)).Fits) : events.foldlM (applyWords mode) (blank record n) =
      some (events.foldl apply (blank record n)) := by
  induction events using List.reverseRecOn with
  | nil => rfl
  | append_singleton events event ih =>
    rw [usages_concat] at h
    rw [List.foldlM_append, List.foldl_concat]
    cases event with
    | usageRecorded runId usage =>
      rw [ih (fits_of_concat h)]
      change (summed (usages events ++ [usage])).Fits at h
      rw [summed_concat, ← totalUsage_foldl record n] at h
      simp only [List.foldlM_cons, List.foldlM_nil, Option.bind_eq_bind, Option.bind_some,
        applyWords, mergeWords_of_fits h, Option.map_some]
      rfl
    | _ =>
      rw [ih (by simpa [usages] using h)]
      rfl

end RunState

/-! ### Saturating sums -/

namespace CacheStats

theorem saturatingAdd_min (a b : Nat) :
    saturatingAdd max64 (min a max64) b = min (a + b) max64 := by
  unfold saturatingAdd
  omega

theorem saturatingAdd_min_min (a b : Nat) :
    saturatingAdd max64 (min a max64) (min b max64) = min (a + b) max64 := by
  unfold saturatingAdd
  omega

/-- One event, counted exactly and cut off afterwards. -/
theorem step_saturated (s : CacheStats) (event : AgentEvent) :
    s.saturated.step event = (s + ofEvent event).saturated := by
  cases event with
  | usageRecorded runId usage => simp only [step, saturated, saturatingAdd_min]; rfl
  | cacheMetrics runId creation read cached => simp only [step, saturated, saturatingAdd_min]; rfl
  | _ => rfl

/-- Statistics are the true sums, cut off. -/
theorem fromEvents_eq (events : List AgentEvent) :
    fromEvents events = (exact events).saturated := by
  induction events using List.reverseRecOn with
  | nil => rfl
  | append_singleton events event ih =>
    have hconcat : exact (events ++ [event]) = exact events + ofEvent event := by
      rw [exact, List.map_append, List.sum_append, List.map_singleton, List.sum_singleton]
      rfl
    rw [hconcat, ← step_saturated, ← ih]
    exact List.foldl_concat ..

theorem exact_perm {events others : List AgentEvent} (h : events.Perm others) :
    exact events = exact others := (h.map ofEvent).sum_eq

theorem merge_saturated (a b : CacheStats) :
    a.saturated.merge b.saturated = (a + b).saturated := by
  simp only [merge, saturated, saturatingAdd_min_min]
  rfl

theorem merge_fromEvents (front back : List AgentEvent) :
    (fromEvents front).merge (fromEvents back) = (exact (front ++ back)).saturated := by
  rw [fromEvents_eq, fromEvents_eq, merge_saturated, exact, exact, exact, List.map_append,
    List.sum_append]

/-- The tokens that the hit rate is a part of, and all of them. -/
def hitTokens (s : CacheStats) : Nat × Nat :=
  (s.totalCacheReadInputTokens + s.totalCachedInputTokens,
    s.totalInputTokens + (s.totalCacheCreationInputTokens + s.totalCacheReadInputTokens +
      s.totalCachedInputTokens))

theorem totalCacheTokens_of_le {s : CacheStats} (h : s.hitTokens.2 ≤ max64) :
    s.totalCacheTokens mode = some (s.totalCacheCreationInputTokens +
      s.totalCacheReadInputTokens + s.totalCachedInputTokens) := by
  unfold hitTokens at h
  rw [totalCacheTokens, add_of_le (by omega), Option.bind_eq_bind, Option.bind_some,
    add_of_le (by omega)]

theorem cacheHitRate_of_le {s : CacheStats} (h : s.hitTokens.2 ≤ max64) :
    s.cacheHitRate mode = some s.hitTokens := by
  have hcache := @totalCacheTokens_of_le mode s h
  unfold hitTokens at h
  rw [cacheHitRate, add_of_le (by omega), hcache]
  simp only [Option.bind_eq_bind, Option.bind_some, add_of_le h]
  rfl

/-- A hit rate that does not panic comes from words. -/
theorem hitTokens_le_of_panics {s : CacheStats} {tokens : Nat × Nat}
    (h : s.cacheHitRate .panics = some tokens) : s.hitTokens.2 ≤ max64 := by
  simp only [cacheHitRate, totalCacheTokens, Option.bind_eq_bind, Option.bind_eq_some_iff,
    add_panics_eq_some_iff] at h
  obtain ⟨_, -, _, ⟨_, ⟨-, rfl⟩, -, rfl⟩, _, ⟨htotal, rfl⟩, -⟩ := h
  exact htotal

/-- Totals of cut off counts that are words are themselves cut off totals. -/
theorem hitTokens_saturated {s : CacheStats} (h : s.saturated.hitTokens.2 ≤ max64) :
    s.saturated.hitTokens = (min s.hitTokens.1 max64, min s.hitTokens.2 max64) := by
  simp only [hitTokens, saturated] at h ⊢
  rw [Prod.mk.injEq]
  omega

end CacheStats

/-! ### All additions of a run -/

/-- No addition exceeds a word, and what is added up is the true sum, cut off at the largest word,
in every order of the events. Where overflow panics, a result means that nothing has overflowed. -/
structure UsageSound (record : RunRecord) (events : List AgentEvent) : Prop where
  reported : ∀ mode, ∀ usage ∈ usages events,
    TokenUsage.newWords mode usage.inputTokens usage.outputTokens =
      some (TokenUsage.new usage.inputTokens usage.outputTokens).saturated
  state : ∀ mode, ∀ order : List AgentEvent, order.Perm events →
    (order.foldlM (RunState.applyWords mode) (RunState.blank record order.length)).map
        RunState.totalUsage =
      some (TokenUsage.summed (usages events)).saturated
  stats : ∀ order : List AgentEvent, order.Perm events →
    CacheStats.fromEvents order = (CacheStats.exact events).saturated
  merged : ∀ front back : List AgentEvent, (front ++ back).Perm events →
    (CacheStats.fromEvents front).merge (CacheStats.fromEvents back) =
      (CacheStats.exact events).saturated
  cacheTokens : ∀ mode, ∀ order : List AgentEvent, order.Perm events →
    (CacheStats.fromEvents order).totalCacheTokens mode =
      some (min ((CacheStats.exact events).totalCacheCreationInputTokens +
        (CacheStats.exact events).totalCacheReadInputTokens +
        (CacheStats.exact events).totalCachedInputTokens) max64)
  hitRate : ∀ mode, ∀ order : List AgentEvent, order.Perm events →
    (CacheStats.fromEvents order).cacheHitRate mode =
      some (min (CacheStats.exact events).hitTokens.1 max64,
        min (CacheStats.exact events).hitTokens.2 max64)

/-- The sums of what is reported are words, and so is the sum of all input tokens, each kind cut
off at the largest word. -/
structure UsageFits (events : List AgentEvent) : Prop where
  usage : (TokenUsage.summed (usages events)).Fits
  processed : (CacheStats.exact events).saturated.hitTokens.2 ≤ max64

theorem UsageSound.fits {record : RunRecord} {events : List AgentEvent}
    (h : UsageSound record events) : UsageFits events := by
  constructor
  · obtain ⟨s, hs, htotal⟩ := Option.map_eq_some_iff.mp (h.state .panics events (.refl _))
    rw [RunState.foldlM_panics hs, RunState.totalUsage_foldl] at htotal
    exact TokenUsage.fits_of_saturated_eq htotal.symm
  · rw [← h.stats events (.refl _)]
    exact CacheStats.hitTokens_le_of_panics (h.hitRate .panics events (.refl _))

theorem newWords_of_le {inputTokens outputTokens : Nat}
    (h : inputTokens + outputTokens ≤ max64) :
    TokenUsage.newWords mode inputTokens outputTokens =
      some (TokenUsage.new inputTokens outputTokens).saturated := by
  have hfits : (TokenUsage.new inputTokens outputTokens).Fits :=
    ⟨h, Nat.zero_le _, Nat.zero_le _, Nat.zero_le _⟩
  rw [hfits.saturated (le_of_add_le_left h) (le_of_add_le_right h), TokenUsage.newWords,
    add_of_le h]
  rfl

theorem usages_perm {events others : List AgentEvent} (h : events.Perm others) :
    (usages events).Perm (usages others) := h.filterMap _

theorem UsageFits.sound {events : List AgentEvent} (h : UsageFits events) (record : RunRecord) :
    UsageSound record events where
  reported mode usage hmem := by
    refine newWords_of_le ?_
    have hinput : usage.inputTokens ≤ (TokenUsage.summed (usages events)).inputTokens :=
      List.single_le_sum (fun _ _ => Nat.zero_le _) _ (List.mem_map_of_mem hmem)
    have houtput : usage.outputTokens ≤ (TokenUsage.summed (usages events)).outputTokens :=
      List.single_le_sum (fun _ _ => Nat.zero_le _) _ (List.mem_map_of_mem hmem)
    exact (Nat.add_le_add hinput houtput).trans h.usage.total
  state mode order hperm := by
    have hsum := TokenUsage.summed_perm (usages_perm hperm)
    have hfits : (TokenUsage.summed (usages order)).Fits := hsum ▸ h.usage
    rw [RunState.foldlM_of_fits hfits, Option.map_some, RunState.totalUsage_foldl, hsum,
      TokenUsage.saturated_summed_of_fits h.usage]
  stats order hperm := by rw [CacheStats.fromEvents_eq, CacheStats.exact_perm hperm]
  merged front back hperm := by rw [CacheStats.merge_fromEvents, CacheStats.exact_perm hperm]
  cacheTokens mode order hperm := by
    rw [CacheStats.fromEvents_eq, CacheStats.exact_perm hperm,
      CacheStats.totalCacheTokens_of_le h.processed]
    have hprocessed := h.processed
    simp only [CacheStats.hitTokens, CacheStats.saturated] at hprocessed ⊢
    congr 1
    omega
  hitRate mode order hperm := by
    rw [CacheStats.fromEvents_eq, CacheStats.exact_perm hperm,
      CacheStats.cacheHitRate_of_le h.processed, CacheStats.hitTokens_saturated h.processed]

/-- The additions over the events of a run are sound exactly when the sums fit. -/
theorem usageSound_iff (record : RunRecord) (events : List AgentEvent) :
    UsageSound record events ↔ UsageFits events :=
  ⟨UsageSound.fits, fun h => h.sound record⟩

/-- A run of two reports, each of them all words. -/
def reportedRun : RunRecord :=
  ⟨Uuid.nil, Uuid.nil, .pending, "provider", "model", .null, none, 0, 0⟩

def twoReports : List AgentEvent :=
  [.usageRecorded Uuid.nil (.new max64 0), .usageRecorded Uuid.nil (.new 1 0)]

/-- Their sum is not a word. -/
theorem twoReports_overflow :
    twoReports.foldlM (RunState.applyWords .panics) (.blank reportedRun 2) = none ∧
      ¬UsageSound reportedRun twoReports := by
  have hnone : twoReports.foldlM (RunState.applyWords .panics) (.blank reportedRun 2) = none := rfl
  refine ⟨hnone, fun h => ?_⟩
  have hstate := h.state .panics twoReports (.refl _)
  rw [show twoReports.length = 2 from rfl, hnone] at hstate
  cases hstate

end Behest
