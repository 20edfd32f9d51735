import Behest.Word.Overflow

/-!
# Token budgets

`behest-core/src/budget.rs`: the window that is left for the prompt, the three thresholds in
it, and the level of pressure at a number of tokens. Token counts are `usize` values of 64 bits,
kept as natural numbers; subtraction saturates at zero.
-/

namespace Behest

/-- Source: `budget.rs:46–56`. -/
inductive PressureLevel where
  | normal
  | warning
  | compact
  | blocking
deriving DecidableEq

namespace PressureLevel

/-- The place of a level in the order of the declaration, which `PartialOrd` derives. -/
def rank : PressureLevel → Nat
  | normal => 0
  | warning => 1
  | compact => 2
  | blocking => 3

theorem rank_injective : Function.Injective rank := by
  intro a b h
  cases a <;> cases b <;> first | rfl | cases h

instance : PartialOrder PressureLevel := PartialOrder.lift rank rank_injective

theorem le_iff {a b : PressureLevel} : a ≤ b ↔ a.rank ≤ b.rank := Iff.rfl

end PressureLevel

/-- Source: `budget.rs:62–86`. -/
structure TokenBudget where
  contextWindow : Nat := 100000
  reservedOutput : Nat := 20000
  warningBuffer : Nat := 20000
  compactBuffer : Nat := 13000
  blockingBuffer : Nat := 3000
deriving DecidableEq

/-- Source: `budget.rs:154–163`. -/
structure BudgetThresholds where
  effectiveWindow : Nat
  warningThreshold : Nat
  compactThreshold : Nat
  blockingThreshold : Nat
deriving DecidableEq

/-- Source: `budget.rs:167–190`. -/
structure BudgetState where
  estimatedTokens : Nat
  effectiveWindow : Nat
  warningThreshold : Nat
  compactThreshold : Nat
  blockingThreshold : Nat
  percentUsed : UInt8
  percentRemaining : UInt8
  pressure : PressureLevel
  isAboveWarning : Bool
  isAboveCompact : Bool
  isAboveBlocking : Bool
deriving DecidableEq

/-! ### The computation -/

/-- `MIN_EFFECTIVE_WINDOW`. Source: `budget.rs:40`. -/
def minEffectiveWindow : Nat := 1000

/-- `MIN_PROMPT_BUDGET`. Source: `budget.rs:43`. -/
def minPromptBudget : Nat := 8000

/-- Source: `budget.rs:206–211`. -/
def effectiveReservedOutput (contextWindow reservedOutput : Nat) : Nat :=
  let contextWindow := max contextWindow 1
  let minPrompt := max 1 (min (contextWindow / 2) minPromptBudget)
  let maxReserve := contextWindow - minPrompt
  min reservedOutput maxReserve

/-- Source: `budget.rs:196–201`. -/
def effectiveContextWindow (contextWindow reservedOutput : Nat) : Nat :=
  let reserved := effectiveReservedOutput contextWindow reservedOutput
  max (contextWindow - reserved) minEffectiveWindow

namespace TokenBudget

/-- Source: `budget.rs:92–98`. -/
def new (contextWindow reservedOutput : Nat) : TokenBudget :=
  { contextWindow := max contextWindow minEffectiveWindow, reservedOutput }

/-- Source: `budget.rs:102–116`. -/
def withBuffers (contextWindow reservedOutput warningBuffer compactBuffer blockingBuffer : Nat) :
    TokenBudget :=
  ⟨contextWindow, reservedOutput, warningBuffer, compactBuffer, blockingBuffer⟩

variable (budget : TokenBudget)

/-- Source: `budget.rs:120–122`. -/
def effectiveWindow : Nat := effectiveContextWindow budget.contextWindow budget.reservedOutput

/-- `calculate_thresholds`. Source: `budget.rs:216–238`. -/
def thresholds : BudgetThresholds :=
  let effective := budget.effectiveWindow
  let autoBuffer := min budget.compactBuffer (effective / 3)
  let warnBuffer := min budget.warningBuffer (effective / 3)
  let blockBuffer := max (min budget.blockingBuffer (effective / 10)) 1
  let compactThreshold := max (effective - autoBuffer) 1
  let warningThreshold := min (max (compactThreshold - warnBuffer) 1) compactThreshold
  let blockingThreshold := min (max (effective - blockBuffer) compactThreshold) effective
  ⟨effective, warningThreshold, compactThreshold, blockingThreshold⟩

/-- `calculate_budget_state`. Source: `budget.rs:242–278`. -/
def stateFor (estimatedTokens : Nat) : BudgetState :=
  let thresholds := budget.thresholds
  let used := Word.saturatingMul Word.max64 estimatedTokens 100
  -- `checked_div` gives up on a window of zero
  let percentUsed := UInt8.ofNat (min
    (if thresholds.effectiveWindow = 0 then 100 else used / thresholds.effectiveWindow) 100)
  let percentRemaining := UInt8.ofNat (100 - percentUsed.toNat)
  let isAboveBlocking := decide (thresholds.blockingThreshold ≤ estimatedTokens)
  let isAboveCompact := decide (thresholds.compactThreshold ≤ estimatedTokens)
  let isAboveWarning := decide (thresholds.warningThreshold ≤ estimatedTokens)
  let pressure :=
    if isAboveBlocking then .blocking
    else if isAboveCompact then .compact
    else if isAboveWarning then .warning
    else .normal
  { estimatedTokens
    effectiveWindow := thresholds.effectiveWindow
    warningThreshold := thresholds.warningThreshold
    compactThreshold := thresholds.compactThreshold
    blockingThreshold := thresholds.blockingThreshold
    percentUsed, percentRemaining, pressure, isAboveWarning, isAboveCompact, isAboveBlocking }

/-- Source: `budget.rs:138–143`. -/
def remainingBeforeBlocking (estimatedTokens : Nat) : Nat :=
  budget.thresholds.blockingThreshold - estimatedTokens

end TokenBudget

/-! ### Ordered thresholds -/

/-- Thresholds in the order of the levels they lead to. -/
structure BudgetThresholds.Ordered (t : BudgetThresholds) : Prop where
  warning_pos : 1 ≤ t.warningThreshold
  warning_le_compact : t.warningThreshold ≤ t.compactThreshold
  compact_le_blocking : t.compactThreshold ≤ t.blockingThreshold
  blocking_le_effective : t.blockingThreshold ≤ t.effectiveWindow

/-- The token counts at which a level applies. -/
def PressureLevel.Covers (t : BudgetThresholds) (n : Nat) : PressureLevel → Prop
  | .normal => n < t.warningThreshold
  | .warning => t.warningThreshold ≤ n ∧ n < t.compactThreshold
  | .compact => t.compactThreshold ≤ n ∧ n < t.blockingThreshold
  | .blocking => t.blockingThreshold ≤ n

theorem minEffectiveWindow_le (contextWindow reservedOutput : Nat) :
    minEffectiveWindow ≤ effectiveContextWindow contextWindow reservedOutput :=
  Nat.le_max_right ..

namespace TokenBudget

variable (budget : TokenBudget)

/-- The floor of the window leaves room below the smallest buffer, so no clamp inverts the
order. -/
theorem thresholds_ordered : budget.thresholds.Ordered := by
  have hwindow : 1000 ≤ budget.effectiveWindow := minEffectiveWindow_le ..
  constructor <;> simp only [thresholds] <;> omega

@[simp] theorem thresholds_effectiveWindow :
    budget.thresholds.effectiveWindow = budget.effectiveWindow := rfl

variable {budget} {n m : Nat}

/-- The levels cover every token count, and no count is covered twice. -/
theorem pressure_eq_iff {level : PressureLevel} :
    (budget.stateFor n).pressure = level ↔ level.Covers budget.thresholds n := by
  obtain ⟨-, hcompact, hblocking, -⟩ := budget.thresholds_ordered
  have hpressure : (budget.stateFor n).pressure =
      if budget.thresholds.blockingThreshold ≤ n then .blocking
      else if budget.thresholds.compactThreshold ≤ n then .compact
      else if budget.thresholds.warningThreshold ≤ n then .warning
      else .normal := by simp [stateFor]
  rw [hpressure]
  split_ifs <;> cases level <;> simp only [PressureLevel.Covers, reduceCtorEq, true_iff, false_iff]
    <;> omega

theorem pressure_covers : (budget.stateFor n).pressure.Covers budget.thresholds n :=
  pressure_eq_iff.mp rfl

/-- More tokens are never at a lower level: the ranges follow each other. -/
theorem pressure_mono (h : n ≤ m) :
    (budget.stateFor n).pressure ≤ (budget.stateFor m).pressure := by
  obtain ⟨-, hcompact, hblocking, -⟩ := budget.thresholds_ordered
  have hn : (budget.stateFor n).pressure.Covers budget.thresholds n := pressure_covers
  have hm : (budget.stateFor m).pressure.Covers budget.thresholds m := pressure_covers
  rw [PressureLevel.le_iff]
  cases hn' : (budget.stateFor n).pressure <;> cases hm' : (budget.stateFor m).pressure <;>
    simp only [hn', hm', PressureLevel.Covers] at hn hm <;> simp only [PressureLevel.rank] <;> omega

/-- No token is left before the last threshold exactly at the last level. -/
theorem remainingBeforeBlocking_eq_zero_iff :
    budget.remainingBeforeBlocking n = 0 ↔ (budget.stateFor n).pressure = .blocking := by
  rw [pressure_eq_iff, remainingBeforeBlocking, Nat.sub_eq_zero_iff_le]
  rfl

/-- The percentage as a number, before it is narrowed. -/
theorem toNat_percentUsed : (budget.stateFor n).percentUsed.toNat =
    min (Word.saturatingMul Word.max64 n 100 / budget.effectiveWindow) 100 := by
  have hwindow : 1000 ≤ budget.effectiveWindow := minEffectiveWindow_le ..
  have hpos : budget.effectiveWindow ≠ 0 := by omega
  have hpercent : (budget.stateFor n).percentUsed = UInt8.ofNat (min
      (if budget.effectiveWindow = 0 then 100
        else Word.saturatingMul Word.max64 n 100 / budget.effectiveWindow) 100) := rfl
  have hbyte (k : Nat) : min k 100 < UInt8.size :=
    Nat.lt_of_le_of_lt (Nat.min_le_right ..) (by decide)
  rw [hpercent, if_neg hpos]
  exact UInt8.toNat_ofNat_of_lt' (hbyte _)

theorem percentUsed_le : (budget.stateFor n).percentUsed.toNat ≤ 100 := by
  rw [toNat_percentUsed]
  exact Nat.min_le_right ..

/-- Near the largest value the product saturates, and the percentage stays where it is. -/
theorem percentUsed_mono (h : n ≤ m) :
    (budget.stateFor n).percentUsed ≤ (budget.stateFor m).percentUsed := by
  rw [UInt8.le_iff_toNat_le, toNat_percentUsed, toNat_percentUsed]
  exact min_le_min_right _ (Nat.div_le_div_right (Word.saturatingMul_mono _ _ h))

theorem toNat_percentRemaining : (budget.stateFor n).percentRemaining.toNat =
    100 - (budget.stateFor n).percentUsed.toNat :=
  UInt8.toNat_ofNat_of_lt' (Nat.lt_of_le_of_lt (Nat.sub_le ..) (by decide))

/-- **In every budget the thresholds are ordered, and pressure and percentage rise with the
number of tokens**. -/
theorem stateFor_ordered (budget : TokenBudget) :
    budget.thresholds.Ordered ∧
      (∀ n level, (budget.stateFor n).pressure = level ↔ level.Covers budget.thresholds n) ∧
      (∀ n m, n ≤ m → (budget.stateFor n).pressure ≤ (budget.stateFor m).pressure) ∧
      (budget.stateFor budget.effectiveWindow).pressure = .blocking ∧
      (∀ n m, n ≤ m → (budget.stateFor n).percentUsed ≤ (budget.stateFor m).percentUsed) ∧
      ∀ n, (budget.stateFor n).percentUsed.toNat ≤ 100 ∧
        (budget.stateFor n).percentUsed.toNat + (budget.stateFor n).percentRemaining.toNat =
          100 := by
  refine ⟨budget.thresholds_ordered, fun n level => pressure_eq_iff,
    fun n m => pressure_mono, ?_, fun n m => percentUsed_mono, fun n => ⟨percentUsed_le, ?_⟩⟩
  · exact pressure_eq_iff.mpr budget.thresholds_ordered.blocking_le_effective
  · rw [toNat_percentRemaining]
    exact Nat.add_sub_cancel' percentUsed_le

end TokenBudget

/-! ### Prompt and answer in one window -/

/-- The reserve leaves half of the window for the prompt, or the minimum of the prompt. -/
theorem effectiveReservedOutput_le (contextWindow reservedOutput : Nat) :
    effectiveReservedOutput contextWindow reservedOutput + min (contextWindow / 2) minPromptBudget ≤
      contextWindow := by
  simp only [effectiveReservedOutput, minPromptBudget]
  omega

/-- What the two share is the context window, unless the floor of the prompt is more than what
the reserve leaves. -/
theorem effectiveContextWindow_add_reserved (contextWindow reservedOutput : Nat) :
    effectiveContextWindow contextWindow reservedOutput +
        effectiveReservedOutput contextWindow reservedOutput =
      max contextWindow
        (minEffectiveWindow + effectiveReservedOutput contextWindow reservedOutput) := by
  have hle := effectiveReservedOutput_le contextWindow reservedOutput
  unfold effectiveContextWindow
  dsimp only
  omega

namespace TokenBudget

/-- **A prompt within the effective window and the reserved output fit the context window together
exactly when the reserve leaves the floor of the prompt, as it does in every window of two
floors**. -/
theorem prompt_add_reserved_le_iff (budget : TokenBudget) :
    let reserved := effectiveReservedOutput budget.contextWindow budget.reservedOutput
    budget.effectiveWindow + reserved =
        max budget.contextWindow (minEffectiveWindow + reserved) ∧
      ((∀ n ≤ budget.effectiveWindow, n + reserved ≤ budget.contextWindow) ↔
        minEffectiveWindow + reserved ≤ budget.contextWindow) ∧
      (2 * minEffectiveWindow ≤ budget.contextWindow →
        minEffectiveWindow + reserved ≤ budget.contextWindow) := by
  dsimp only
  have hsum := effectiveContextWindow_add_reserved budget.contextWindow budget.reservedOutput
  refine ⟨hsum, ⟨fun h => ?_, fun h n hn => ?_⟩, fun h => ?_⟩
  · have hall := h budget.effectiveWindow (Nat.le_refl _)
    unfold effectiveWindow at hall
    omega
  · unfold effectiveWindow at hn
    omega
  · have hle := effectiveReservedOutput_le budget.contextWindow budget.reservedOutput
    simp only [minEffectiveWindow, minPromptBudget] at h hle ⊢
    omega

/-- A small window is promised to the prompt twice, whichever way the budget is made. -/
theorem smallWindow_overrun :
    let small := withBuffers 500 0 0 0 0
    let clamped := new 1500 1000
    small.contextWindow <
        small.effectiveWindow +
          effectiveReservedOutput small.contextWindow small.reservedOutput ∧
      clamped.contextWindow <
        clamped.effectiveWindow +
          effectiveReservedOutput clamped.contextWindow clamped.reservedOutput := by
  decide

end TokenBudget

end Behest
