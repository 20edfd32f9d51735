import Mathlib.Algebra.GroupWithZero.Nat
import Behest.Core.Message

/-!
# Runtime policy

The configuration records the runtime reads, with the defaults of
`behest-runtime/src/policy.rs`. Fields that no modelled function reads are left out.
-/

namespace Behest

/-- Wall-clock length in nanoseconds. -/
structure Duration where
  nanos : Nat
deriving DecidableEq

namespace Duration

def ofSecs (secs : Nat) : Duration := ⟨secs * 1000000000⟩

/-- The decimal digits of a fraction of the given width, without trailing zeros. -/
def fractionDigits (width fraction : Nat) : List Char :=
  let digits := (List.range width).map fun i =>
    Char.ofNat (48 + fraction / 10 ^ (width - 1 - i) % 10)
  (digits.reverse.dropWhile (· == '0')).reverse

/-- A whole part and a fraction of the given width. -/
def decimal (width whole fraction : Nat) : String :=
  let digits := fractionDigits width fraction
  if digits.isEmpty then toString whole else toString whole ++ "." ++ String.ofList digits

/-- `format!("{:?}")` of a duration. -/
def debug (d : Duration) : String :=
  if 1000000000 ≤ d.nanos then
    decimal 9 (d.nanos / 1000000000) (d.nanos % 1000000000) ++ "s"
  else if 1000000 ≤ d.nanos then
    decimal 6 (d.nanos / 1000000) (d.nanos % 1000000) ++ "ms"
  else if 1000 ≤ d.nanos then
    decimal 3 (d.nanos / 1000) (d.nanos % 1000) ++ "µs"
  else toString d.nanos ++ "ns"

end Duration

/-- Source: `behest-runtime/src/policy.rs:21–47`. -/
structure CompactionConfig where
  auto : Bool := true
  keepTokens : Nat := 8000
  tailTurns : Nat := 2
  model : Option String := none
  provider : Option String := none
  circuitBreakerThreshold : Nat := 3

/-- Source: `behest-runtime/src/policy.rs:159–178`. -/
structure PromptCacheConfig where
  enabled : Bool := true
  defaultTtl : CacheTtl := .fiveMinutes
  autoBreakpoints : Bool := true
  minSystemTokens : Nat := 1024

/-- Source: `behest-runtime/src/tool_output.rs:24–31`. -/
structure ToolOutputConfig where
  maxLines : Option Nat := some 2000
  maxBytes : Option Nat := some (50 * 1024)
  outputDir : Option String := none

/-- Source: `behest-runtime/src/doom_loop.rs:16–32`. -/
structure DoomLoopConfig where
  enabled : Bool := true
  consecutiveThreshold : Nat := 3
  minCycleLength : Nat := 2
  maxCycleLength : Nat := 4
  cycleRepetitions : Nat := 2

/-- Source: `behest-runtime/src/input.rs:205–216`. -/
structure InputAdmissionConfig where
  enabled : Bool := true
  rejectEmpty : Bool := true
  deduplicate : Bool := true
  maxLength : Nat := 0

/-- Source: `behest-runtime/src/policy.rs:237–275`. -/
structure RuntimePolicy where
  maxIterations : Nat := 10
  maxTokens : Option Nat := none
  toolTimeout : Duration := .ofSecs 30
  continueOnToolFailure : Bool := true
  compaction : CompactionConfig := {}
  toolOutput : ToolOutputConfig := {}
  doomLoop : DoomLoopConfig := {}
  inputAdmission : InputAdmissionConfig := {}
  maxOutputRecoveryAttempts : Nat := 3

end Behest
