import Mathlib.Data.List.Sort
import Behest.Runtime.Policy

/-!
# Doom loop detection

`behest-runtime/src/doom_loop.rs`: a history of call fingerprints, searched after each call
for a run of equal calls and then for a repeated cycle. The hasher of the standard library
is a parameter.
-/

namespace Behest

namespace ToolCallFingerprint

mutual

/-- Sort the keys of every object, at every depth. Source: `doom_loop.rs:132–146`. -/
def canonicalize : Value → Value
  | .object fields => .object ((canonicalizeFields fields).insertionSort fun a b => a.1 ≤ b.1)
  | .array items => .array (canonicalizeItems items)
  | .null => .null
  | .bool b => .bool b
  | .number literal => .number literal
  | .string s => .string s

def canonicalizeItems : List Value → List Value
  | [] => []
  | v :: rest => canonicalize v :: canonicalizeItems rest

def canonicalizeFields : List (String × Value) → List (String × Value)
  | [] => []
  | (k, v) :: rest => (k, canonicalize v) :: canonicalizeFields rest

end

/-- Source: `doom_loop.rs:119–129`. -/
def fromToolCall (hash : String → Value → Nat) (name : String) (arguments : Value) : Nat :=
  hash name (canonicalize arguments)

end ToolCallFingerprint

/-- Source: `doom_loop.rs:151–166`. -/
inductive DoomLoopType where
  | consecutiveDuplicate (toolName : String) (count : Nat)
  | cycle (pattern : List String) (repetitions : Nat)

/-- The description shown for a loop. Source: `run_loop.rs:564–576`. -/
def DoomLoopType.description : DoomLoopType → String
  | consecutiveDuplicate toolName count =>
      "consecutive duplicate: " ++ toolName ++ " called " ++ toString count ++ " times"
  | cycle pattern repetitions =>
      "cycle detected: [" ++ String.intercalate ", " pattern ++ "] repeated "
        ++ toString repetitions ++ " times"

/-- Source: `doom_loop.rs:170–173`. -/
structure DoomLoopDetector where
  config : DoomLoopConfig
  history : List (Nat × String)

namespace DoomLoopDetector

/-- Source: `doom_loop.rs:178–183`. -/
def new (config : DoomLoopConfig) : DoomLoopDetector := ⟨config, []⟩

/-- Source: `doom_loop.rs:217–241`. -/
def checkConsecutiveDuplicate (d : DoomLoopDetector) : Option DoomLoopType :=
  if d.history.length < d.config.consecutiveThreshold then none
  else
    match d.history.getLast? with
    | none => none
    | some last =>
        if (d.history.reverse.take d.config.consecutiveThreshold).all fun e => e.1 == last.1 then
          some (.consecutiveDuplicate last.2 d.config.consecutiveThreshold)
        else none

/-- The cycle of the given length that ends the history, if it repeats often enough.
Source: `doom_loop.rs:256–299`. -/
def cycleOfLength (d : DoomLoopDetector) (cycleLen : Nat) : Option DoomLoopType :=
  let repetitions := d.config.cycleRepetitions
  let requiredLen := cycleLen * (repetitions + 1)
  if d.history.length < requiredLen then none
  else
    let window := d.history.drop (d.history.length - requiredLen)
    let candidate := window.take cycleLen
    let repeats := (List.range' 1 repetitions).all fun rep =>
      ((window.drop (rep * cycleLen)).take cycleLen).map Prod.fst == candidate.map Prod.fst
    if repeats then some (.cycle (candidate.map Prod.snd) (repetitions + 1)) else none

/-- Source: `doom_loop.rs:244–303`. -/
def checkCycle (d : DoomLoopDetector) : Option DoomLoopType :=
  if d.history.length < d.config.minCycleLength * (d.config.cycleRepetitions + 1) then none
  else
    (List.range' d.config.minCycleLength
      (d.config.maxCycleLength + 1 - d.config.minCycleLength)).findSome? d.cycleOfLength

/-- Record a call and look for a loop that it completes. Source: `doom_loop.rs:197–214`. -/
def recordAndCheck (hash : String → Value → Nat) (d : DoomLoopDetector) (name : String)
    (arguments : Value) : Option DoomLoopType × DoomLoopDetector :=
  if !d.config.enabled then (none, d)
  else
    let d' := { d with history :=
      d.history ++ [(ToolCallFingerprint.fromToolCall hash name arguments, name)] }
    match d'.checkConsecutiveDuplicate with
    | some found => (some found, d')
    | none => (d'.checkCycle, d')

/-- A disabled detector records nothing and finds nothing. -/
theorem recordAndCheck_of_disabled (hash : String → Value → Nat) (d : DoomLoopDetector)
    (h : d.config.enabled = false) (name : String) (arguments : Value) :
    d.recordAndCheck hash name arguments = (none, d) := by
  simp [recordAndCheck, h]

@[simp] theorem recordAndCheck_config (hash : String → Value → Nat) (d : DoomLoopDetector)
    (name : String) (arguments : Value) :
    (d.recordAndCheck hash name arguments).2.config = d.config := by
  unfold recordAndCheck
  split
  · rfl
  · dsimp only
    split <;> rfl

/-- Record calls one by one, up to the first that completes a loop. -/
def checkCalls (hash : String → Value → Nat) (d : DoomLoopDetector) :
    List ToolCall → Except DoomLoopType DoomLoopDetector
  | [] => .ok d
  | call :: rest =>
      match d.recordAndCheck hash call.name call.arguments with
      | (some found, _) => .error found
      | (none, d') => checkCalls hash d' rest

/-- Calls recorded in two batches are recorded as one. -/
theorem checkCalls_append (hash : String → Value → Nat) (d : DoomLoopDetector)
    (calls later : List ToolCall) :
    d.checkCalls hash (calls ++ later) =
      (d.checkCalls hash calls).bind fun d' => d'.checkCalls hash later := by
  induction calls generalizing d with
  | nil => rfl
  | cons call rest ih =>
    rw [List.cons_append, checkCalls, checkCalls]
    split
    · rfl
    · exact ih _

/-- A disabled detector never finds a loop. -/
theorem checkCalls_of_disabled (hash : String → Value → Nat) (d : DoomLoopDetector)
    (h : d.config.enabled = false) (calls : List ToolCall) : d.checkCalls hash calls = .ok d := by
  induction calls with
  | nil => rfl
  | cons call rest ih =>
    rw [checkCalls, recordAndCheck_of_disabled hash d h]
    exact ih

end DoomLoopDetector

end Behest
