import Behest.Word.Overflow
import Behest.Runtime.DoomLoop

/-!
# Doom loop detection in machine words

`behest-runtime/src/doom_loop.rs` once more, with the lengths computed in `usize`: a length past
the largest value panics or wraps, and so does the slice or the index that follows from it. Where
no length overflows, the search is the search in natural numbers.
-/

namespace Behest

namespace DoomLoopDetector.Usize

/-- `cycle_len * (repetitions + 1)`. Source: `doom_loop.rs:246, 254`. -/
def requiredLen (mode : Word.Overflow) (config : DoomLoopConfig) (cycleLen : Nat) : Option Nat := do
  let times ← Word.add mode Word.max64 config.cycleRepetitions 1
  Word.mul mode Word.max64 cycleLen times

/-- A block of the history against the candidate, up to the first difference; an index past the
end panics. Source: `doom_loop.rs:270–275`. -/
def sameBlock (history : List (Nat × String)) : Nat → List Nat → Option Bool
  | _, [] => some true
  | start, fp :: rest =>
      match history[start]? with
      | none => none
      | some e => if e.1 = fp then sameBlock history (start + 1) rest else some false

/-- The passes that are left, up to the first block that differs. The indices stay below twice
the length of the history. Source: `doom_loop.rs:267–279`. -/
def repeats (history : List (Nat × String)) (candidate : List Nat) (patternStart cycleLen : Nat) :
    Nat → Nat → Option Bool
  | 0, _ => some true
  | left + 1, rep =>
      match sameBlock history (patternStart + rep * cycleLen) candidate with
      | none => none
      | some false => some false
      | some true => repeats history candidate patternStart cycleLen left (rep + 1)

section Search

variable (mode : Word.Overflow) (d : DoomLoopDetector)

/-- One pass of the loop over the lengths. Source: `doom_loop.rs:254–292`. -/
def cycleOfLength (cycleLen : Nat) : Option (Option DoomLoopType) := do
  let repetitions := d.config.cycleRepetitions
  let requiredLen ← requiredLen mode d.config cycleLen
  if d.history.length < requiredLen then return none
  let patternStart := d.history.length - requiredLen
  -- the slice of the candidate may not end behind the history
  if requiredLen < cycleLen then none
  else
    let pattern := (d.history.drop patternStart).take cycleLen
    if ← repeats d.history (pattern.map Prod.fst) patternStart cycleLen repetitions 1 then
      let times ← Word.add mode Word.max64 repetitions 1
      return some (.cycle (pattern.map Prod.snd) times)
    else return none

/-- The passes over the lengths that are left. Source: `doom_loop.rs:253–295`. -/
def firstCycle : Nat → Nat → Option (Option DoomLoopType)
  | 0, _ => some none
  | left + 1, cycleLen =>
      match cycleOfLength mode d cycleLen with
      | none => none
      | some (some found) => some (some found)
      | some none => firstCycle left (cycleLen + 1)

/-- Source: `doom_loop.rs:240–296`. -/
def checkCycle : Option (Option DoomLoopType) := do
  let minRequired ← requiredLen mode d.config d.config.minCycleLength
  if d.history.length < minRequired then return none
  firstCycle mode d (d.config.maxCycleLength + 1 - d.config.minCycleLength)
    d.config.minCycleLength

/-- What is found in the history; `none` is a panic. Source: `doom_loop.rs:205–211`. -/
def check : Option (Option DoomLoopType) :=
  match d.checkConsecutiveDuplicate with
  | some found => some (some found)
  | none => checkCycle mode d

end Search

/-- The detector after a call. Source: `doom_loop.rs:202–203`. -/
def record (hash : String → Value → Nat) (d : DoomLoopDetector) (call : String × Value) :
    DoomLoopDetector :=
  if !d.config.enabled then d
  else { d with history :=
    d.history ++ [(ToolCallFingerprint.fromToolCall hash call.1 call.2, call.1)] }

/-- Source: `doom_loop.rs:197–212`. -/
def recordAndCheck (mode : Word.Overflow) (hash : String → Value → Nat) (d : DoomLoopDetector)
    (call : String × Value) : Option (Option DoomLoopType) × DoomLoopDetector :=
  if !d.config.enabled then (some none, d)
  else (check mode (record hash d call), record hash d call)

/-- The result for the last call, after the calls before it; a panic ends the run. -/
def lastFound (mode : Word.Overflow) (hash : String → Value → Nat) (d : DoomLoopDetector) :
    List (String × Value) → String × Value → Option (Option DoomLoopType)
  | [], call => (recordAndCheck mode hash d call).1
  | earlier :: rest, call =>
      match recordAndCheck mode hash d earlier with
      | (none, _) => none
      | (some _, d') => lastFound mode hash d' rest call

end DoomLoopDetector.Usize

/-- The length for a cycle does not fit a word. -/
def DoomLoopConfig.Overflows (config : DoomLoopConfig) (cycleLen : Nat) : Prop :=
  Word.max64 < cycleLen * (config.cycleRepetitions + 1)

instance (config : DoomLoopConfig) (cycleLen : Nat) : Decidable (config.Overflows cycleLen) :=
  inferInstanceAs (Decidable (_ < _))

namespace DoomLoopDetector.Usize

variable {mode : Word.Overflow} {d : DoomLoopDetector}

/-! ### Lengths that fit -/

theorem requiredLen_eq {config : DoomLoopConfig} {cycleLen : Nat} (hpos : 1 ≤ cycleLen)
    (h : ¬ config.Overflows cycleLen) :
    requiredLen mode config cycleLen = some (cycleLen * (config.cycleRepetitions + 1)) ∧
      Word.add mode Word.max64 config.cycleRepetitions 1 = some (config.cycleRepetitions + 1) := by
  have hfit := Nat.not_lt.mp h
  have hle : config.cycleRepetitions + 1 ≤ cycleLen * (config.cycleRepetitions + 1) :=
    Nat.le_mul_of_pos_left _ hpos
  have hadd : Word.add mode Word.max64 config.cycleRepetitions 1 =
      some (config.cycleRepetitions + 1) := Word.fit_of_le (Nat.le_trans hle hfit)
  refine ⟨?_, hadd⟩
  unfold requiredLen
  rw [hadd]
  exact Word.fit_of_le hfit

/-- Where overflow panics, a length that does not fit has no value. -/
theorem requiredLen_panics {config : DoomLoopConfig} {cycleLen : Nat}
    (h : config.Overflows cycleLen) : requiredLen .panics config cycleLen = none := by
  unfold requiredLen
  cases hadd : Word.add .panics Word.max64 config.cycleRepetitions 1 with
  | none => rfl
  | some times =>
    have htimes : times = config.cycleRepetitions + 1 := by
      rcases Word.fit_eq_some_iff.mp hadd with ⟨-, heq⟩ | ⟨hmode, -⟩
      · exact heq
      · cases hmode
    subst htimes
    exact Word.fit_eq_none_iff.mpr ⟨rfl, h⟩

/-- A block within the history is compared with the candidate. -/
theorem sameBlock_eq {history : List (Nat × String)} {start : Nat} {candidate : List Nat}
    (h : start + candidate.length ≤ history.length) :
    sameBlock history start candidate =
      some (((history.drop start).take candidate.length).map Prod.fst == candidate) := by
  induction candidate generalizing start with
  | nil => simp [sameBlock]
  | cons fp rest ih =>
    have hlt : start < history.length := by rw [List.length_cons] at h; omega
    have hrest : start + 1 + rest.length ≤ history.length := by rw [List.length_cons] at h; omega
    rw [sameBlock, List.getElem?_eq_getElem hlt, List.drop_eq_getElem_cons hlt, List.length_cons,
      List.take_succ_cons, List.map_cons, List.cons_beq_cons]
    dsimp only
    split
    · next heq => rw [ih hrest, heq, beq_self_eq_true, Bool.true_and]
    · next hne => rw [beq_eq_false_iff_ne.mpr hne, Bool.false_and]

/-- Blocks within the history are compared one after the other. -/
theorem repeats_eq {history : List (Nat × String)} {candidate : List Nat}
    {patternStart cycleLen left rep : Nat} (hlen : candidate.length = cycleLen)
    (h : patternStart + (rep + left) * cycleLen ≤ history.length) :
    repeats history candidate patternStart cycleLen left rep =
      some ((List.range' rep left).all fun k =>
        ((history.drop (patternStart + k * cycleLen)).take cycleLen).map Prod.fst ==
          candidate) := by
  induction left generalizing rep with
  | zero => rfl
  | succ left ih =>
    have hblock : patternStart + rep * cycleLen + candidate.length ≤ history.length := by
      have hle : (rep + 1) * cycleLen ≤ (rep + (left + 1)) * cycleLen :=
        Nat.mul_le_mul_right _ (by omega)
      rw [Nat.succ_mul] at hle
      omega
    have hrest : patternStart + (rep + 1 + left) * cycleLen ≤ history.length := by
      rwa [Nat.add_assoc, Nat.add_comm 1]
    rw [repeats, sameBlock_eq hblock, List.range'_succ, List.all_cons, hlen]
    cases ((history.drop (patternStart + rep * cycleLen)).take cycleLen).map Prod.fst ==
        candidate with
    | true => simpa using ih hrest
    | false => rfl

/-! ### The search in words -/

/-- A length that fits is searched as in natural numbers. -/
theorem cycleOfLength_eq {cycleLen : Nat} (hpos : 1 ≤ cycleLen)
    (h : ¬ d.config.Overflows cycleLen) :
    cycleOfLength mode d cycleLen = some (d.cycleOfLength cycleLen) := by
  obtain ⟨hlen, htimes⟩ : requiredLen mode d.config cycleLen =
      some (cycleLen * (d.config.cycleRepetitions + 1)) ∧ _ := requiredLen_eq hpos h
  unfold cycleOfLength DoomLoopDetector.cycleOfLength
  simp only [hlen, htimes, Option.bind_eq_bind, Option.bind_some, Option.pure_def]
  by_cases hshort : d.history.length < cycleLen * (d.config.cycleRepetitions + 1)
  · rw [if_pos hshort, if_pos hshort]
  · have hle : cycleLen ≤ cycleLen * (d.config.cycleRepetitions + 1) :=
      Nat.le_mul_of_pos_right _ (Nat.succ_pos _)
    rw [if_neg hshort, if_neg hshort, if_neg (Nat.not_lt.mpr hle), repeats_eq ?_ ?_]
    · simp only [Option.bind_some, List.drop_drop]
      split <;> rfl
    · rw [List.length_map, List.length_take, List.length_drop]
      omega
    · rw [Nat.add_comm 1, Nat.mul_comm _ cycleLen]
      omega

theorem cycleOfLength_panics {cycleLen : Nat} (h : d.config.Overflows cycleLen) :
    cycleOfLength .panics d cycleLen = none := by
  unfold cycleOfLength
  rw [requiredLen_panics h]
  rfl

/-- The search ends before a length that does not fit. -/
theorem firstCycle_eq {left cycleLen : Nat} (hpos : 1 ≤ cycleLen)
    (h : ∀ len, cycleLen ≤ len → len < cycleLen + left → d.config.Overflows len →
      ∃ len', cycleLen ≤ len' ∧ len' < len ∧ d.cycleOfLength len' ≠ none) :
    firstCycle mode d left cycleLen =
      some ((List.range' cycleLen left).findSome? d.cycleOfLength) := by
  induction left generalizing cycleLen with
  | zero => rfl
  | succ left ih =>
    have hfits : ¬ d.config.Overflows cycleLen := by
      intro hover
      obtain ⟨len', hle, hlt, -⟩ := h cycleLen (Nat.le_refl _) (by omega) hover
      omega
    rw [firstCycle, cycleOfLength_eq hpos hfits, List.range'_succ, List.findSome?_cons]
    cases hfound : d.cycleOfLength cycleLen with
    | some found => rfl
    | none =>
      refine ih (Nat.le_succ_of_le hpos) fun len hle hlt hover => ?_
      obtain ⟨len', hle', hlt', hsome⟩ := h len (by omega) (by omega) hover
      have hne : len' ≠ cycleLen := by
        rintro rfl
        exact hsome hfound
      exact ⟨len', by omega, hlt', hsome⟩

/-- A search that comes to a length that does not fit panics there. -/
theorem firstCycle_panics {left cycleLen len : Nat} (hpos : 1 ≤ cycleLen) (hle : cycleLen ≤ len)
    (hlt : len < cycleLen + left) (hover : d.config.Overflows len)
    (h : ∀ len', cycleLen ≤ len' → len' < len → d.cycleOfLength len' = none) :
    firstCycle .panics d left cycleLen = none := by
  induction left generalizing cycleLen with
  | zero => omega
  | succ left ih =>
    rw [firstCycle]
    by_cases hhere : d.config.Overflows cycleLen
    · rw [cycleOfLength_panics hhere]
    · have hne : cycleLen ≠ len := by
        rintro rfl
        exact hhere hover
      rw [cycleOfLength_eq hpos hhere, h cycleLen (Nat.le_refl _) (by omega)]
      exact ih (by omega) (by omega) (by omega) fun len' hle' => h len' (by omega)

/-- A length that the search computes does not fit a word: the least length, or one that it comes
to before it finds a cycle. -/
def Overruns (d : DoomLoopDetector) : Prop :=
  d.checkConsecutiveDuplicate = none ∧ (d.config.Overflows d.config.minCycleLength ∨
    d.config.minCycleLength * (d.config.cycleRepetitions + 1) ≤ d.history.length ∧
      ∃ len, d.config.minCycleLength ≤ len ∧ len ≤ d.config.maxCycleLength ∧
        d.config.Overflows len ∧
        ∀ len', d.config.minCycleLength ≤ len' → len' < len → d.cycleOfLength len' = none)

/-- What is found in natural numbers. -/
def natural (d : DoomLoopDetector) : Option DoomLoopType :=
  match d.checkConsecutiveDuplicate with
  | some found => some found
  | none => d.checkCycle

variable (hpos : 1 ≤ d.config.minCycleLength)
include hpos

/-- A search of lengths that fit is the search in natural numbers, whatever overflow does. -/
theorem check_eq (h : ¬ Overruns d) : check mode d = some (natural d) := by
  unfold check natural
  cases hcopies : d.checkConsecutiveDuplicate with
  | some found => rfl
  | none =>
    obtain ⟨hmin, hrest⟩ := not_or.mp fun hover => h ⟨hcopies, hover⟩
    unfold checkCycle DoomLoopDetector.checkCycle
    rw [(requiredLen_eq hpos hmin).1]
    simp only [Option.bind_eq_bind, Option.bind_some, Option.pure_def]
    split
    · rfl
    · next hlong =>
      refine firstCycle_eq hpos fun len hle hlt hover => ?_
      by_contra hnone
      push Not at hnone
      exact hrest ⟨by omega, len, hle, by omega, hover, hnone⟩

/-- Where overflow panics, the search does so at the first length that does not fit. -/
theorem check_panics (h : Overruns d) : check .panics d = none := by
  obtain ⟨hcopies, hover⟩ := h
  unfold check checkCycle
  rw [hcopies]
  dsimp only
  by_cases hmin : d.config.Overflows d.config.minCycleLength
  · rw [requiredLen_panics hmin]
    rfl
  · obtain ⟨hlong, len, hle, hmax, hlen, hnone⟩ := hover.resolve_left hmin
    rw [(requiredLen_eq hpos hmin).1]
    simp only [Option.bind_eq_bind, Option.bind_some, if_neg (Nat.not_lt.mpr hlong)]
    exact firstCycle_panics hpos hle (by omega) hlen hnone

end DoomLoopDetector.Usize

end Behest
