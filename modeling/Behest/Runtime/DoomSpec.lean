import Behest.Search.Period
import Behest.Runtime.DoomWords

/-!
# What the doom loop search finds

The search finds a loop when the last calls are all the same, or end in whole repetitions of a
cycle; the shortest cycle is reported. It does so in machine words as long as no length that it
computes overflows.
-/

namespace Behest

open Search

/-- What a fingerprint is computed from. Source: `doom_loop.rs:119–129`. -/
def callKey (call : String × Value) : String × Value :=
  (call.1, ToolCallFingerprint.canonicalize call.2)

/-- The hasher tells the calls apart, up to the order of object keys. -/
def NoCollision (hash : String → Value → Nat) (calls : List (String × Value)) : Prop :=
  Set.InjOn (fun key => hash key.1 key.2) {key | key ∈ calls.map callKey}

namespace DoomLoopConfig

variable (config : DoomLoopConfig)

/-- The last calls are all the same. -/
def Duplicates (calls : List (String × Value)) : Prop :=
  EndsInCopies config.consecutiveThreshold (calls.map callKey)

/-- The last calls are repetitions of a cycle of the given length. -/
def Cycles (calls : List (String × Value)) (len : Nat) : Prop :=
  EndsInPeriod (len * (config.cycleRepetitions + 1)) len (calls.map callKey)

/-- What a detector should find after some calls. -/
structure Detects (calls : List (String × Value)) (found : Option DoomLoopType) : Prop where
  isSome_iff : found.isSome = true ↔ config.Duplicates calls ∨
    ∃ len, config.minCycleLength ≤ len ∧ len ≤ config.maxCycleLength ∧ config.Cycles calls len
  duplicates : config.Duplicates calls → ∀ last, calls.getLast? = some last →
    found = some (.consecutiveDuplicate last.1 config.consecutiveThreshold)
  least : ¬ config.Duplicates calls → ∀ len, config.minCycleLength ≤ len →
    len ≤ config.maxCycleLength → config.Cycles calls len →
    (∀ shorter, config.minCycleLength ≤ shorter → shorter < len →
      ¬ config.Cycles calls shorter) →
    found = some (.cycle
      (((calls.drop (calls.length - len * (config.cycleRepetitions + 1))).take len).map Prod.fst)
      (config.cycleRepetitions + 1))

/-- A search after some calls computes a length that does not fit a word. -/
def SearchOverflows (calls : List (String × Value)) : Prop :=
  ¬ config.Duplicates calls ∧ (config.Overflows config.minCycleLength ∨
    config.minCycleLength * (config.cycleRepetitions + 1) ≤ calls.length ∧
      ∃ len, config.minCycleLength ≤ len ∧ len ≤ config.maxCycleLength ∧ config.Overflows len ∧
        ∀ shorter, config.minCycleLength ≤ shorter → shorter < len →
          ¬ config.Cycles calls shorter)

end DoomLoopConfig

namespace DoomLoopDetector

variable {d : DoomLoopDetector}

/-! ### The checks on fingerprints -/

theorem checkConsecutiveDuplicate_eq {earlier : List (Nat × String)} {last : Nat × String}
    (hthreshold : 1 ≤ d.config.consecutiveThreshold) (h : d.history = earlier ++ [last])
    {found : DoomLoopType} :
    d.checkConsecutiveDuplicate = some found ↔
      EndsInCopies d.config.consecutiveThreshold (d.history.map Prod.fst) ∧
        found = .consecutiveDuplicate last.2 d.config.consecutiveThreshold := by
  have hcopies : EndsInCopies d.config.consecutiveThreshold (d.history.map Prod.fst) ↔
      d.config.consecutiveThreshold ≤ d.history.length ∧
        ∀ e ∈ d.history.reverse.take d.config.consecutiveThreshold, e.1 = last.1 := by
    rw [h, List.map_append, List.map_singleton, endsInCopies_iff hthreshold, List.length_map,
      List.length_append, List.length_singleton, ← List.map_singleton, ← List.map_append,
      ← List.map_reverse, ← List.map_take]
    simp only [List.forall_mem_map]
  rw [hcopies, checkConsecutiveDuplicate]
  split
  · next hshort => simp [Nat.not_le.mpr hshort]
  · next hlong =>
    rw [h, List.getLast?_concat, ← h]
    dsimp only
    split
    · next hall =>
      have hsame := List.all_eq_true.mp hall
      simp only [beq_iff_eq] at hsame
      exact ⟨fun heq => ⟨⟨Nat.not_lt.mp hlong, hsame⟩, (Option.some.inj heq).symm⟩,
        fun heq => congrArg some heq.2.symm⟩
    · next hnot =>
      simp only [reduceCtorEq, false_iff, not_and]
      intro hsame
      exact absurd (List.all_eq_true.mpr fun e he => beq_iff_eq.mpr (hsame.2 e he)) hnot

theorem cycleOfLength_eq_some_iff {len : Nat} {found : DoomLoopType} :
    d.cycleOfLength len = some found ↔
      EndsInPeriod (len * (d.config.cycleRepetitions + 1)) len (d.history.map Prod.fst) ∧
        found = .cycle (((d.history.drop (d.history.length -
          len * (d.config.cycleRepetitions + 1))).take len).map Prod.snd)
          (d.config.cycleRepetitions + 1) := by
  rw [endsInPeriod_iff, List.length_map, cycleOfLength]
  dsimp only
  split
  · next hshort => simp [Nat.not_le.mpr hshort]
  · next hlong =>
    have hlen : ((d.history.map Prod.fst).drop (d.history.length -
        len * (d.config.cycleRepetitions + 1))).length =
        len * (d.config.cycleRepetitions + 1) := by
      rw [List.length_drop, List.length_map]
      omega
    rw [hasPeriod_iff_blocks hlen]
    split
    · next hrepeats =>
      have hblocks := List.all_eq_true.mp hrepeats
      simp only [List.mem_range'_1, beq_iff_eq, List.map_take, List.map_drop] at hblocks
      refine ⟨fun heq => ⟨⟨Nat.not_lt.mp hlong, fun rep hpos hle => ?_⟩,
        (Option.some.inj heq).symm⟩, fun heq => congrArg some heq.2.symm⟩
      exact hblocks rep ⟨hpos, by omega⟩
    · next hnot =>
      simp only [reduceCtorEq, false_iff, not_and]
      intro hblocks
      refine absurd (List.all_eq_true.mpr fun rep hrep => ?_) hnot
      rw [List.mem_range'_1] at hrep
      simpa only [beq_iff_eq, List.map_take, List.map_drop] using
        hblocks.2 rep hrep.1 (by omega)

theorem cycleOfLength_ne_none_iff {len : Nat} : d.cycleOfLength len ≠ none ↔
    EndsInPeriod (len * (d.config.cycleRepetitions + 1)) len (d.history.map Prod.fst) := by
  rw [Option.ne_none_iff_exists']
  simp only [cycleOfLength_eq_some_iff, exists_and_left, exists_eq, and_true]

/-- The first length with a result decides. -/
theorem findSome?_range' {β : Type} {f : Nat → Option β} {start count len : Nat} {found : β}
    (hle : start ≤ len) (hlt : len < start + count)
    (hfound : f len = some found) (hnone : ∀ shorter, start ≤ shorter → shorter < len →
      f shorter = none) : (List.range' start count).findSome? f = some found := by
  induction count generalizing start with
  | zero => omega
  | succ count ih =>
    rw [List.range'_succ, List.findSome?_cons]
    rcases Nat.eq_or_lt_of_le hle with rfl | hlater
    · rw [hfound]
    · rw [hnone start (Nat.le_refl _) hlater]
      exact ih hlater (by omega) fun shorter hs => hnone shorter (by omega)

/-- A cycle is found exactly when there is one of a length that is searched. -/
theorem checkCycle_isSome_iff : d.checkCycle.isSome = true ↔
    ∃ len, d.config.minCycleLength ≤ len ∧ len ≤ d.config.maxCycleLength ∧
      EndsInPeriod (len * (d.config.cycleRepetitions + 1)) len (d.history.map Prod.fst) := by
  unfold checkCycle
  split
  · next hshort =>
    refine iff_of_false (by simp) ?_
    rintro ⟨len, hle, -, hcycle⟩
    have hlong := (endsInPeriod_iff.mp hcycle).1
    rw [List.length_map] at hlong
    have hmono := Nat.mul_le_mul_right (d.config.cycleRepetitions + 1) hle
    omega
  · rw [List.findSome?_isSome_iff]
    constructor
    · rintro ⟨len, hmem, hsome⟩
      rw [List.mem_range'_1] at hmem
      exact ⟨len, hmem.1, by omega,
        cycleOfLength_ne_none_iff.mp (Option.isSome_iff_ne_none.mp hsome)⟩
    · rintro ⟨len, hle, hmax, hcycle⟩
      exact ⟨len, List.mem_range'_1.mpr ⟨hle, by omega⟩,
        Option.isSome_iff_ne_none.mpr (cycleOfLength_ne_none_iff.mpr hcycle)⟩

/-- The shortest cycle is the one that is found. -/
theorem checkCycle_eq_of_least {len : Nat} (hle : d.config.minCycleLength ≤ len)
    (hmax : len ≤ d.config.maxCycleLength)
    (hcycle : EndsInPeriod (len * (d.config.cycleRepetitions + 1)) len (d.history.map Prod.fst))
    (hleast : ∀ shorter, d.config.minCycleLength ≤ shorter → shorter < len →
      ¬ EndsInPeriod (shorter * (d.config.cycleRepetitions + 1)) shorter
        (d.history.map Prod.fst)) :
    d.checkCycle = some (.cycle (((d.history.drop (d.history.length -
      len * (d.config.cycleRepetitions + 1))).take len).map Prod.snd)
      (d.config.cycleRepetitions + 1)) := by
  have hlong := (endsInPeriod_iff.mp hcycle).1
  rw [List.length_map] at hlong
  have hmono := Nat.mul_le_mul_right (d.config.cycleRepetitions + 1) hle
  unfold checkCycle
  rw [if_neg (by omega)]
  refine findSome?_range' hle (by omega) (cycleOfLength_eq_some_iff.mpr ⟨hcycle, rfl⟩) ?_
  intro shorter hs hlt
  by_contra hsome
  exact hleast shorter hs hlt (cycleOfLength_ne_none_iff.mp hsome)

/-! ### After some calls -/

/-- The detector that has recorded some calls. -/
def after (hash : String → Value → Nat) (config : DoomLoopConfig) (calls : List (String × Value)) :
    DoomLoopDetector :=
  ⟨config, calls.map fun call =>
    (ToolCallFingerprint.fromToolCall hash call.1 call.2, call.1)⟩

section After

variable {hash : String → Value → Nat} {config : DoomLoopConfig}
  {calls : List (String × Value)}

theorem fingerprints_after : (after hash config calls).history.map Prod.fst =
    (calls.map callKey).map fun key => hash key.1 key.2 := by
  simp only [after, List.map_map]
  rfl

theorem names_after (k len : Nat) :
    (((after hash config calls).history.drop k).take len).map Prod.snd =
      ((calls.drop k).take len).map Prod.fst := by
  simp only [after, ← List.map_drop, ← List.map_take, List.map_map]
  rfl

theorem length_after : (after hash config calls).history.length = calls.length :=
  List.length_map ..

variable (hinj : NoCollision hash calls)
include hinj

theorem endsInPeriod_after {len : Nat} :
    EndsInPeriod (len * (config.cycleRepetitions + 1)) len
      ((after hash config calls).history.map Prod.fst) ↔ config.Cycles calls len := by
  rw [fingerprints_after]
  exact endsInPeriod_map_iff hinj

variable (hthreshold : 1 ≤ config.consecutiveThreshold)
include hthreshold

theorem checkConsecutiveDuplicate_after {earlier : List (String × Value)} {last : String × Value}
    (h : calls = earlier ++ [last]) {found : DoomLoopType} :
    (after hash config calls).checkConsecutiveDuplicate = some found ↔
      config.Duplicates calls ∧
        found = .consecutiveDuplicate last.1 config.consecutiveThreshold := by
  have hhistory : (after hash config calls).history = (after hash config earlier).history ++
      [(ToolCallFingerprint.fromToolCall hash last.1 last.2, last.1)] := by
    rw [h]
    exact List.map_append
  rw [checkConsecutiveDuplicate_eq hthreshold hhistory, fingerprints_after]
  exact and_congr_left fun _ => endsInCopies_map_iff hinj hthreshold

theorem checkConsecutiveDuplicate_after_eq_none_iff {earlier : List (String × Value)}
    {last : String × Value} (h : calls = earlier ++ [last]) :
    (after hash config calls).checkConsecutiveDuplicate = none ↔ ¬ config.Duplicates calls := by
  rw [Option.eq_none_iff_forall_ne_some]
  constructor
  · intro hnone hcopies
    exact hnone _ ((checkConsecutiveDuplicate_after hinj hthreshold h).mpr ⟨hcopies, rfl⟩)
  · intro hnot found hsome
    exact hnot ((checkConsecutiveDuplicate_after hinj hthreshold h).mp hsome).1

/-- The search in natural numbers finds what it should. -/
theorem natural_detects {earlier : List (String × Value)} {last : String × Value}
    (h : calls = earlier ++ [last]) :
    config.Detects calls (Usize.natural (after hash config calls)) := by
  have hcycle : (after hash config calls).checkCycle.isSome = true ↔
      ∃ len, config.minCycleLength ≤ len ∧ len ≤ config.maxCycleLength ∧
        config.Cycles calls len := by
    rw [checkCycle_isSome_iff]
    exact exists_congr fun len => and_congr_right fun _ => and_congr_right fun _ =>
      endsInPeriod_after hinj
  by_cases hcopies : config.Duplicates calls
  · have hfound : Usize.natural (after hash config calls) =
        some (.consecutiveDuplicate last.1 config.consecutiveThreshold) := by
      unfold Usize.natural
      rw [(checkConsecutiveDuplicate_after hinj hthreshold h).mpr ⟨hcopies, rfl⟩]
    refine ⟨by simp [hfound, hcopies], fun _ call hcall => ?_, fun hnot => absurd hcopies hnot⟩
    rw [h, List.getLast?_concat, Option.some.injEq] at hcall
    rw [hfound, hcall]
  · have hfound : Usize.natural (after hash config calls) =
        (after hash config calls).checkCycle := by
      unfold Usize.natural
      rw [(checkConsecutiveDuplicate_after_eq_none_iff hinj hthreshold h).mpr hcopies]
    refine ⟨?_, fun hyes => absurd hyes hcopies, fun _ len hle hmax hlen hleast => ?_⟩
    · rw [hfound, or_iff_right hcopies]
      exact hcycle
    · rw [hfound, ← names_after, ← length_after]
      exact checkCycle_eq_of_least hle hmax ((endsInPeriod_after hinj).mpr hlen)
        fun shorter hs hlt hshorter =>
          hleast shorter hs hlt ((endsInPeriod_after hinj).mp hshorter)

theorem overruns_after_iff {earlier : List (String × Value)} {last : String × Value}
    (h : calls = earlier ++ [last]) :
    Usize.Overruns (after hash config calls) ↔ config.SearchOverflows calls := by
  have hnone (len : Nat) :
      (after hash config calls).cycleOfLength len = none ↔ ¬ config.Cycles calls len := by
    have hsome : (after hash config calls).cycleOfLength len ≠ none ↔ config.Cycles calls len :=
      cycleOfLength_ne_none_iff.trans (endsInPeriod_after hinj)
    rw [← hsome, not_not]
  unfold Usize.Overruns DoomLoopConfig.SearchOverflows
  rw [checkConsecutiveDuplicate_after_eq_none_iff hinj hthreshold h, length_after]
  simp only [hnone]
  rfl

end After

/-! ### Runs -/

section Runs

variable {mode : Word.Overflow} {hash : String → Value → Nat} {config : DoomLoopConfig}
  (henabled : config.enabled = true)
include henabled

theorem recordAndCheck_after (earlier : List (String × Value)) (call : String × Value) :
    Usize.recordAndCheck mode hash (after hash config earlier) call =
      (Usize.check mode (after hash config (earlier ++ [call])),
        after hash config (earlier ++ [call])) := by
  have hrecord : Usize.record hash (after hash config earlier) call =
      after hash config (earlier ++ [call]) := by
    unfold Usize.record
    rw [show (after hash config earlier).config = config from rfl, henabled]
    simp [after]
  unfold Usize.recordAndCheck
  rw [hrecord, show (after hash config earlier).config = config from rfl, henabled]
  rfl

variable (hmin : 1 ≤ config.minCycleLength) (hthreshold : 1 ≤ config.consecutiveThreshold)
include hmin hthreshold

/-- A run whose searches do not overflow ends with the search in natural numbers. -/
theorem lastFound_eq {earlier calls : List (String × Value)} {call : String × Value}
    (hinj : NoCollision hash (earlier ++ (calls ++ [call])))
    (h : ∀ part, part ≠ [] → part <+: calls ++ [call] →
      ¬ config.SearchOverflows (earlier ++ part)) :
    Usize.lastFound mode hash (after hash config earlier) calls call =
      some (Usize.natural (after hash config (earlier ++ (calls ++ [call])))) := by
  induction calls generalizing earlier with
  | nil =>
    rw [Usize.lastFound, recordAndCheck_after henabled]
    refine Usize.check_eq hmin fun hover => h [call] (by simp) (List.prefix_refl _) ?_
    exact (overruns_after_iff hinj hthreshold rfl).mp hover
  | cons c rest ih =>
    have hassoc (l : List (String × Value)) : earlier ++ c :: l = earlier ++ [c] ++ l := by simp
    have hfirst : Usize.check mode (after hash config (earlier ++ [c])) =
        some (Usize.natural (after hash config (earlier ++ [c]))) := by
      refine Usize.check_eq hmin fun hover => h [c] (by simp) (by simp) ?_
      refine (overruns_after_iff ?_ hthreshold rfl).mp hover
      exact hinj.mono fun key hkey => List.map_subset _ (by simp) hkey
    rw [List.cons_append, hassoc] at hinj ⊢
    rw [Usize.lastFound, recordAndCheck_after henabled, hfirst]
    refine ih hinj fun part hne hpart => ?_
    rw [← hassoc]
    exact h (c :: part) (by simp) (List.prefix_cons_inj c |>.mpr hpart)

/-- Where overflow panics, a run with a search that overflows ends there. -/
theorem lastFound_panics {earlier calls part : List (String × Value)} {call : String × Value}
    (hinj : NoCollision hash (earlier ++ (calls ++ [call]))) (hne : part ≠ [])
    (hpart : part <+: calls ++ [call]) (hover : config.SearchOverflows (earlier ++ part)) :
    Usize.lastFound .panics hash (after hash config earlier) calls call = none := by
  have hpanics (before : List (String × Value)) (c : String × Value)
      (hinj : NoCollision hash (before ++ [c])) (hover : config.SearchOverflows (before ++ [c])) :
      Usize.check .panics (after hash config (before ++ [c])) = none :=
    Usize.check_panics hmin ((overruns_after_iff hinj hthreshold rfl).mpr hover)
  induction calls generalizing earlier part with
  | nil =>
    obtain ⟨first, rest, rfl⟩ := List.exists_cons_of_ne_nil hne
    obtain ⟨rfl, hrest⟩ := List.cons_prefix_cons.mp hpart
    rw [List.prefix_nil.mp hrest] at hover
    rw [Usize.lastFound, recordAndCheck_after henabled]
    exact hpanics earlier first hinj hover
  | cons c calls ih =>
    obtain ⟨first, rest, rfl⟩ := List.exists_cons_of_ne_nil hne
    obtain ⟨rfl, hrest⟩ := List.cons_prefix_cons.mp hpart
    have hassoc (l : List (String × Value)) : earlier ++ first :: l = earlier ++ [first] ++ l := by
      simp
    rw [List.cons_append, hassoc] at hinj
    rw [hassoc] at hover
    rw [Usize.lastFound, recordAndCheck_after henabled]
    cases rest with
    | nil =>
      rw [List.append_nil] at hover
      have hhere : NoCollision hash (earlier ++ [first]) :=
        hinj.mono fun key hkey => List.map_subset _ (by simp) hkey
      rw [hpanics earlier first hhere hover]
    | cons second rest =>
      cases Usize.check .panics (after hash config (earlier ++ [first])) with
      | none => rfl
      | some found => exact ih hinj (by simp) hrest hover

end Runs

end DoomLoopDetector

namespace DoomLoopConfig

open DoomLoopDetector DoomLoopDetector.Usize

variable (config : DoomLoopConfig)

/-- The last of some calls finds what it should. -/
def Specified (mode : Word.Overflow) (hash : String → Value → Nat) (calls : List (String × Value))
    (call : String × Value) : Prop :=
  ∃ found, lastFound mode hash (.new config) calls call = some found ∧
    config.Detects (calls ++ [call]) found

/-- No call of the run computes a length that does not fit a word. -/
def NeverOverflows (calls : List (String × Value)) : Prop :=
  ∀ part, part ≠ [] → part <+: calls → ¬ config.SearchOverflows part

variable {config} {hash : String → Value → Nat} {calls : List (String × Value)}
  {call : String × Value}

/-- **The search finds what it should exactly when no length that it computes overflows; where
overflow wraps, it does so then too**. -/
theorem specified_iff_neverOverflows (henabled : config.enabled = true)
    (hthreshold : 2 ≤ config.consecutiveThreshold) (hmin : 1 ≤ config.minCycleLength)
    (hinj : NoCollision hash (calls ++ [call])) :
    (config.Specified .panics hash calls call ↔ config.NeverOverflows (calls ++ [call])) ∧
      (config.NeverOverflows (calls ++ [call]) → config.Specified .wraps hash calls call) := by
  have hpos : 1 ≤ config.consecutiveThreshold := Nat.le_of_succ_le hthreshold
  have hspec (mode : Word.Overflow) (h : config.NeverOverflows (calls ++ [call])) :
      config.Specified mode hash calls call := by
    have hfound : lastFound mode hash (after hash config []) calls call =
        some (natural (after hash config ([] ++ (calls ++ [call])))) :=
      lastFound_eq henabled hmin hpos hinj h
    exact ⟨_, hfound, natural_detects hinj hpos rfl⟩
  refine ⟨⟨fun h part hne hpart hover => ?_, hspec .panics⟩, hspec .wraps⟩
  obtain ⟨found, hfound, -⟩ := h
  have hover' : config.SearchOverflows ([] ++ part) := hover
  have hnone : lastFound .panics hash (after hash config []) calls call = none :=
    lastFound_panics henabled hmin hpos hinj hne hpart hover'
  cases hnone.symm.trans hfound

/-- A search for three repetitions of one call, which three calls complete. -/
theorem thrice_specified :
    let config : DoomLoopConfig := { consecutiveThreshold := 4, minCycleLength := 1 }
    let call : String × Value := ("read", .null)
    config.Specified .panics (fun name _ => name.length) [call, call] call := by
  have hfits (len : Nat) (h : len ≤ 4) :
      ¬ DoomLoopConfig.Overflows { consecutiveThreshold := 4, minCycleLength := 1 } len := by
    unfold Overflows Word.max64
    dsimp only
    omega
  refine (specified_iff_neverOverflows rfl (by decide) (by decide) ?_).1.mpr ?_
  · intro key hkey key' hkey' _
    have hall : ∀ key ∈ [callKey ("read", .null), callKey ("read", .null),
        callKey ("read", .null)], key = callKey ("read", .null) := by
      simp
    rw [hall key hkey, hall key' hkey']
  · rintro part - - ⟨-, hmin | ⟨-, len, -, hmax, hover, -⟩⟩
    · exact hfits 1 (by decide) hmin
    · exact hfits len hmax hover

/-- With the largest word of repetitions one more does not fit: the first call brings the search
down, whatever overflow does, where it should find nothing. -/
theorem largest_repetitions_unspecified :
    let config : DoomLoopConfig :=
      { minCycleLength := 1, maxCycleLength := 1, cycleRepetitions := Word.max64 }
    let call : String × Value := ("read", .null)
    config.enabled = true ∧ 2 ≤ config.consecutiveThreshold ∧
      (∀ mode, lastFound mode (fun name _ => name.length) (.new config) [] call = none) ∧
      ∀ mode, ¬ config.Specified mode (fun name _ => name.length) [] call := by
  have hnone (mode : Word.Overflow) : lastFound mode (fun name _ => name.length)
      (.new { minCycleLength := 1, maxCycleLength := 1, cycleRepetitions := Word.max64 }) []
      ("read", .null) = none := by
    cases mode <;> rfl
  refine ⟨rfl, by decide, hnone, ?_⟩
  rintro mode ⟨found, hfound, -⟩
  cases (hnone mode).symm.trans hfound

end DoomLoopConfig

end Behest
