import Behest.Runtime.DoomSpec

/-!
# Distinct calls and the doom loop search

Calls that are pairwise distinct never repeat. The search stays quiet on them when its
configuration is not degenerate: with a threshold below two, a length of zero or no repetitions,
the checks hold of anything, and lengths past the largest word bring the search down.
-/

namespace Behest

open Search

namespace DoomLoopDetector.Usize

/-- No call of the run finds a loop, and none panics. -/
def Quiet (mode : Word.Overflow) (hash : String → Value → Nat) (d : DoomLoopDetector) :
    List (String × Value) → Prop
  | [] => True
  | call :: rest => (recordAndCheck mode hash d call).1 = some none ∧
      Quiet mode hash (recordAndCheck mode hash d call).2 rest

variable {mode : Word.Overflow} {hash : String → Value → Nat} {config : DoomLoopConfig}
  {d : DoomLoopDetector} {calls : List (String × Value)}

theorem quiet_of_disabled (h : d.config.enabled = false) : Quiet mode hash d calls := by
  induction calls with
  | nil => trivial
  | cons call rest ih =>
    have hcall : recordAndCheck mode hash d call = (some none, d) := by simp [recordAndCheck, h]
    rw [Quiet, hcall]
    exact ⟨rfl, ih⟩

/-- A run is quiet when every search of it is. -/
theorem quiet_after_iff (henabled : config.enabled = true) {earlier : List (String × Value)} :
    Quiet mode hash (after hash config earlier) calls ↔ ∀ part, part ≠ [] → part <+: calls →
      check mode (after hash config (earlier ++ part)) = some none := by
  induction calls generalizing earlier with
  | nil =>
    refine iff_of_true trivial fun part hne hpart => absurd (List.prefix_nil.mp hpart) hne
  | cons call rest ih =>
    rw [Quiet, recordAndCheck_after henabled, ih]
    constructor
    · rintro ⟨hfirst, hrest⟩ part hne hpart
      obtain ⟨first, later, rfl⟩ := List.exists_cons_of_ne_nil hne
      obtain ⟨rfl, hlater⟩ := List.cons_prefix_cons.mp hpart
      rcases eq_or_ne later [] with rfl | hsome
      · exact hfirst
      · simpa using hrest later hsome hlater
    · intro h
      refine ⟨h [call] (by simp) (by simp), fun part hne hpart => ?_⟩
      simpa using h (call :: part) (by simp) (List.cons_prefix_cons.mpr ⟨rfl, hpart⟩)

/-! ### Searches of distinct calls -/

/-- Nothing is found when every length is passed over. -/
theorem firstCycle_eq_none_iff {left cycleLen : Nat} : firstCycle mode d left cycleLen = some none ↔
    ∀ len, cycleLen ≤ len → len < cycleLen + left → cycleOfLength mode d len = some none := by
  induction left generalizing cycleLen with
  | zero => exact iff_of_true rfl fun len hle hlt => by omega
  | succ left ih =>
    rw [firstCycle]
    constructor
    · intro h len hle hlt
      cases hhere : cycleOfLength mode d cycleLen with
      | none => simp [hhere] at h
      | some found =>
        cases found with
        | some found => simp [hhere] at h
        | none =>
          rw [hhere] at h
          rcases Nat.eq_or_lt_of_le hle with rfl | hlater
          · exact hhere
          · exact ih.mp h len hlater (by omega)
    · intro h
      rw [h cycleLen (Nat.le_refl _) (by omega)]
      exact ih.mpr fun len hle hlt => h len (by omega) (by omega)

/-- An empty candidate is like any block. -/
theorem repeats_nil {history : List (Nat × String)} {patternStart cycleLen left rep : Nat} :
    repeats history [] patternStart cycleLen left rep = some true := by
  induction left generalizing rep with
  | zero => rfl
  | succ left ih => rw [repeats, sameBlock, ih]

section Distinct

variable (hnodup : (d.history.map Prod.fst).Nodup)
include hnodup

/-- Distinct calls are no copies of each other, unless a single one counts as copies. -/
theorem checkConsecutiveDuplicate_of_nodup (hne : d.history ≠ []) :
    d.checkConsecutiveDuplicate = none ↔ 2 ≤ d.config.consecutiveThreshold := by
  obtain ⟨earlier, last, h⟩ := (List.eq_nil_or_concat' d.history).resolve_left hne
  rcases Nat.eq_zero_or_pos d.config.consecutiveThreshold with hzero | hpos
  · refine iff_of_false ?_ (by omega)
    unfold checkConsecutiveDuplicate
    rw [hzero, if_neg (Nat.not_lt_zero _), h, List.getLast?_concat]
    simp
  · have hcopies : d.checkConsecutiveDuplicate = none ↔
        ¬ EndsInCopies d.config.consecutiveThreshold (d.history.map Prod.fst) := by
      rw [Option.eq_none_iff_forall_ne_some]
      exact ⟨fun hnone hcopies =>
          hnone _ ((checkConsecutiveDuplicate_eq hpos h).mpr ⟨hcopies, rfl⟩),
        fun hnot found hfound => hnot ((checkConsecutiveDuplicate_eq hpos h).mp hfound).1⟩
    rw [hcopies]
    constructor
    · intro hnot
      by_contra hone
      have hthreshold : d.config.consecutiveThreshold = 1 := by omega
      refine hnot ⟨last.1, ?_⟩
      rw [hthreshold, h, List.map_append]
      exact List.suffix_append _ _
    · rintro htwo ⟨fp, hsuffix⟩
      have hle := List.nodup_replicate.mp (hnodup.sublist hsuffix.sublist)
      omega

/-- Two positions of the history hold different calls. -/
theorem fingerprint_ne {i j : Nat} {a b : Nat × String} (hi : d.history[i]? = some a)
    (hj : d.history[j]? = some b) (hij : i ≠ j) : a.1 ≠ b.1 := by
  have hi' : (d.history.map Prod.fst)[i]? = some a.1 := by rw [List.getElem?_map, hi]; rfl
  have hj' : (d.history.map Prod.fst)[j]? = some b.1 := by rw [List.getElem?_map, hj]; rfl
  intro heq
  have hsame := hi'.trans ((congrArg some heq).trans hj'.symm)
  exact hij ((List.getElem?_inj (List.getElem?_eq_some_iff.mp hi').1 hnodup).mp hsame)

/-- Where the stretch goes beyond one cycle, the second block differs from the first; else the
comparison holds of nothing, or reads past the end. -/
theorem repeats_of_nodup {required cycleLen : Nat} (hle : cycleLen ≤ required)
    (hlong : required ≤ d.history.length)
    (hexact : required ≤ cycleLen * (d.config.cycleRepetitions + 1)) :
    repeats d.history (((d.history.drop (d.history.length - required)).take cycleLen).map Prod.fst)
        (d.history.length - required) cycleLen d.config.cycleRepetitions 1 = some false ↔
      cycleLen < required := by
  cases cycleLen with
  | zero =>
    have hzero : required = 0 := by omega
    rw [hzero, List.take_zero, List.map_nil, repeats_nil]
    simp
  | succ len =>
    have hstart : d.history.length - required < d.history.length := by omega
    have hfirst := List.getElem?_eq_getElem hstart
    rw [List.drop_eq_getElem_cons hstart, List.take_succ_cons, List.map_cons]
    cases hreps : d.config.cycleRepetitions with
    | zero =>
      rw [hreps] at hexact
      rw [repeats]
      simpa using hexact
    | succ repetitions =>
      rw [repeats, sameBlock, Nat.one_mul]
      rcases Nat.eq_or_lt_of_le hle with heq | hlt
      · rw [List.getElem?_eq_none (by omega)]
        simp [heq]
      · have hsecond : d.history.length - required + (len + 1) < d.history.length := by omega
        rw [List.getElem?_eq_getElem hsecond]
        have hne := fingerprint_ne hnodup (List.getElem?_eq_getElem hsecond) hfirst (by omega)
        simp [hne, hlt]

/-- A length is passed over when its stretch is longer than the history, or than one cycle. -/
theorem cycleOfLength_of_nodup {cycleLen : Nat} :
    cycleOfLength mode d cycleLen = some none ↔
      ∃ required, requiredLen mode d.config cycleLen = some required ∧
        (d.history.length < required ∨ cycleLen < required) := by
  unfold cycleOfLength
  cases hrequired : requiredLen mode d.config cycleLen with
  | none => simp
  | some required =>
    obtain ⟨times, htimes, hmul⟩ := Option.bind_eq_some_iff.mp hrequired
    have hexact : required ≤ cycleLen * (d.config.cycleRepetitions + 1) :=
      Nat.le_trans (Word.le_of_fit hmul) (Nat.mul_le_mul_left _ (Word.le_of_fit htimes))
    simp only [Option.bind_eq_bind, Option.bind_some, Option.pure_def, Option.some.injEq,
      exists_eq_left', htimes]
    by_cases hshort : d.history.length < required
    · simp [hshort]
    · rw [if_neg hshort, or_iff_right hshort]
      split
      · next hover => simp; omega
      · next hfits =>
        rw [← repeats_of_nodup hnodup (Nat.not_lt.mp hfits) (Nat.not_lt.mp hshort) hexact]
        cases repeats d.history _ _ cycleLen _ 1 with
        | none => simp
        | some same => cases same <;> simp

end Distinct

end DoomLoopDetector.Usize

namespace DoomLoopConfig

open DoomLoopDetector DoomLoopDetector.Usize

variable (mode : Word.Overflow) (config : DoomLoopConfig)

/-- The lengths of a search of so many distinct calls are computed without a panic, and each is
longer than the history or than one cycle. -/
def LengthsGood (count : Nat) : Prop :=
  ∃ minRequired, requiredLen mode config config.minCycleLength = some minRequired ∧
    (count < minRequired ∨ ∀ len, config.minCycleLength ≤ len → len ≤ config.maxCycleLength →
      ∃ required, requiredLen mode config len = some required ∧
        (count < required ∨ len < required))

variable {mode config}

theorem LengthsGood.mono {count count' : Nat} (h : config.LengthsGood mode count')
    (hle : count ≤ count') : config.LengthsGood mode count := by
  obtain ⟨minRequired, hmin, hgood⟩ := h
  refine ⟨minRequired, hmin, hgood.imp (Nat.lt_of_le_of_lt hle) fun hall len hge hmax => ?_⟩
  obtain ⟨required, hrequired, hlen⟩ := hall len hge hmax
  exact ⟨required, hrequired, hlen.imp_left (Nat.lt_of_le_of_lt hle)⟩

/-- Lengths and repetitions above zero are good as long as the longest cycle fits a word. -/
theorem lengthsGood_of_fits (hmin : 1 ≤ config.minCycleLength)
    (hle : config.minCycleLength ≤ config.maxCycleLength) (hreps : 1 ≤ config.cycleRepetitions)
    (hfits : ¬ config.Overflows config.maxCycleLength) (count : Nat) :
    config.LengthsGood mode count := by
  have hlen (len : Nat) (hpos : 1 ≤ len) (hmax : len ≤ config.maxCycleLength) :
      requiredLen mode config len = some (len * (config.cycleRepetitions + 1)) := by
    refine (requiredLen_eq hpos fun hover => hfits ?_).1
    exact Nat.lt_of_lt_of_le hover (Nat.mul_le_mul_right _ hmax)
  refine ⟨_, hlen _ hmin hle, .inr fun len hge hmax => ⟨_, hlen len (by omega) hmax, .inr ?_⟩⟩
  exact (Nat.lt_mul_iff_one_lt_right (by omega)).mpr (by omega)

/-- One search of distinct calls. -/
theorem check_of_nodup {d : DoomLoopDetector} (hnodup : (d.history.map Prod.fst).Nodup)
    (hne : d.history ≠ []) : check mode d = some none ↔
      2 ≤ d.config.consecutiveThreshold ∧ d.config.LengthsGood mode d.history.length := by
  have hcopies := checkConsecutiveDuplicate_of_nodup hnodup hne
  have hcycle : Usize.checkCycle mode d = some none ↔
      d.config.LengthsGood mode d.history.length := by
    unfold Usize.checkCycle LengthsGood
    cases hmin : requiredLen mode d.config d.config.minCycleLength with
    | none => simp
    | some minRequired =>
      simp only [Option.bind_eq_bind, Option.bind_some, Option.pure_def, Option.some.injEq,
        exists_eq_left']
      split
      · next hshort => simp [hshort]
      · next hlong =>
        rw [or_iff_right hlong, firstCycle_eq_none_iff]
        refine forall₂_congr fun len hle => ?_
        rw [cycleOfLength_of_nodup hnodup]
        have hlt : len < d.config.minCycleLength +
            (d.config.maxCycleLength + 1 - d.config.minCycleLength) ↔
            len ≤ d.config.maxCycleLength := by omega
        rw [hlt]
  unfold check
  cases hfound : d.checkConsecutiveDuplicate with
  | some found =>
    have hnot : ¬ 2 ≤ d.config.consecutiveThreshold := fun h => by
      rw [hcopies.mpr h] at hfound
      cases hfound
    simp [hnot]
  | none => simp [hcycle, hcopies.mp hfound]

variable {hash : String → Value → Nat} {calls : List (String × Value)}

/-- **Distinct calls never raise an alarm and never panic exactly when the search is off, or its
threshold is at least two and its lengths are good: no length that it computes overflows, and
each that fits the history is longer than one cycle**. -/
theorem quiet_iff_lengthsGood (hdistinct : (calls.map callKey).Nodup) (hsome : 2 ≤ calls.length)
    (hinj : NoCollision hash calls) : Quiet mode hash (.new config) calls ↔
      config.enabled = false ∨
        2 ≤ config.consecutiveThreshold ∧ config.LengthsGood mode calls.length := by
  cases henabled : config.enabled with
  | false => exact iff_of_true (quiet_of_disabled henabled) (.inl rfl)
  | true =>
    have hnodup : ((after hash config calls).history.map Prod.fst).Nodup := by
      rw [fingerprints_after]
      exact hdistinct.map_on fun key hkey key' hkey' heq => hinj hkey hkey' heq
    have hcheck (part : List (String × Value)) (hne : part ≠ []) (hpart : part <+: calls) :
        check mode (after hash config part) = some none ↔
          2 ≤ config.consecutiveThreshold ∧ config.LengthsGood mode part.length := by
      have hsub : ((after hash config part).history.map Prod.fst).Nodup := by
        rw [fingerprints_after] at hnodup ⊢
        exact hnodup.sublist ((hpart.sublist.map callKey).map _)
      have hhistory : (after hash config part).history ≠ [] := by
        simpa [after] using hne
      have hlength : part.length = (after hash config part).history.length := length_after.symm
      rw [hlength]
      exact check_of_nodup hsub hhistory
    have hquiet : Quiet mode hash (after hash config []) calls ↔ ∀ part, part ≠ [] →
        part <+: calls → check mode (after hash config ([] ++ part)) = some none :=
      quiet_after_iff henabled
    have hne : calls ≠ [] := by
      rintro rfl
      simp at hsome
    simp only [Bool.true_eq_false, false_or]
    refine hquiet.trans ?_
    constructor
    · intro h
      exact (hcheck calls hne (List.prefix_refl _)).mp (h calls hne (List.prefix_refl _))
    · intro h part hsome hpart
      exact (hcheck part hsome hpart).mpr ⟨h.1, h.2.mono hpart.length_le⟩

/-- Two calls of different tools raise no alarm under the default configuration. -/
theorem default_quiet : Quiet .panics (fun name _ => name.length) (.new {})
    [("read", .null), ("write", .null)] := by
  have hnodup : ([("read", .null), ("write", .null)].map callKey).Nodup := by
    simp [callKey]
  refine (quiet_iff_lengthsGood hnodup (by decide) ?_).mpr (.inr ⟨by decide, ?_⟩)
  · intro key hkey key' hkey' heq
    simp only [callKey, List.map_cons, List.map_nil, List.mem_cons, List.not_mem_nil, or_false,
      Set.mem_ofPred_eq] at hkey hkey'
    rcases hkey with rfl | rfl <;> rcases hkey' with rfl | rfl <;>
      first | rfl | exact absurd heq (by decide)
  · exact lengthsGood_of_fits (by decide) (by decide) (by decide) (by decide) 2

/-- Configurations that the setters accept and under which the first of two distinct calls raises
an alarm, or brings the search down. -/
theorem degenerate_not_quiet :
    let calls : List (String × Value) := [("read", .null), ("write", .null)]
    let hash : String → Value → Nat := fun name _ => name.length
    (calls.map callKey).Nodup ∧ ∀ mode,
      ¬ Quiet mode hash (.new { consecutiveThreshold := 0 }) calls ∧
      ¬ Quiet mode hash (.new { minCycleLength := 0 }) calls ∧
      ¬ Quiet mode hash (.new { minCycleLength := 1, cycleRepetitions := 0 }) calls ∧
      ¬ Quiet mode hash (.new { minCycleLength := 1, cycleRepetitions := Word.max64 }) calls := by
  refine ⟨by simp [callKey], fun mode => ⟨?_, ?_, ?_, ?_⟩⟩ <;>
    · cases mode <;>
      · rintro ⟨hfirst, -⟩
        cases hfirst

end DoomLoopConfig

end Behest
