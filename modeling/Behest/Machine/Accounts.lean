import Behest.Machine.Transition

/-!
# What the run machine accounts for

The machine reads neither its configuration nor its past: it executes tools for every
completion that calls them, and it finishes a run with the usage of the last completion, or
with none when the last completion was not streamed. When that is within the limit and the
usage of the whole run.
-/

namespace Behest

namespace TokenUsage

/-- The usages of a run merged. -/
def mergeAll : List TokenUsage → TokenUsage
  | [] => new 0 0
  | u :: rest => rest.foldl merge u

theorem mergeAll_concat {us : List TokenUsage} (hne : us ≠ []) (u : TokenUsage) :
    mergeAll (us ++ [u]) = (mergeAll us).merge u := by
  cases us with
  | nil => exact absurd rfl hne
  | cons first rest => simp [mergeAll, List.foldl_append]

/-- Merged with `total`, the usage adds nothing to it. -/
structure Vanishes (u total : TokenUsage) : Prop where
  input : u.inputTokens = 0
  output : u.outputTokens = 0
  creation : addOpt u.cacheCreationInputTokens total.cacheCreationInputTokens =
    total.cacheCreationInputTokens
  read : addOpt u.cacheReadInputTokens total.cacheReadInputTokens = total.cacheReadInputTokens
  cached : addOpt u.cachedInputTokens total.cachedInputTokens = total.cachedInputTokens

/-- The total is that of the other two counts, as `TokenUsage::new` sets it. -/
def Whole (u : TokenUsage) : Prop := u.totalTokens = u.inputTokens + u.outputTokens

theorem addOpt_addOpt_eq_iff (x y z : Option Nat) :
    addOpt (addOpt x y) z = z ↔ addOpt x z = z ∧ addOpt y z = z := by
  cases x <;> cases y <;> cases z <;> simp [addOpt]

/-- Two usages merged vanish when each of them does. -/
theorem vanishes_merge (a b total : TokenUsage) :
    (a.merge b).Vanishes total ↔ a.Vanishes total ∧ b.Vanishes total := by
  constructor
  · rintro ⟨hinput, houtput, hcreation, hread, hcached⟩
    simp only [merge] at hinput houtput hcreation hread hcached
    rw [addOpt_addOpt_eq_iff] at hcreation hread hcached
    exact ⟨⟨by omega, by omega, hcreation.1, hread.1, hcached.1⟩,
      ⟨by omega, by omega, hcreation.2, hread.2, hcached.2⟩⟩
  · rintro ⟨ha, hb⟩
    refine ⟨?_, ?_, ?_, ?_, ?_⟩ <;> simp only [merge]
    · rw [ha.input, hb.input]
    · rw [ha.output, hb.output]
    · exact (addOpt_addOpt_eq_iff _ _ _).mpr ⟨ha.creation, hb.creation⟩
    · exact (addOpt_addOpt_eq_iff _ _ _).mpr ⟨ha.read, hb.read⟩
    · exact (addOpt_addOpt_eq_iff _ _ _).mpr ⟨ha.cached, hb.cached⟩

theorem vanishes_mergeAll {us : List TokenUsage} (hne : us ≠ []) (total : TokenUsage) :
    (mergeAll us).Vanishes total ↔ ∀ u ∈ us, u.Vanishes total := by
  induction us using List.reverseRecOn with
  | nil => exact absurd rfl hne
  | append_singleton us u ih =>
    by_cases hus : us = []
    · subst hus
      simp [mergeAll]
    · rw [mergeAll_concat hus, vanishes_merge, ih hus]
      simp [or_imp, forall_and]

theorem merge_eq_right_iff (a u : TokenUsage) : a.merge u = u ↔ a.Vanishes u ∧ u.Whole := by
  constructor
  · intro h
    have hinput := congrArg inputTokens h
    have houtput := congrArg outputTokens h
    have htotal := congrArg totalTokens h
    simp only [merge] at hinput houtput htotal
    refine ⟨⟨by omega, by omega, congrArg cacheCreationInputTokens h,
      congrArg cacheReadInputTokens h, congrArg cachedInputTokens h⟩, ?_⟩
    unfold Whole
    omega
  · rintro ⟨ha, hwhole⟩
    unfold Whole at hwhole
    rw [merge, ha.input, ha.output, ha.creation, ha.read, ha.cached, Nat.zero_add, Nat.zero_add,
      Nat.add_zero, ← hwhole]

theorem vanishes_new_iff (u : TokenUsage) : u.Vanishes (new 0 0) ↔
    u.inputTokens = 0 ∧ u.outputTokens = 0 ∧ u.cacheCreationInputTokens = none ∧
      u.cacheReadInputTokens = none ∧ u.cachedInputTokens = none := by
  have hnone : ∀ x : Option Nat, addOpt x none = none ↔ x = none := fun x => by
    cases x <;> simp [addOpt]
  constructor
  · rintro ⟨hinput, houtput, hcreation, hread, hcached⟩
    exact ⟨hinput, houtput, (hnone _).mp hcreation, (hnone _).mp hread, (hnone _).mp hcached⟩
  · rintro ⟨hinput, houtput, hcreation, hread, hcached⟩
    exact ⟨hinput, houtput, (hnone _).mpr hcreation, (hnone _).mpr hread, (hnone _).mpr hcached⟩

theorem merge_eq_new_iff (a u : TokenUsage) :
    a.merge u = new 0 0 ↔ a.Vanishes (new 0 0) ∧ u.Vanishes (new 0 0) := by
  rw [← vanishes_merge, vanishes_new_iff]
  constructor
  · intro h
    rw [h]
    exact ⟨rfl, rfl, rfl, rfl, rfl⟩
  · rintro ⟨hinput, houtput, hcreation, hread, hcached⟩
    have htotal : (a.merge u).totalTokens = 0 := by
      simp only [merge] at hinput houtput ⊢
      omega
    revert hinput houtput htotal hcreation hread hcached
    generalize a.merge u = m
    obtain ⟨_, _, _, _, _, _⟩ := m
    rintro rfl rfl rfl rfl rfl rfl
    rfl

end TokenUsage

namespace Machine

open Effect

/-- The usage that a completion reports. -/
def RunInput.usage : RunInput → Option TokenUsage
  | .modelCompleted _ usage => some usage
  | _ => none

/-- The model answers with tool calls. -/
def RunInput.callsTools : RunInput → Bool
  | .modelCompleted message _ => !message.toolCalls.isEmpty
  | _ => false

def RunAction.executes : RunAction → Bool
  | .executeTool _ => true
  | _ => false

/-- The usages of all completions among the inputs. -/
def reported (inputs : List RunInput) : List TokenUsage := inputs.filterMap RunInput.usage

variable (config : RunConfig) (inputs : List RunInput)

/-- The actions that execute tools, among those caused by completions. -/
def executions : Nat :=
  (((visits (transition config) .idle inputs).filter fun visit => visit.2.usage.isSome).flatMap
    fun visit => (transition config visit.1 visit.2).2).countP RunAction.executes

/-- Completions that call tools, at a machine that waits for the model. -/
def toolRounds : Nat :=
  (visits (transition config) .idle inputs).countP fun visit =>
    visit.1.awaitsModel && visit.2.callsTools

/-- A run executes tools within the limit, and is finished with the usage of all its
completions. -/
structure Enforces : Prop where
  limited : executions config inputs ≤ config.maxIterations
  accounted : ∀ before input after, inputs = before ++ input :: after → ∀ reason total,
    .finishRun reason total ∈ (transition config (reached config before) input).2 →
      total = TokenUsage.mergeAll (reported (before ++ [input]))

/-- The model calls tools within the limit; a completion that finishes a run comes after
completions that report nothing, and reports nothing itself when it is not streamed. -/
structure Moderate : Prop where
  rounds : toolRounds config inputs ≤ config.maxIterations
  streamed : ∀ before message usage after,
    inputs = before ++ .modelCompleted message usage :: after → message.toolCalls = [] →
      reached config before = .streamingModel →
        reported before = [] ∨ (∀ u ∈ reported before, u.Vanishes usage) ∧ usage.Whole
  whole : ∀ before message usage after,
    inputs = before ++ .modelCompleted message usage :: after → message.toolCalls = [] →
      reached config before = .callingModel →
        reported before = [] ∧ usage = .new 0 0 ∨ reported before ≠ [] ∧
          ∀ u ∈ reported before ++ [usage], u.Vanishes (.new 0 0)

/-! ### Completions -/

variable {config}

theorem executes_completed (message : Message) (total : TokenUsage) :
    (completed message total).2.countP RunAction.executes =
      if message.toolCalls.isEmpty then 0 else 1 := by
  unfold completed
  split <;> rfl

/-- A completion has tools executed exactly when it calls some and the machine waits for it. -/
theorem countP_executes_completion (state : RunState) (message : Message) (usage : TokenUsage) :
    (transition config state (.modelCompleted message usage)).2.countP RunAction.executes =
      if state.awaitsModel && RunInput.callsTools (.modelCompleted message usage) then 1
      else 0 := by
  cases state with
  | callingModel | streamingModel =>
    rw [transition, executes_completed]
    cases h : message.toolCalls.isEmpty <;> simp [RunState.awaitsModel, RunInput.callsTools, h]
  | _ => rfl

theorem executions_eq : executions config inputs = toolRounds config inputs := by
  unfold executions toolRounds
  induction visits (transition config) .idle inputs with
  | nil => rfl
  | cons visit rest ih =>
    obtain ⟨state, input⟩ := visit
    rw [List.countP_cons, ← ih]
    cases input with
    | modelCompleted message usage =>
      rw [List.filter_cons_of_pos rfl, List.flatMap_cons, List.countP_append,
        countP_executes_completion, Nat.add_comm]
    | _ => simp [RunInput.usage, RunInput.callsTools]

theorem finishRun_mem_completed {message : Message} {given total : TokenUsage}
    {reason : FinishReason} : .finishRun reason total ∈ (completed message given).2 ↔
      message.toolCalls = [] ∧ reason = .stop ∧ total = given := by
  unfold completed
  split
  · next h =>
    rw [List.isEmpty_iff] at h
    simp [h]
  · next h =>
    rw [List.isEmpty_iff] at h
    simp [h]

/-- A run is finished by a completion without tool calls. -/
theorem finishRun_mem_iff {state : RunState} {input : RunInput} {reason : FinishReason}
    {total : TokenUsage} : .finishRun reason total ∈ (transition config state input).2 ↔
      ∃ message usage, input = .modelCompleted message usage ∧ message.toolCalls = [] ∧
        reason = .stop ∧ (state = .callingModel ∧ total = .new 0 0 ∨
          state = .streamingModel ∧ total = usage) := by
  constructor
  · intro h
    cases input with
    | modelCompleted message usage =>
      refine ⟨message, usage, rfl, ?_⟩
      cases state with
      | callingModel =>
        obtain ⟨hcalls, hreason, htotal⟩ := finishRun_mem_completed.mp h
        exact ⟨hcalls, hreason, .inl ⟨rfl, htotal⟩⟩
      | streamingModel =>
        obtain ⟨hcalls, hreason, htotal⟩ := finishRun_mem_completed.mp h
        exact ⟨hcalls, hreason, .inr ⟨rfl, htotal⟩⟩
      | _ => simp [transition] at h
    | _ => cases state <;> simp [transition] at h
  · rintro ⟨message, usage, rfl, hcalls, rfl, ⟨rfl, rfl⟩ | ⟨rfl, rfl⟩⟩
    · exact finishRun_mem_completed.mpr ⟨hcalls, rfl, rfl⟩
    · exact finishRun_mem_completed.mpr ⟨hcalls, rfl, rfl⟩

theorem reported_concat (before : List RunInput) (message : Message) (usage : TokenUsage) :
    reported (before ++ [.modelCompleted message usage]) = reported before ++ [usage] := by
  simp [reported, RunInput.usage]

/-- What a streamed run is finished with is the usage of all its completions. -/
theorem mergeAll_streamed_iff (us : List TokenUsage) (usage : TokenUsage) :
    usage = TokenUsage.mergeAll (us ++ [usage]) ↔
      us = [] ∨ (∀ u ∈ us, u.Vanishes usage) ∧ usage.Whole := by
  by_cases hus : us = []
  · subst hus
    simp [TokenUsage.mergeAll]
  · rw [TokenUsage.mergeAll_concat hus, eq_comm, TokenUsage.merge_eq_right_iff,
      TokenUsage.vanishes_mergeAll hus]
    exact (or_iff_right hus).symm

/-- What any other run is finished with is the usage of all its completions. -/
theorem mergeAll_whole_iff (us : List TokenUsage) (usage : TokenUsage) :
    .new 0 0 = TokenUsage.mergeAll (us ++ [usage]) ↔
      us = [] ∧ usage = .new 0 0 ∨ us ≠ [] ∧ ∀ u ∈ us ++ [usage], u.Vanishes (.new 0 0) := by
  by_cases hus : us = []
  · subst hus
    simp [TokenUsage.mergeAll, eq_comm]
  · rw [TokenUsage.mergeAll_concat hus, eq_comm, TokenUsage.merge_eq_new_iff,
      TokenUsage.vanishes_mergeAll hus]
    simp [hus, or_imp, forall_and]

variable (config) in
/-- **The machine enforces its configuration exactly on moderate inputs**. -/
theorem enforces_iff : Enforces config inputs ↔ Moderate config inputs := by
  constructor
  · rintro ⟨hlimited, haccounted⟩
    refine ⟨executions_eq inputs ▸ hlimited, ?_, ?_⟩
    · intro before message usage after hinputs hcalls hstate
      have htotal := haccounted before _ after hinputs .stop usage
        (finishRun_mem_iff.mpr ⟨message, usage, rfl, hcalls, rfl, .inr ⟨hstate, rfl⟩⟩)
      rw [reported_concat] at htotal
      exact (mergeAll_streamed_iff _ _).mp htotal
    · intro before message usage after hinputs hcalls hstate
      have htotal := haccounted before _ after hinputs .stop (.new 0 0)
        (finishRun_mem_iff.mpr ⟨message, usage, rfl, hcalls, rfl, .inl ⟨hstate, rfl⟩⟩)
      rw [reported_concat] at htotal
      exact (mergeAll_whole_iff _ _).mp htotal
  · rintro ⟨hrounds, hstreamed, hwhole⟩
    refine ⟨executions_eq inputs ▸ hrounds, ?_⟩
    intro before input after hinputs reason total hfinish
    obtain ⟨message, usage, rfl, hcalls, -, ⟨hstate, rfl⟩ | ⟨hstate, rfl⟩⟩ :=
      finishRun_mem_iff.mp hfinish
    · rw [reported_concat]
      exact (mergeAll_whole_iff _ _).mpr (hwhole before message usage after hinputs hcalls hstate)
    · rw [reported_concat]
      exact (mergeAll_streamed_iff _ _).mpr
        (hstreamed before message _ after hinputs hcalls hstate)

/-- A run of two tool calls, with a limit of one, and a run of one completion that is not
streamed. -/
theorem unlimited_and_unaccounted :
    ¬ Enforces { maxIterations := 1 } [.userMessageReceived [], .userMessageReceived [],
        .modelCompleted echoCall (.new 100 50), .runtimeErrorReceived "timeout",
        .userMessageReceived [], .modelCompleted echoCall (.new 100 50)] ∧
      ¬ Enforces {} [.userMessageReceived [], .userMessageReceived [],
        .modelCompleted (.assistantText "done") (.new 100 50)] := by
  constructor
  · intro h
    exact absurd h.limited (by decide)
  · intro h
    have htotal := h.accounted [.userMessageReceived [], .userMessageReceived []]
      (.modelCompleted (.assistantText "done") (.new 100 50)) [] rfl .stop (.new 0 0)
      (List.mem_singleton_self _)
    cases htotal

end Machine

end Behest
