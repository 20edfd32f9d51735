import Mathlib.Data.List.Count
import Mathlib.Data.List.Nodup
import Mathlib.Data.List.Range
import Behest.Tool.BatchLimits

/-!
# Hooks around an execution

The hooks of the runtime of `behest-tool/src/tool_runtime.rs`. To say which of them are called,
a runtime is noted: each of its hooks and tools writes its calls to a log beside the state, and
does otherwise what it did. A hook that refuses ends the execution, and no hook is told of it.
-/

namespace Behest.ToolCrate

/-- A call to the hook at a position, with what it returned, or to the tool. -/
inductive HookEvent where
  | before (i : Nat) (ok : Bool)
  | ran
  | after (i : Nat)
deriving DecidableEq

variable {σ : Type}

/-- The hook at a position, noting its calls. -/
def ToolHook.noted (hook : ToolHook σ) (i : Nat) : ToolHook (σ × List HookEvent) where
  beforeExecute name id input w :=
    let r := hook.beforeExecute name id input w.1
    (r.1, r.2, w.2 ++ [.before i r.1.isNone])
  afterExecute name id result w :=
    let r := hook.afterExecute name id result w.1
    (r.1, r.2, w.2 ++ [.after i])

/-- The tool, noting its executions. -/
def Tool.noted (tool : Tool σ) : Tool (σ × List HookEvent) where
  name := tool.name
  sandboxProfile := tool.sandboxProfile
  timeout := tool.timeout
  execute w input :=
    let r := tool.execute w.1 input
    (r.1, r.2, w.2 ++ [.ran])
  executeWithin timeout w input :=
    let r := tool.executeWithin timeout w.1 input
    (r.1, r.2, w.2 ++ [.ran])

/-- Hooks at the positions from `k` on, noting their calls. -/
def notedFrom (k : Nat) : List (ToolHook σ) → List (ToolHook (σ × List HookEvent))
  | [] => []
  | hook :: rest => hook.noted k :: notedFrom (k + 1) rest

namespace ToolRuntime

/-- The runtime, noting the calls to its hooks and tools. -/
def noted (rt : ToolRuntime σ) : ToolRuntime (σ × List HookEvent) :=
  ⟨rt.registry.map Tool.noted, notedFrom 0 rt.hooks, rt.limits⟩

variable (rt : ToolRuntime σ)

/-- The calls to `before_execute` of the hooks from position `k` on. -/
def entered (name id : String) (input : Value) : Nat → List (ToolHook σ) → σ → List HookEvent
  | _, [], _ => []
  | k, hook :: rest, s =>
      match hook.beforeExecute name id input s with
      | (some _, _) => [.before k false]
      | (none, s) => .before k true :: entered name id input (k + 1) rest s

theorem runBefore_noted (name id : String) (input : Value) (hooks : List (ToolHook σ)) (k : Nat)
    (s : σ) (log : List HookEvent) :
    runBefore name id input (notedFrom k hooks) (s, log) =
      ((runBefore name id input hooks s).1, (runBefore name id input hooks s).2,
        log ++ entered name id input k hooks s) := by
  induction hooks generalizing k s log with
  | nil => simp [notedFrom, runBefore, entered]
  | cons hook rest ih =>
    simp only [notedFrom, runBefore, entered, ToolHook.noted]
    rcases hcall : hook.beforeExecute name id input s with ⟨refusal, s'⟩
    cases refusal with
    | some e => simp
    | none => simp [ih]

/-- The hooks are called in order, up to the first that refuses. -/
theorem entered_eq (name id : String) (input : Value) (hooks : List (ToolHook σ)) (k : Nat)
    (s : σ) :
    ((runBefore name id input hooks s).1 = none ∧
        entered name id input k hooks s =
          (List.range' k hooks.length).map fun i => .before i true) ∨
      ((runBefore name id input hooks s).1 ≠ none ∧ ∃ j < hooks.length,
        entered name id input k hooks s =
          ((List.range' k j).map fun i => .before i true) ++ [.before (k + j) false]) := by
  induction hooks generalizing k s with
  | nil => exact .inl ⟨rfl, rfl⟩
  | cons hook rest ih =>
    simp only [runBefore, entered, List.length_cons]
    rcases hook.beforeExecute name id input s with ⟨refusal, s'⟩
    cases refusal with
    | some e => exact .inr ⟨nofun, 0, Nat.succ_pos _, rfl⟩
    | none =>
      rcases ih (k + 1) s' with ⟨hnone, hlog⟩ | ⟨hsome, j, hj, hlog⟩
      · exact .inl ⟨hnone, by simp only [hlog, List.range'_succ, List.map_cons]⟩
      · refine .inr ⟨hsome, j + 1, Nat.succ_lt_succ hj, ?_⟩
        simp only [hlog, List.range'_succ, List.map_cons, List.cons_append]
        rw [Nat.add_right_comm, Nat.add_assoc]

theorem runTool_noted (tool : Tool σ) (call : ToolCall) (s : σ) (log : List HookEvent) :
    rt.noted.runTool tool.noted call (s, log) =
      ((rt.runTool tool call s).1, (rt.runTool tool call s).2, log ++ [.ran]) := by
  simp only [runTool, noted, Tool.noted]
  cases tool.timeout.or rt.limits.maxTimeout with
  | none => rfl
  | some timeout =>
    dsimp only
    rcases hcall : tool.executeWithin timeout s call.arguments with ⟨_ | result, s'⟩ <;> simp

theorem foldl_after_noted (name id : String) (hooks : List (ToolHook σ)) (k : Nat)
    (r : ToolResult) (s : σ) (log : List HookEvent) :
    (notedFrom k hooks).foldl (fun r hook => hook.afterExecute name id r.1 r.2) (r, s, log) =
      ((hooks.foldl (fun r hook => hook.afterExecute name id r.1 r.2) (r, s)).1,
        (hooks.foldl (fun r hook => hook.afterExecute name id r.1 r.2) (r, s)).2,
        log ++ (List.range' k hooks.length).map .after) := by
  induction hooks generalizing k r s log with
  | nil => simp [notedFrom]
  | cons hook rest ih =>
    simp only [notedFrom, List.foldl_cons, ToolHook.noted, ih, List.length_cons,
      List.range'_succ, List.map_cons, List.append_assoc, List.singleton_append]

theorem get_noted (name : String) : rt.noted.get name = (rt.get name).map Tool.noted := by
  rw [get, get, noted, List.find?_map]
  rfl

/-- The calls that an execution leads to: none when it is refused before the hooks; those up to
the hook that refuses; or all hooks, the tool, and all hooks again. -/
inductive HookLog (n : Nat) : List HookEvent → Prop where
  | rejected : HookLog n []
  | refused (j : Nat) (hj : j < n) :
      HookLog n (((List.range' 0 j).map fun i => .before i true) ++ [.before j false])
  | executed :
      HookLog n (((List.range' 0 n).map fun i => .before i true) ++ .ran ::
        (List.range' 0 n).map .after)

/-- Noting changes nothing else, and the log has one of the three forms. -/
theorem executeTool_noted (tool : Tool σ) (call : ToolCall) (s : σ) :
    ∃ log, HookLog rt.hooks.length log ∧
      rt.noted.executeTool tool.noted call (s, []) =
        ⟨call, (rt.executeTool tool call s).ran, (rt.executeTool tool call s).result,
          (rt.executeTool tool call s).state, log⟩ := by
  have hcheck : (rt.noted.checkInput tool.noted call).or (rt.noted.checkSandbox tool.noted) =
      (rt.checkInput tool call).or (rt.checkSandbox tool) := rfl
  rw [executeTool, executeTool, hcheck]
  cases (rt.checkInput tool call).or (rt.checkSandbox tool) with
  | some e => exact ⟨[], .rejected, rfl⟩
  | none =>
    have hbefore := runBefore_noted tool.name call.id call.arguments rt.hooks 0 s []
    have hentered := entered_eq tool.name call.id call.arguments rt.hooks 0 s
    dsimp only
    rw [show runBefore tool.noted.name call.id call.arguments rt.noted.hooks (s, []) = _ from
      hbefore]
    rcases hrun : runBefore tool.name call.id call.arguments rt.hooks s with ⟨refusal, s'⟩
    rw [hrun] at hentered
    cases refusal with
    | some e =>
      rcases hentered with ⟨hnone, -⟩ | ⟨-, j, hj, hlog⟩
      · cases hnone
      · exact ⟨_, .refused j hj, by simp [hlog]⟩
    | none =>
      rcases hentered with ⟨-, hlog⟩ | ⟨hsome, -⟩
      · have hafter := foldl_after_noted tool.name call.id rt.hooks 0
          (rt.checkOutput tool (rt.runTool tool call s').1) (rt.runTool tool call s').2
          ([] ++ entered tool.name call.id call.arguments 0 rt.hooks s ++ [.ran])
        refine ⟨_, .executed, ?_⟩
        dsimp only
        rw [runTool_noted]
        refine (congrArg (fun r => Executed.mk call true r.1 r.2) hafter).trans ?_
        simp [hlog]
      · exact absurd rfl hsome

theorem execute_noted (call : ToolCall) (s : σ) :
    ∃ log, HookLog rt.hooks.length log ∧
      rt.noted.execute call (s, []) =
        ⟨call, (rt.execute call s).ran, (rt.execute call s).result, (rt.execute call s).state,
          log⟩ := by
  rw [execute, execute, get_noted]
  cases rt.get call.name with
  | none => exact ⟨[], .rejected, rfl⟩
  | some tool => exact rt.executeTool_noted tool call s

/-! ### Brackets -/

variable {n : Nat} {log : List HookEvent}

theorem HookLog.count_after (h : HookLog n log) (hok : ∀ j, .before j false ∉ log) {i : Nat}
    (hi : .before i true ∈ log) : log.count (.after i) = 1 := by
  cases h with
  | rejected => cases hi
  | refused j hj => exact absurd (List.mem_append_right _ List.mem_cons_self) (hok j)
  | executed =>
    have hrange : i ∈ List.range' 0 n := by simpa using hi
    have hinj : Function.Injective HookEvent.after := fun a b hab => HookEvent.after.inj hab
    have hbefore : ((List.range' 0 n).map fun i => HookEvent.before i true).count (.after i) = 0 :=
      List.count_eq_zero.mpr (by simp)
    have hran : HookEvent.ran ≠ .after i := nofun
    rw [List.count_append, hbefore, List.count_cons_of_ne hran,
      List.count_map_of_injective _ _ hinj, List.count_eq_one_of_mem List.nodup_range' hrange]

theorem HookLog.opened (h : HookLog n log) {front back : List HookEvent} {i : Nat}
    (hsplit : log = front ++ .after i :: back) : .before i true ∈ front := by
  have hmem : HookEvent.after i ∈ log := by simp [hsplit]
  cases h with
  | rejected => cases hmem
  | refused j hj => simp at hmem
  | executed =>
    have hrange : i ∈ List.range' 0 n := by simpa using hmem
    -- The calls before the execution of the tool are no calls to `after_execute`.
    have hprefix : ((List.range' 0 n).map fun i => HookEvent.before i true) <+: front := by
      rcases List.append_eq_append_iff.mp hsplit with ⟨rest, hfront, -⟩ | ⟨rest, hlong, hrest⟩
      · exact ⟨rest, hfront.symm⟩
      · cases rest with
        | nil => exact ⟨[], by simp [hlong]⟩
        | cons first others =>
          obtain ⟨rfl, -⟩ := List.cons.inj hrest
          have hafter : HookEvent.after i ∈
              (List.range' 0 n).map fun i => HookEvent.before i true := by simp [hlong]
          simp at hafter
    exact hprefix.subset (List.mem_map_of_mem hrange)

theorem HookLog.spared (h : HookLog n log) {j : Nat} (hj : .before j false ∈ log) :
    .ran ∉ log ∧ ∀ i, .after i ∉ log := by
  cases h with
  | rejected => cases hj
  | refused k hk => simp
  | executed => simp at hj

/-- What is asked of the calls of an execution: each hook that let the call through is called
once afterwards, none is called afterwards that did not, and no tool runs that a hook refused. -/
structure Bracketed (log : List HookEvent) : Prop where
  closed : ∀ i, .before i true ∈ log → log.count (.after i) = 1
  opened : ∀ front back i, log = front ++ .after i :: back → .before i true ∈ front
  spared : ∀ j, .before j false ∈ log → .ran ∉ log

/-- In an execution that no hook refuses, each hook that let the call through is called once
afterwards; when a hook refuses, neither the tool runs nor is any hook called afterwards; and a
hook is only called afterwards when it let the call through. -/
theorem hooks_execute (call : ToolCall) (s : σ) :
    (rt.noted.execute call (s, [])).result = (rt.execute call s).result ∧
      (rt.noted.execute call (s, [])).state.1 = (rt.execute call s).state ∧
      (∀ i, .before i true ∈ (rt.noted.execute call (s, [])).state.2 →
        (∀ j, .before j false ∉ (rt.noted.execute call (s, [])).state.2) →
          (rt.noted.execute call (s, [])).state.2.count (.after i) = 1) ∧
      (∀ front back i, (rt.noted.execute call (s, [])).state.2 = front ++ .after i :: back →
        .before i true ∈ front) ∧
      ∀ j, .before j false ∈ (rt.noted.execute call (s, [])).state.2 →
        .ran ∉ (rt.noted.execute call (s, [])).state.2 ∧
          ∀ i, .after i ∉ (rt.noted.execute call (s, [])).state.2 := by
  obtain ⟨log, hlog, hrun⟩ := rt.execute_noted call s
  rw [hrun]
  exact ⟨rfl, rfl, fun i hi hok => hlog.count_after hok hi, fun front back i => hlog.opened,
    fun j => hlog.spared⟩

end ToolRuntime

/-- A hook that refuses every call, or lets every call through. -/
def gate (refusal : Option ToolError) : ToolHook Nat where
  beforeExecute _ _ _ n := (refusal, n)
  afterExecute _ _ result n := (result, n)

/-- The second hook refuses, and the first is not told. -/
theorem first_hook_left_open :
    ¬ ToolRuntime.Bracketed ((ToolRuntime.noted ⟨[counting "read" .null],
        [gate none, gate (some (.execution "audit" "no"))],
        ⟨none, none, none, none, none, none⟩⟩).execute ⟨"1", "read", .null⟩ (0, [])).state.2 := by
  intro h
  exact absurd (h.closed 0 (by decide)) (by decide)

end Behest.ToolCrate
