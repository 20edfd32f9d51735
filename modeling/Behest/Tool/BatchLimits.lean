import Mathlib.Logic.Basic
import Behest.Core.Error
import Behest.Runtime.Policy

/-!
# Limits of the tool crate

The tool runtime of `behest-tool/src/tool_runtime.rs`, which is not the one the run loop uses:
it checks the sizes of inputs and outputs, the sandbox and the timeout of each call, runs hooks
around it, and limits the number of calls of a batch and the bytes of their outputs. What tools
and hooks read and change is a state of any type.
-/

namespace Behest.ToolCrate

/-- Source: `behest-tool/src/lib.rs:45–48`. -/
structure ToolOutput where
  value : Value
deriving DecidableEq

abbrev ToolResult := Except ToolError ToolOutput

/-- Source: `behest-core/src/tool_types.rs:142–151`. -/
inductive SandboxProfile where
  | inherited
  | readOnly
  | workspaceWrite
  | networkEnabled
deriving DecidableEq

namespace SandboxProfile

def rank : SandboxProfile → Nat
  | inherited => 0
  | readOnly => 1
  | workspaceWrite => 2
  | networkEnabled => 3

/-- Source: `behest-core/src/tool_types.rs:156–158`. -/
def allows (self requested : SandboxProfile) : Bool := decide (self.rank ≥ requested.rank)

def debug : SandboxProfile → String
  | inherited => "Inherited"
  | readOnly => "ReadOnly"
  | workspaceWrite => "WorkspaceWrite"
  | networkEnabled => "NetworkEnabled"

end SandboxProfile

/-- The limits, without the number of parallel tools that the runtime does not read.
Source: `behest-core/src/tool_types.rs:177–192`. -/
structure ToolRuntimeLimits where
  maxInputBytes : Option Nat
  maxOutputBytes : Option Nat
  maxTimeout : Option Duration
  maxCallsPerTurn : Option Nat
  maxCumulativeOutputBytes : Option Nat
  maxSandbox : Option SandboxProfile

/-- A tool: what it does when it is given all the time it needs, and what comes of it within a
timeout, `none` when the time elapses. -/
structure Tool (σ : Type) where
  name : String
  sandboxProfile : SandboxProfile
  timeout : Option Duration
  execute : σ → Value → ToolResult × σ
  executeWithin : Duration → σ → Value → Option ToolResult × σ

/-- Source: `tool_runtime.rs:41–66`. -/
structure ToolHook (σ : Type) where
  beforeExecute : String → String → Value → σ → Option ToolError × σ
  afterExecute : String → String → ToolResult → σ → ToolResult × σ

/-- Source: `tool_runtime.rs:81–85`. -/
structure ToolRuntime (σ : Type) where
  registry : List (Tool σ)
  hooks : List (ToolHook σ)
  limits : ToolRuntimeLimits

/-- A call that was executed: whether its tool ran, its own result, and the state after it. -/
structure Executed (σ : Type) where
  call : ToolCall
  ran : Bool
  result : ToolResult
  state : σ

/-- The length of the JSON text of a value. -/
def jsonBytes (value : Value) : Nat := value.render.utf8ByteSize

def outputBytes : ToolResult → Nat
  | .ok output => jsonBytes output.value
  | .error _ => 0

/-- The error of a call whose output, with those before it, is more than the batch may have.
Source: `tool_runtime.rs:252–258`. -/
def batchError (cumulative max : Nat) : ToolError :=
  .execution "batch" ("cumulative tool output (" ++ toString cumulative ++
    " bytes) exceeded runtime limit (" ++ toString max ++ " bytes)")

def usizeMax : Nat := 2 ^ 64 - 1

namespace ToolRuntime

variable {σ : Type} (rt : ToolRuntime σ)

def get (name : String) : Option (Tool σ) := rt.registry.find? fun t => t.name == name

/-- Source: `tool_runtime.rs:285–299`. -/
def checkInput (tool : Tool σ) (call : ToolCall) : Option ToolError :=
  rt.limits.maxInputBytes.bind fun max =>
    let bytes := jsonBytes call.arguments
    if bytes > max then
      some (.invalidArguments tool.name ("tool input (" ++ toString bytes ++
        " bytes) exceeds limit (" ++ toString max ++ " bytes)"))
    else none

/-- Source: `tool_runtime.rs:302–312`. -/
def checkSandbox (tool : Tool σ) : Option ToolError :=
  rt.limits.maxSandbox.bind fun max =>
    if max.allows tool.sandboxProfile then none
    else some (.execution tool.name ("tool sandbox " ++ tool.sandboxProfile.debug ++
      " exceeds runtime limit " ++ max.debug))

/-- The hooks before the execution, up to the first that fails. -/
def runBefore (name id : String) (input : Value) : List (ToolHook σ) → σ → Option ToolError × σ
  | [], s => (none, s)
  | hook :: rest, s =>
      match hook.beforeExecute name id input s with
      | (some e, s) => (some e, s)
      | (none, s) => runBefore name id input rest s

/-- Source: `tool_runtime.rs:321–336`. -/
def runTool (tool : Tool σ) (call : ToolCall) (s : σ) : ToolResult × σ :=
  match tool.timeout.or rt.limits.maxTimeout with
  | some timeout =>
      match tool.executeWithin timeout s call.arguments with
      | (some result, s) => (result, s)
      | (none, s) => (.error (.execution tool.name ("tool execution timed out after " ++
          toString (timeout.nanos / 1000000) ++ "ms")), s)
  | none => tool.execute s call.arguments

/-- Source: `tool_runtime.rs:338–353`. -/
def checkOutput (tool : Tool σ) (result : ToolResult) : ToolResult :=
  match result, rt.limits.maxOutputBytes with
  | .ok output, some max =>
      let bytes := jsonBytes output.value
      if bytes > max then
        .error (.execution tool.name ("tool output (" ++ toString bytes ++
          " bytes) exceeds limit (" ++ toString max ++ " bytes)"))
      else .ok output
  | result, _ => result

/-- Source: `tool_runtime.rs:274–365`. -/
def executeTool (tool : Tool σ) (call : ToolCall) (s : σ) : Executed σ :=
  match (rt.checkInput tool call).or (rt.checkSandbox tool) with
  | some e => ⟨call, false, .error e, s⟩
  | none =>
      match runBefore tool.name call.id call.arguments rt.hooks s with
      | (some e, s) => ⟨call, false, .error e, s⟩
      | (none, s) =>
          let (result, s) := rt.runTool tool call s
          let (result, s) := rt.hooks.foldl
            (fun r hook => hook.afterExecute tool.name call.id r.1 r.2)
            (rt.checkOutput tool result, s)
          ⟨call, true, result, s⟩

/-- Source: `tool_runtime.rs:194–202`. -/
def execute (call : ToolCall) (s : σ) : Executed σ :=
  match rt.get call.name with
  | none => ⟨call, false, .error (.notFound call.name), s⟩
  | some tool => rt.executeTool tool call s

/-- A batch under way: the results so far, the bytes of the outputs, the calls executed. -/
structure Batch (σ : Type) where
  results : List ToolResult
  cumulativeOutputBytes : Nat
  executed : List (Executed σ)
  state : σ

/-- One pass of the loop over a batch of a number of calls. Source: `tool_runtime.rs:236–269`. -/
def batchCall (count : Nat) (b : Batch σ) (call : ToolCall) : Batch σ :=
  let x := rt.execute call b.state
  let cumulative := b.cumulativeOutputBytes + outputBytes x.result
  let exceeded := rt.limits.maxCumulativeOutputBytes.filter fun max => decide (cumulative > max)
  let results :=
    match exceeded with
    | some max =>
        let remaining := count - b.results.length
        let results := b.results ++ [.error (batchError cumulative max)]
        if remaining > 0 then results else results ++ [x.result]
    | none => b.results ++ [x.result]
  ⟨results, cumulative, b.executed ++ [x], x.state⟩

/-- Source: `tool_runtime.rs:219`. -/
def callLimit : Nat := rt.limits.maxCallsPerTurn.getD usizeMax

/-- Source: `tool_runtime.rs:209–272`. -/
def executeBatch (calls : List ToolCall) (s : σ) : Batch σ :=
  if calls.isEmpty then ⟨[], 0, [], s⟩
  else if calls.length > rt.callLimit then
    ⟨calls.map fun call => .error (.invalidArguments call.name ("tool call batch (" ++
      toString calls.length ++ ") exceeds runtime limit (" ++ toString rt.callLimit ++ ")")),
      0, [], s⟩
  else calls.foldl (rt.batchCall calls.length) ⟨[], 0, [], s⟩

/-- What the calls do one after the other, without a limit on the batch. -/
def outcomes : List ToolCall → σ → List (Executed σ)
  | [], _ => []
  | call :: rest, s => rt.execute call s :: outcomes rest (rt.execute call s).state

end ToolRuntime

/-- The bytes of the outputs of some calls. -/
def totalBytes {σ : Type} (executed : List (Executed σ)) : Nat :=
  (executed.map fun x => outputBytes x.result).sum

/-- What a batch promises: one result for each call, its own or an error that names its tool;
and once the outputs exceed the limit, no tool runs any more and the results are errors. -/
structure BatchLaw {σ : Type} (rt : ToolRuntime σ) (calls : List ToolCall)
    (b : ToolRuntime.Batch σ) : Prop where
  length : b.results.length = calls.length
  stems : ∀ (i : Nat) (call : ToolCall) (r : ToolResult), calls[i]? = some call →
    b.results[i]? = some r →
      (∃ x : Executed σ, b.executed[i]? = some x ∧ x.call = call ∧ r = x.result) ∨
        ∃ e : ToolError, r = .error e ∧ e.name = call.name
  stops : ∀ (max i : Nat), rt.limits.maxCumulativeOutputBytes = some max → i < calls.length →
    max < totalBytes (b.executed.take i) →
      (∀ x : Executed σ, b.executed[i]? = some x → x.ran = false) ∧
        ∃ e, b.results[i]? = some (.error e)

namespace ToolRuntime

variable {σ : Type} (rt : ToolRuntime σ)

/-- A batch is refused for its length, or no output takes it above its limit, except where the
error for that is what the law asks for: the call is one of a tool named `batch`, or ends in
that very error, and behind the first such call no tool runs. -/
def StaysWithin (calls : List ToolCall) (s : σ) : Prop :=
  calls.length ≤ rt.callLimit →
    ∀ (max i : Nat) (x : Executed σ), rt.limits.maxCumulativeOutputBytes = some max →
      (rt.outcomes calls s)[i]? = some x →
        max < totalBytes ((rt.outcomes calls s).take (i + 1)) →
          (x.call.name = "batch" ∨
            x.result = .error (batchError (totalBytes ((rt.outcomes calls s).take (i + 1))) max)) ∧
          (max < totalBytes ((rt.outcomes calls s).take i) → x.ran = false)

/-! ### The loop -/

/-- The result of a call, given the bytes of the outputs up to its own. -/
def settle (total : Nat) (x : Executed σ) : ToolResult :=
  match rt.limits.maxCumulativeOutputBytes.filter fun max => decide (total > max) with
  | some max => .error (batchError total max)
  | none => x.result

theorem settle_of_exceeded {max total : Nat} (hmax : rt.limits.maxCumulativeOutputBytes = some max)
    (h : max < total) (x : Executed σ) : rt.settle total x = .error (batchError total max) := by
  rw [settle, hmax, Option.filter_some, if_pos (decide_eq_true h)]

theorem settle_of_within {total : Nat}
    (h : ∀ max, rt.limits.maxCumulativeOutputBytes = some max → total ≤ max) (x : Executed σ) :
    rt.settle total x = x.result := by
  rw [settle]
  cases hmax : rt.limits.maxCumulativeOutputBytes with
  | none => rfl
  | some max =>
    rw [Option.filter_some, if_neg (by simpa using h max hmax)]

@[simp] theorem call_execute (call : ToolCall) (s : σ) : (rt.execute call s).call = call := by
  rw [execute]
  split
  · rfl
  · rw [executeTool]
    split
    · rfl
    · split <;> rfl

@[simp] theorem length_outcomes (calls : List ToolCall) (s : σ) :
    (rt.outcomes calls s).length = calls.length := by
  induction calls generalizing s with
  | nil => rfl
  | cons call rest ih => exact congrArg (· + 1) (ih _)

theorem call_outcomes (calls : List ToolCall) (s : σ) :
    (rt.outcomes calls s).map Executed.call = calls := by
  induction calls generalizing s with
  | nil => rfl
  | cons call rest ih => rw [outcomes, List.map_cons, call_execute, ih]

@[simp] theorem totalBytes_cons (x : Executed σ) (rest : List (Executed σ)) :
    totalBytes (x :: rest) = outputBytes x.result + totalBytes rest := rfl

/-- A pass adds one result. -/
theorem batchCall_eq {count : Nat} {b : Batch σ} (h : b.results.length < count) (call : ToolCall) :
    rt.batchCall count b call =
      ⟨b.results ++
          [rt.settle (b.cumulativeOutputBytes + outputBytes (rt.execute call b.state).result)
            (rt.execute call b.state)],
        b.cumulativeOutputBytes + outputBytes (rt.execute call b.state).result,
        b.executed ++ [rt.execute call b.state], (rt.execute call b.state).state⟩ := by
  have hremaining : count - b.results.length > 0 := by omega
  rw [batchCall, settle]
  split <;> simp_all

/-- The loop executes every call, and settles every result with the bytes up to it. -/
theorem foldl_batchCall {count : Nat} (calls : List ToolCall) (b : Batch σ)
    (h : b.results.length + calls.length = count) :
    (calls.foldl (rt.batchCall count) b).executed = b.executed ++ rt.outcomes calls b.state ∧
      (calls.foldl (rt.batchCall count) b).results = b.results ++
        (rt.outcomes calls b.state).mapIdx fun i x => rt.settle
          (b.cumulativeOutputBytes + totalBytes ((rt.outcomes calls b.state).take (i + 1))) x := by
  induction calls generalizing b with
  | nil => simp [outcomes]
  | cons call rest ih =>
    rw [List.length_cons] at h
    have hpass := rt.batchCall_eq (show b.results.length < count by omega) call
    obtain ⟨hexecuted, hresults⟩ := ih (rt.batchCall count b call) (by
      rw [hpass, List.length_append, List.length_singleton]
      omega)
    rw [List.foldl_cons, hexecuted, hresults, hpass, outcomes]
    refine ⟨by simp, ?_⟩
    simp only [List.mapIdx_cons, List.append_assoc, List.singleton_append, List.take_succ_cons,
      totalBytes_cons, List.take_zero, Nat.add_assoc]
    rfl

/-- A batch that is not refused, result by result. -/
theorem executeBatch_eq {calls : List ToolCall} (h : calls.length ≤ rt.callLimit) (s : σ) :
    (rt.executeBatch calls s).executed = rt.outcomes calls s ∧
      (rt.executeBatch calls s).results = (rt.outcomes calls s).mapIdx fun i x =>
        rt.settle (totalBytes ((rt.outcomes calls s).take (i + 1))) x := by
  rw [executeBatch]
  cases calls with
  | nil => exact ⟨rfl, rfl⟩
  | cons call rest =>
    rw [if_neg (by simp), if_neg (Nat.not_lt.mpr h)]
    have hloop := rt.foldl_batchCall (call :: rest) ⟨[], 0, [], s⟩ (Nat.zero_add _)
    simpa only [List.nil_append, Nat.zero_add] using hloop

theorem batchLaw_of_refused {calls : List ToolCall} (h : rt.callLimit < calls.length) (s : σ) :
    BatchLaw rt calls (rt.executeBatch calls s) := by
  have hne : ¬ calls.isEmpty = true := fun hempty => by
    rw [List.isEmpty_iff.mp hempty] at h
    exact Nat.not_lt_zero _ h
  rw [executeBatch, if_neg hne, if_pos h]
  refine ⟨List.length_map _, fun i call r hcall hr => .inr ?_, fun max i _ _ htotal => ?_⟩
  · rw [List.getElem?_map, hcall, Option.map_some] at hr
    exact ⟨_, (Option.some.inj hr).symm, rfl⟩
  · rw [List.take_nil] at htotal
    exact absurd htotal (Nat.not_lt_zero _)

theorem totalBytes_take_le (executed : List (Executed σ)) (i : Nat) :
    totalBytes (executed.take i) ≤ totalBytes (executed.take (i + 1)) := by
  rw [List.take_add_one, totalBytes, totalBytes, List.map_append, List.sum_append]
  exact Nat.le_add_right ..

/-- The law of a batch holds exactly when its outputs stay within the limit, up to calls whose
own outcome is what the law asks for. -/
theorem batchLaw_iff (calls : List ToolCall) (s : σ) :
    BatchLaw rt calls (rt.executeBatch calls s) ↔ rt.StaysWithin calls s := by
  rcases Nat.lt_or_ge rt.callLimit calls.length with hrefused | hlength
  · exact iff_of_true (rt.batchLaw_of_refused hrefused s)
      fun hle => absurd hrefused (Nat.not_lt.mpr hle)
  obtain ⟨hexecuted, hresults⟩ := rt.executeBatch_eq hlength s
  have hcall {i : Nat} {x : Executed σ} (hx : (rt.outcomes calls s)[i]? = some x) :
      calls[i]? = some x.call := by
    conv_lhs => rw [← rt.call_outcomes calls s]
    rw [List.getElem?_map, hx, Option.map_some]
  have hresult {i : Nat} {x : Executed σ} (hx : (rt.outcomes calls s)[i]? = some x) :
      (rt.executeBatch calls s).results[i]? =
        some (rt.settle (totalBytes ((rt.outcomes calls s).take (i + 1))) x) := by
    rw [hresults, List.getElem?_mapIdx, hx, Option.map_some]
  constructor
  · intro h _ max i x hmax hx htotal
    have hsettle := rt.settle_of_exceeded hmax htotal x
    refine ⟨?_, fun hbefore => ?_⟩
    · rcases h.stems i x.call _ (hcall hx) (hresult hx) with ⟨y, hy, -, hr⟩ | ⟨e, hr, hname⟩
      · rw [hexecuted, hx] at hy
        obtain rfl := Option.some.inj hy
        exact .inr (hr.symm.trans hsettle)
      · rw [hsettle] at hr
        obtain rfl := Except.error.inj hr
        exact .inl hname.symm
    · have hi : i < calls.length := (List.getElem?_eq_some_iff.mp (hcall hx)).1
      exact (h.stops max i hmax hi (hexecuted ▸ hbefore)).1 x (hexecuted ▸ hx)
  · intro h
    refine ⟨?_, fun i call r hi hr => ?_, fun max i hmax hi htotal => ?_⟩
    · rw [hresults, List.length_mapIdx, length_outcomes]
    · have hlt : i < (rt.outcomes calls s).length := by
        rw [length_outcomes]
        exact (List.getElem?_eq_some_iff.mp hi).1
      have hx := List.getElem?_eq_getElem hlt
      generalize (rt.outcomes calls s)[i] = x at hx
      obtain rfl := Option.some.inj (hi.symm.trans (hcall hx))
      obtain rfl := Option.some.inj (hr.symm.trans (hresult hx))
      by_cases hwithin : ∀ max, rt.limits.maxCumulativeOutputBytes = some max →
          totalBytes ((rt.outcomes calls s).take (i + 1)) ≤ max
      · exact .inl ⟨x, hexecuted ▸ hx, rfl, rt.settle_of_within hwithin x⟩
      · obtain ⟨max, hnot⟩ := not_forall.mp hwithin
        obtain ⟨hmax, hover⟩ := Classical.not_imp.mp hnot
        have htotal := Nat.not_le.mp hover
        rw [rt.settle_of_exceeded hmax htotal x]
        rcases (h hlength max i x hmax hx htotal).1 with hname | hown
        · exact .inr ⟨_, rfl, hname.symm⟩
        · exact .inl ⟨x, hexecuted ▸ hx, rfl, hown.symm⟩
    · have hlt : i < (rt.outcomes calls s).length := by rwa [length_outcomes]
      have hx := List.getElem?_eq_getElem hlt
      generalize (rt.outcomes calls s)[i] = x at hx
      rw [hexecuted] at htotal
      have htotal' := Nat.lt_of_lt_of_le htotal (totalBytes_take_le (rt.outcomes calls s) i)
      refine ⟨fun y hy => ?_, _, (hresult hx).trans (congrArg some
        (rt.settle_of_exceeded hmax htotal' x))⟩
      rw [hexecuted, hx] at hy
      obtain rfl := Option.some.inj hy
      exact (h hlength max i x hmax hx htotal').2 htotal

end ToolRuntime

/-- A tool that counts its runs, and answers with the same value each time. -/
def counting (name : String) (value : Value) : Tool Nat where
  name := name
  sandboxProfile := .inherited
  timeout := none
  execute n _ := (.ok ⟨value⟩, n + 1)
  executeWithin _ n _ := (some (.ok ⟨value⟩), n + 1)

/-- A second tool runs although the output of the first has reached beyond the limit. -/
theorem counted_twice :
    ¬ BatchLaw (⟨[counting "read" .null], [], ⟨none, none, none, none, some 3, none⟩⟩ :
        ToolRuntime Nat) [⟨"1", "read", .null⟩, ⟨"2", "read", .null⟩]
      (ToolRuntime.executeBatch
        ⟨[counting "read" .null], [], ⟨none, none, none, none, some 3, none⟩⟩
        [⟨"1", "read", .null⟩, ⟨"2", "read", .null⟩] 0) := by
  intro h
  have hstop := (h.stops 3 1 rfl (by decide) (by decide +kernel)).1 _ rfl
  exact absurd hstop (by decide +kernel)

end Behest.ToolCrate
