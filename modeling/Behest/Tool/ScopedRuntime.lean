import Behest.Tool.BatchLimits

/-!
# Scoped views of the tool crate's runtime

`ScopedToolRuntime` of `behest-tool/src/tool_runtime.rs`: a filter before a runtime. A batch
has a slot for each call; the calls that are filtered out fill their own, and the results of the
others, which run as a batch of the runtime, fill the rest.
-/

namespace Behest.ToolCrate

/-- Source: `tool_runtime.rs:472–477`. -/
structure ScopedFilter where
  allowlist : List String
  denylist : List String

/-- Source: `tool_runtime.rs:500–508`. -/
def ScopedFilter.allows (filter : ScopedFilter) (name : String) : Bool :=
  if filter.denylist.any (· == name) then false
  else if filter.allowlist.isEmpty then true
  else filter.allowlist.any (· == name)

/-- The error of a call that is filtered out. -/
def notAvailable (name : String) : ToolError :=
  .execution name ("tool `" ++ name ++ "` is not available for this agent")

/-- Source: `tool_runtime.rs:462–465`. -/
structure ScopedToolRuntime (σ : Type) where
  inner : ToolRuntime σ
  filter : ScopedFilter

/-- The slots of a batch, and the calls that are to fill the empty ones. -/
structure Slots where
  results : List (Option ToolResult)
  allowedIndices : List Nat
  allowedCalls : List ToolCall

namespace ScopedToolRuntime

variable {σ : Type} (rt : ScopedToolRuntime σ)

def allowed (call : ToolCall) : Bool := rt.filter.allows call.name

/-- Source: `tool_runtime.rs:538–548`. -/
def place (x : Slots) (entry : ToolCall × Nat) : Slots :=
  if !rt.allowed entry.1 then
    { x with results := x.results.set entry.2 (some (.error (notAvailable entry.1.name))) }
  else
    { x with
      allowedIndices := x.allowedIndices ++ [entry.2]
      allowedCalls := x.allowedCalls ++ [entry.1] }

/-- Source: `tool_runtime.rs:557–559`. -/
def fill (results : List (Option ToolResult)) (indices : List Nat) (answers : List ToolResult) :
    List (Option ToolResult) :=
  (indices.zip answers).foldl (fun results entry => results.set entry.1 (some entry.2)) results

/-- The batch of the inner runtime, with the results of all calls.
Source: `tool_runtime.rs:524–563`. -/
def executeBatch (calls : List ToolCall) (s : σ) : ToolRuntime.Batch σ :=
  let x := calls.zipIdx.foldl rt.place ⟨List.replicate calls.length none, [], []⟩
  if x.allowedCalls.isEmpty then ⟨x.results.filterMap id, 0, [], s⟩
  else
    let b := rt.inner.executeBatch x.allowedCalls s
    { b with results := (fill x.results x.allowedIndices b.results).filterMap id }

/-! ### Slots -/

/-- The slot of a call before any call is executed. -/
def deniedSlot (call : ToolCall) : Option ToolResult :=
  if rt.allowed call then none else some (.error (notAvailable call.name))

/-- The positions of the allowed calls, from position `k` on. -/
def positions : Nat → List ToolCall → List Nat
  | _, [] => []
  | k, call :: rest =>
      if rt.allowed call then k :: positions (k + 1) rest else positions (k + 1) rest

theorem length_positions (calls : List ToolCall) (k : Nat) :
    (rt.positions k calls).length = (calls.filter rt.allowed).length := by
  induction calls generalizing k with
  | nil => rfl
  | cons call rest ih =>
    rw [positions, List.filter_cons]
    split
    · rw [List.length_cons, List.length_cons, ih]
    · exact ih _

/-- The slot behind a front is the first of the rest. -/
theorem set_length_append {α : Type} (front rest : List α) (a b : α) :
    (front ++ a :: rest).set front.length b = front ++ [b] ++ rest := by
  rw [List.set_append_right _ _ (Nat.le_refl _), Nat.sub_self, List.set_cons_zero,
    List.append_assoc, List.singleton_append]

theorem foldl_place (calls : List ToolCall) (front : List (Option ToolResult))
    (indices : List Nat) (before : List ToolCall) :
    (calls.zipIdx front.length).foldl rt.place
        ⟨front ++ List.replicate calls.length none, indices, before⟩ =
      ⟨front ++ calls.map rt.deniedSlot, indices ++ rt.positions front.length calls,
        before ++ calls.filter rt.allowed⟩ := by
  induction calls generalizing front indices before with
  | nil => simp [positions]
  | cons call rest ih =>
    rw [List.zipIdx_cons, List.foldl_cons, List.length_cons, List.replicate_succ, place, positions,
      List.filter_cons, List.map_cons, deniedSlot]
    by_cases hallowed : rt.allowed call = true
    · have hnext := ih (front ++ [none]) (indices ++ [front.length]) (before ++ [call])
      rw [List.length_append, List.length_singleton] at hnext
      simpa [hallowed] using hnext
    · have hnext := ih (front ++ [some (.error (notAvailable call.name))]) indices before
      rw [List.length_append, List.length_singleton] at hnext
      simpa [hallowed, set_length_append] using hnext

/-- The answers of the allowed calls between the errors of the others. -/
def interleave : List ToolCall → List ToolResult → List ToolResult
  | [], _ => []
  | call :: rest, answers =>
      if rt.allowed call then answers.head?.toList ++ interleave rest answers.tail
      else .error (notAvailable call.name) :: interleave rest answers

/-- Over a list of calls with an answer for each allowed one. -/
@[elab_as_elim]
theorem answers_induction
    {motive : (calls : List ToolCall) → (answers : List ToolResult) →
      answers.length = (calls.filter rt.allowed).length → Prop}
    (nil : motive [] [] rfl)
    (allowed : ∀ call rest answer answers h h', rt.allowed call = true → motive rest answers h →
      motive (call :: rest) (answer :: answers) h')
    (denied : ∀ call rest answers h h', rt.allowed call = false → motive rest answers h →
      motive (call :: rest) answers h')
    (calls : List ToolCall) (answers : List ToolResult)
    (h : answers.length = (calls.filter rt.allowed).length) : motive calls answers h := by
  induction calls generalizing answers with
  | nil =>
    obtain rfl := List.eq_nil_of_length_eq_zero h
    exact nil
  | cons call rest ih =>
    have hcounted := h
    rw [List.filter_cons] at hcounted
    split at hcounted
    · next hallowed =>
      cases answers with
      | nil => cases hcounted
      | cons answer answers =>
        exact allowed call rest answer answers _ h hallowed (ih answers (Nat.succ.inj hcounted))
    · next hdenied =>
      exact denied call rest answers _ h (Bool.eq_false_iff.mpr hdenied) (ih answers hcounted)

theorem interleave_cons_allowed {call : ToolCall} (h : rt.allowed call = true)
    (rest : List ToolCall) (answer : ToolResult) (answers : List ToolResult) :
    rt.interleave (call :: rest) (answer :: answers) = answer :: rt.interleave rest answers := by
  rw [interleave, if_pos h]
  rfl

theorem interleave_cons_denied {call : ToolCall} (h : rt.allowed call = false)
    (rest : List ToolCall) (answers : List ToolResult) :
    rt.interleave (call :: rest) answers =
      .error (notAvailable call.name) :: rt.interleave rest answers := by
  rw [interleave, if_neg (Bool.eq_false_iff.mp h)]

theorem fill_eq (calls : List ToolCall) (answers : List ToolResult)
    (front : List (Option ToolResult)) (h : answers.length = (calls.filter rt.allowed).length) :
    fill (front ++ calls.map rt.deniedSlot) (rt.positions front.length calls) answers =
      front ++ (rt.interleave calls answers).map some := by
  induction calls, answers, h using rt.answers_induction generalizing front with
  | nil => simp [fill, positions, interleave]
  | allowed call rest answer answers _ _ hallowed ih =>
    have hnext := ih (front ++ [some answer])
    rw [List.length_append, List.length_singleton] at hnext
    rw [positions, List.map_cons, deniedSlot, rt.interleave_cons_allowed hallowed]
    simp only [if_pos hallowed, fill, List.zip_cons_cons, List.foldl_cons, set_length_append]
    simpa [fill] using hnext
  | denied call rest answers _ _ hdenied ih =>
    have hnext := ih (front ++ [some (.error (notAvailable call.name))])
    rw [List.length_append, List.length_singleton] at hnext
    rw [positions, List.map_cons, deniedSlot, rt.interleave_cons_denied hdenied]
    simpa [hdenied] using hnext

end ScopedToolRuntime

namespace ToolRuntime

variable {σ : Type} (rt : ToolRuntime σ)

/-- A batch has one result for each call. -/
theorem length_executeBatch (calls : List ToolCall) (s : σ) :
    (rt.executeBatch calls s).results.length = calls.length := by
  rcases Nat.lt_or_ge rt.callLimit calls.length with hrefused | hlength
  · exact (rt.batchLaw_of_refused hrefused s).length
  · rw [(rt.executeBatch_eq hlength s).2, List.length_mapIdx, length_outcomes]

/-- What a batch executes are its calls. -/
theorem call_executed {calls : List ToolCall} {s : σ} {x : Executed σ}
    (hx : x ∈ (rt.executeBatch calls s).executed) : x.call ∈ calls := by
  rcases Nat.lt_or_ge rt.callLimit calls.length with hrefused | hlength
  · have hne : ¬ calls.isEmpty = true := fun hempty => by
      rw [List.isEmpty_iff.mp hempty] at hrefused
      exact Nat.not_lt_zero _ hrefused
    rw [executeBatch, if_neg hne, if_pos hrefused] at hx
    cases hx
  · rw [(rt.executeBatch_eq hlength s).1] at hx
    rw [← rt.call_outcomes calls s]
    exact List.mem_map_of_mem hx

end ToolRuntime

namespace ScopedToolRuntime

variable {σ : Type} (rt : ScopedToolRuntime σ)

/-- The results of a scoped batch are those of the inner batch between the errors of the calls
that are filtered out. -/
theorem executeBatch_eq (calls : List ToolCall) (s : σ) :
    rt.executeBatch calls s =
      { rt.inner.executeBatch (calls.filter rt.allowed) s with
        results := rt.interleave calls
          (rt.inner.executeBatch (calls.filter rt.allowed) s).results } := by
  have hplace := rt.foldl_place calls [] [] []
  have hfill := rt.fill_eq calls (rt.inner.executeBatch (calls.filter rt.allowed) s).results []
    (rt.inner.length_executeBatch _ _)
  simp only [List.nil_append, List.length_nil] at hplace hfill
  rw [executeBatch, hplace]
  dsimp only
  split
  · next hempty =>
    have hnone : rt.positions 0 calls = [] := by
      apply List.eq_nil_of_length_eq_zero
      rw [length_positions, List.isEmpty_iff.mp hempty, List.length_nil]
    -- Nothing is filled in, and the inner batch would be empty.
    have hslots : calls.map rt.deniedSlot = _ := hnone ▸ hfill
    rw [List.isEmpty_iff.mp hempty] at hslots ⊢
    rw [hslots, List.filterMap_map, Function.id_comp, List.filterMap_some]
    rfl
  · rw [hfill, List.filterMap_map, Function.id_comp, List.filterMap_some]

theorem length_interleave (calls : List ToolCall) (answers : List ToolResult)
    (h : answers.length = (calls.filter rt.allowed).length) :
    (rt.interleave calls answers).length = calls.length := by
  induction calls, answers, h using rt.answers_induction with
  | nil => rfl
  | allowed call rest answer answers _ _ hallowed ih =>
    rw [rt.interleave_cons_allowed hallowed, List.length_cons, List.length_cons, ih]
  | denied call rest answers _ _ hdenied ih =>
    rw [rt.interleave_cons_denied hdenied, List.length_cons, List.length_cons, ih]

theorem interleave_denied (calls : List ToolCall) (answers : List ToolResult)
    (h : answers.length = (calls.filter rt.allowed).length) {i : Nat} {call : ToolCall}
    (hi : calls[i]? = some call) (hdenied : rt.allowed call = false) :
    (rt.interleave calls answers)[i]? = some (.error (notAvailable call.name)) := by
  induction calls, answers, h using rt.answers_induction generalizing i with
  | nil => cases hi
  | allowed first rest answer answers _ _ hallowed ih =>
    rw [rt.interleave_cons_allowed hallowed]
    cases i with
    | zero =>
      rw [Option.some.inj hi, hdenied] at hallowed
      cases hallowed
    | succ i => exact ih hi
  | denied first rest answers _ _ hfirst ih =>
    rw [rt.interleave_cons_denied hfirst]
    cases i with
    | zero => rw [Option.some.inj hi, List.getElem?_cons_zero]
    | succ i => exact ih hi

/-- Without the errors of the calls that are filtered out, what is left are the answers. -/
theorem interleave_allowed (calls : List ToolCall) (answers : List ToolResult)
    (h : answers.length = (calls.filter rt.allowed).length) :
    ((calls.zip (rt.interleave calls answers)).filter fun entry => rt.allowed entry.1).map
      Prod.snd = answers := by
  induction calls, answers, h using rt.answers_induction with
  | nil => rfl
  | allowed call rest answer answers _ _ hallowed ih =>
    rw [rt.interleave_cons_allowed hallowed, List.zip_cons_cons, List.filter_cons, if_pos hallowed,
      List.map_cons, ih]
  | denied call rest answers _ _ hdenied ih =>
    have hentry : ¬ rt.allowed call = true := Bool.eq_false_iff.mp hdenied
    rw [rt.interleave_cons_denied hdenied, List.zip_cons_cons, List.filter_cons, if_neg hentry, ih]

/-- A scoped batch has one result for each call, at its position: the error of a call that is
filtered out, and the results of the inner batch, in order, for the others. Only allowed calls
are executed. -/
theorem executeBatch_positions (calls : List ToolCall) (s : σ) :
    (rt.executeBatch calls s).results.length = calls.length ∧
      (∀ (i : Nat) (call : ToolCall), calls[i]? = some call → rt.allowed call = false →
        (rt.executeBatch calls s).results[i]? = some (.error (notAvailable call.name))) ∧
      ((calls.zip (rt.executeBatch calls s).results).filter fun entry => rt.allowed entry.1).map
          Prod.snd =
        (rt.inner.executeBatch (calls.filter rt.allowed) s).results ∧
      ∀ x ∈ (rt.executeBatch calls s).executed, x.call ∈ calls ∧ rt.allowed x.call = true := by
  have hlength := rt.inner.length_executeBatch (calls.filter rt.allowed) s
  rw [executeBatch_eq]
  exact ⟨rt.length_interleave calls _ hlength,
    fun _ _ => rt.interleave_denied calls _ hlength, rt.interleave_allowed calls _ hlength,
    fun x hx => List.mem_filter.mp (rt.inner.call_executed hx)⟩

end ScopedToolRuntime

/-- A tool that refuses like a scope: it is one itself, say. -/
def reluctant (name : String) : Tool Nat where
  name := name
  sandboxProfile := .inherited
  timeout := none
  execute n _ := (.error (notAvailable name), n)
  executeWithin _ n _ := (some (.error (notAvailable name)), n)

/-- The result of an allowed call can be the error of those that are filtered out. -/
theorem allowed_yet_not_available :
    ¬ ∀ (i : Nat) (call : ToolCall), [(⟨"1", "read", .null⟩ : ToolCall)][i]? = some call →
      ((ScopedToolRuntime.executeBatch
          ⟨⟨[reluctant "read"], [], ⟨none, none, none, none, none, none⟩⟩, ⟨["read"], []⟩⟩
          [⟨"1", "read", .null⟩] 0).results[i]? = some (.error (notAvailable call.name)) ↔
        ScopedFilter.allows ⟨["read"], []⟩ call.name = false) := by
  intro h
  exact absurd ((h 0 ⟨"1", "read", .null⟩ rfl).mp (by decide +kernel)) (by decide)

end Behest.ToolCrate
