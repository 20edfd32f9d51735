import Mathlib.Algebra.BigOperators.Group.List.Basic
import Mathlib.Data.List.Induction
import Behest.Runtime.Run
import Behest.Search.StableSort

/-!
# Hooks

`behest-event/src/lib.rs`: the side effects that hooks ask for, and a stack of hooks that an event
is given to. Hooks are taken to be functions of the event and of the context.
-/

namespace Behest

/-- Source: `lib.rs:101–112`. -/
structure ApprovalRequest where
  callId : String
  toolName : String
  arguments : Value
  reason : String
  timeoutSecs : Option Nat

/-- Source: `lib.rs:116–121`. -/
structure ProgressEvent where
  status : String
  data : Value

/-- Source: `lib.rs:44–61`. -/
@[ext] structure EventActions where
  stateDelta : String → Option Value
  persistConversation : Bool
  compactMemory : Bool
  demoteMemory : Bool
  requestApproval : Option ApprovalRequest
  emitProgress : Option ProgressEvent
  notifyUser : Option String
  writeTrace : Option String

namespace EventActions

/-- Source: `lib.rs:66–68`. -/
def new : EventActions := ⟨fun _ => none, false, false, false, none, none, none, none⟩

/-- One pass of the loop over the actions: what `a` has goes over what is merged so far.
Source: `lib.rs:78–93`. -/
def absorb (merged a : EventActions) : EventActions where
  stateDelta key := (a.stateDelta key).or (merged.stateDelta key)
  persistConversation := merged.persistConversation || a.persistConversation
  compactMemory := merged.compactMemory || a.compactMemory
  demoteMemory := merged.demoteMemory || a.demoteMemory
  requestApproval := a.requestApproval.or merged.requestApproval
  emitProgress := a.emitProgress.or merged.emitProgress
  notifyUser := a.notifyUser.or merged.notifyUser
  writeTrace := a.writeTrace.or merged.writeTrace

/-- Source: `lib.rs:75–96`. -/
def merge (actions : List EventActions) : EventActions := actions.foldl absorb new

/-- Absorbing is associative, and no actions change nothing. -/
instance : Monoid EventActions where
  mul := absorb
  one := new
  mul_assoc a b c := by
    change absorb (absorb a b) c = absorb a (absorb b c)
    simp only [absorb, Option.or_assoc, Bool.or_assoc]
  one_mul a := by
    change absorb new a = a
    simp [absorb, new]
  mul_one a := by
    change absorb a new = a
    simp [absorb, new]

theorem merge_eq_prod (actions : List EventActions) : merge actions = actions.prod :=
  List.prod_eq_foldl.symm

theorem merge_append (xs ys : List EventActions) :
    merge (xs ++ ys) = merge [merge xs, merge ys] := by
  simp only [merge_eq_prod, List.prod_append, List.prod_cons, List.prod_nil, mul_one]

end EventActions

/-- Source: `lib.rs:128–139`. -/
structure Hook (Ctx : Type) where
  name : String
  onEvent : AgentEvent → Ctx → List EventActions
  priority : Int

/-- Source: `lib.rs:142–144`. -/
structure HookStack (Ctx : Type) where
  hooks : List (Hook Ctx)

namespace HookStack

variable {Ctx : Type}

/-- Source: `lib.rs:149–151`. -/
def new : HookStack Ctx := ⟨[]⟩

/-- Source: `lib.rs:154–157`. -/
def push (stack : HookStack Ctx) (hook : Hook Ctx) : HookStack Ctx :=
  ⟨(stack.hooks ++ [hook]).insertionSort fun a b => a.priority ≤ b.priority⟩

/-- Source: `lib.rs:164–172`. -/
def dispatch (stack : HookStack Ctx) (event : AgentEvent) (ctx : Ctx) : List EventActions :=
  [.merge (stack.hooks.flatMap fun hook => hook.onEvent event ctx)]

/-- The stack after some calls of `push`. -/
def pushed (calls : List (Hook Ctx)) : HookStack Ctx := calls.foldl push new

/-- The hooks by their priorities, those of one priority in the order of their registration. -/
structure InOrder (calls hooks : List (Hook Ctx)) : Prop where
  perm : hooks.Perm calls
  sorted : hooks.Pairwise fun a b => a.priority ≤ b.priority
  ties : ∀ p, (hooks.filter fun hook => hook.priority = p) =
    calls.filter fun hook => hook.priority = p

/-! ### Pushes -/

theorem pushed_concat (calls : List (Hook Ctx)) (hook : Hook Ctx) :
    pushed (calls ++ [hook]) = (pushed calls).push hook :=
  List.foldl_concat ..

/-- A push keeps the order, with the new hook behind those of its priority. -/
theorem inOrder_push {calls : List (Hook Ctx)} {stack : HookStack Ctx}
    (h : InOrder calls stack.hooks) (hook : Hook Ctx) :
    InOrder (calls ++ [hook]) (stack.push hook).hooks where
  perm := (List.perm_insertionSort _ _).trans (h.perm.append_right [hook])
  sorted := pairwise_insertionSort_key _
  ties p := by rw [push, filter_insertionSort, List.filter_append, h.ties p, List.filter_append]

theorem inOrder_pushed (calls : List (Hook Ctx)) : InOrder calls (pushed calls).hooks := by
  induction calls using List.reverseRecOn with
  | nil => exact ⟨.nil, .nil, fun _ => rfl⟩
  | append_singleton calls hook ih =>
    rw [pushed_concat]
    exact inOrder_push ih hook

/-- The order determines the hooks. -/
theorem InOrder.eq {calls hooks others : List (Hook Ctx)} (h : InOrder calls hooks)
    (h' : InOrder calls others) : hooks = others :=
  eq_of_sorted_of_ties h.sorted h'.sorted fun p => (h.ties p).trans (h'.ties p).symm

/-- Hooks with distinct priorities end up in one order. -/
theorem hooks_pushed_eq_of_perm {calls others : List (Hook Ctx)} (h : calls.Perm others)
    (hdistinct : (calls.map (·.priority)).Nodup) :
    (pushed calls).hooks = (pushed others).hooks := by
  have hcalls := inOrder_pushed calls
  have hothers := inOrder_pushed others
  have hperm := hcalls.perm.trans (h.trans hothers.perm.symm)
  refine eq_of_perm_of_sorted hperm ?_ hcalls.sorted hothers.sorted
  exact ((hothers.perm.trans h.symm).map _).nodup_iff.mpr hdistinct

/-- The hooks below a priority come first, then the others. -/
theorem hooks_pushed_split (calls : List (Hook Ctx)) (bound : Int) :
    (pushed calls).hooks =
      (pushed (calls.filter fun hook => hook.priority < bound)).hooks ++
        (pushed (calls.filter fun hook => !(hook.priority < bound))).hooks := by
  have hlow := inOrder_pushed (calls.filter fun hook => hook.priority < bound)
  have hhigh := inOrder_pushed (calls.filter fun hook => !(hook.priority < bound))
  refine (inOrder_pushed calls).eq ⟨?_, ?_, fun p => ?_⟩
  · exact (hlow.perm.append hhigh.perm).trans (List.filter_append_perm _ calls)
  · refine List.pairwise_append.mpr ⟨hlow.sorted, hhigh.sorted, fun a ha b hb => ?_⟩
    have hlt := (List.mem_filter.mp (hlow.perm.mem_iff.mp ha)).2
    have hge := (List.mem_filter.mp (hhigh.perm.mem_iff.mp hb)).2
    simp only [decide_eq_true_eq, Bool.not_eq_true', decide_eq_false_iff_not] at hlt hge
    omega
  · rw [List.filter_append, hlow.ties, hhigh.ties, List.filter_filter, List.filter_filter]
    by_cases hp : p < bound
    · have hall : (calls.filter fun hook => decide (hook.priority = p) &&
          decide (hook.priority < bound)) = calls.filter fun hook => hook.priority = p :=
        List.filter_congr fun hook _ => by grind
      have hnone : (calls.filter fun hook => decide (hook.priority = p) &&
          !decide (hook.priority < bound)) = [] :=
        List.filter_eq_nil_iff.mpr fun hook _ => by grind
      rw [hall, hnone, List.append_nil]
    · have hnone : (calls.filter fun hook => decide (hook.priority = p) &&
          decide (hook.priority < bound)) = [] :=
        List.filter_eq_nil_iff.mpr fun hook _ => by grind
      have hall : (calls.filter fun hook => decide (hook.priority = p) &&
          !decide (hook.priority < bound)) = calls.filter fun hook => hook.priority = p :=
        List.filter_congr fun hook _ => by grind
      rw [hnone, hall, List.nil_append]

/-! ### Dispatch -/

/-- An event is given to the hooks by priority and registration, and what they ask for is merged
in that order. Distinct priorities make the order of the pushes irrelevant, merges can be nested,
and a stack can be split at a priority. -/
theorem dispatch_pushed :
    (∀ (calls : List (Hook Ctx)) (event : AgentEvent) (ctx : Ctx), ∃ hooks,
      InOrder calls hooks ∧ (pushed calls).dispatch event ctx =
        [.merge (hooks.flatMap fun hook => hook.onEvent event ctx)]) ∧
    (∀ (calls others : List (Hook Ctx)) (event : AgentEvent) (ctx : Ctx), calls.Perm others →
      (calls.map (·.priority)).Nodup →
        (pushed calls).dispatch event ctx = (pushed others).dispatch event ctx) ∧
    (∀ xs ys : List EventActions, EventActions.merge (xs ++ ys) = .merge [.merge xs, .merge ys]) ∧
    ∀ (calls : List (Hook Ctx)) (bound : Int) (event : AgentEvent) (ctx : Ctx),
      (pushed calls).dispatch event ctx =
        [.merge ((pushed (calls.filter fun hook => hook.priority < bound)).dispatch event ctx ++
          (pushed (calls.filter fun hook => !(hook.priority < bound))).dispatch event ctx)] := by
  refine ⟨fun calls event ctx => ⟨_, inOrder_pushed calls, rfl⟩, ?_, EventActions.merge_append, ?_⟩
  · intro calls others event ctx hperm hdistinct
    rw [dispatch, dispatch, hooks_pushed_eq_of_perm hperm hdistinct]
  · intro calls bound event ctx
    rw [dispatch, hooks_pushed_split calls bound, List.flatMap_append, EventActions.merge_append]
    rfl

/-- A hook that notifies the user. -/
def notifier (priority : Int) (text : String) : Hook Unit :=
  ⟨text, fun _ _ => [{ EventActions.new with notifyUser := some text }], priority⟩

theorem dispatch_swapped :
    ([notifier 1 "b", notifier 0 "a"].map (·.priority)).Nodup ∧
      (pushed [notifier 1 "b", notifier 0 "a"]).dispatch (.runCancelled Uuid.nil) () =
        (pushed [notifier 0 "a", notifier 1 "b"]).dispatch (.runCancelled Uuid.nil) () :=
  ⟨by decide, dispatch_pushed.2.1 _ _ (.runCancelled Uuid.nil) () (.swap _ _ _) (by decide)⟩

end HookStack

end Behest
