import Mathlib.Data.List.Induction
import Mathlib.Logic.Function.Basic
import Behest.Runtime.Policy
import Behest.Store.Keyed

/-!
# The approval gate

Tool calls that wait for a human decision (`behest-approval/src/lib.rs`), and when the gate's
answer is the answer to the current request. An approval outlives the request it was given
for, and a decision is recorded however late it comes; everything else is kept in order.
-/

namespace Behest

/-- Source: `behest-approval/src/lib.rs:96–104`. -/
inductive ApprovalDecision where
  | approve
  | reject (reason : Option String)
deriving DecidableEq

/-- Source: `behest-approval/src/lib.rs:54–63`. -/
structure PendingApproval where
  call : ToolCall
  reason : String
  requestedAt : Nat
  timeout : Option Duration

namespace PendingApproval

/-- The identifier a request is kept under. -/
def callId (p : PendingApproval) : String := p.call.id

/-- Source: `behest-approval/src/lib.rs:89–92`. -/
def isExpired (p : PendingApproval) (now : Nat) : Bool :=
  match p.timeout with
  | some timeout => timeout.nanos ≤ now - p.requestedAt
  | none => false

end PendingApproval

/-- Each operation holds the locks of the maps it changes from its start to its end.
Source: `behest-approval/src/lib.rs:110–113`. -/
structure ApprovalGate where
  pending : Keyed PendingApproval.callId
  decisions : String → Option ApprovalDecision

namespace ApprovalGate

/-- Source: `behest-approval/src/lib.rs:118–123`. -/
def new : ApprovalGate := ⟨.empty, fun _ => none⟩

variable (g : ApprovalGate)

/-- Source: `behest-approval/src/lib.rs:128–135`. -/
def request (call : ToolCall) (reason : String) (timeout : Option Duration) (now : Nat) :
    ApprovalGate × Bool :=
  if (g.pending.get call.id).isSome then (g, false)
  else ({ g with pending := g.pending.insert ⟨call, reason, now, timeout⟩ }, true)

/-- Source: `behest-approval/src/lib.rs:140–149`. -/
def decide (callId : String) (decision : ApprovalDecision) : ApprovalGate × Bool :=
  if (g.pending.get callId).isSome then
    (⟨g.pending.remove callId, Function.update g.decisions callId (some decision)⟩, true)
  else (g, false)

/-- Source: `behest-approval/src/lib.rs:152–155`. -/
def isApproved (callId : String) : Bool := g.decisions callId == some .approve

/-- The clock is read once for each request. Source: `behest-approval/src/lib.rs:158–169`. -/
def expireTimedOut (clock : PendingApproval → Nat) : ApprovalGate × List String :=
  ({ g with pending := g.pending.retain fun p => !p.isExpired (clock p) },
    (g.pending.records.filter fun p => p.isExpired (clock p)).map PendingApproval.callId)

end ApprovalGate

/-! ### Histories -/

/-- A call of the gate, at the time it is made. -/
inductive GateCall where
  | request (call : ToolCall) (reason : String) (timeout : Option Duration) (now : Nat)
  | decide (callId : String) (decision : ApprovalDecision) (now : Nat)
  | expireTimedOut (clock : PendingApproval → Nat)

/-- What a call has been granted: a request that is accepted, or a decision that is recorded. -/
inductive Grant where
  | requested (p : PendingApproval)
  | decided (callId : String) (decision : ApprovalDecision) (now : Nat)

namespace Grant

def callId : Grant → String
  | requested p => p.callId
  | decided callId _ _ => callId

def decision : Grant → Option ApprovalDecision
  | requested _ => none
  | decided _ decision _ => some decision

/-- What concerns one identifier, in order. -/
def about (id : String) (grants : List Grant) : List Grant :=
  grants.filter fun a => a.callId == id

@[simp] theorem callId_requested (p : PendingApproval) : (requested p).callId = p.callId := rfl

@[simp] theorem callId_decided (callId : String) (decision : ApprovalDecision) (now : Nat) :
    (decided callId decision now).callId = callId := rfl

theorem about_concat (id : String) (grants : List Grant) (a : Grant) :
    about id (grants ++ [a]) =
      if a.callId = id then about id grants ++ [a] else about id grants := by
  by_cases h : a.callId = id <;> simp [about, h]

end Grant

open Grant

/-- A gate, with what it has granted so far. -/
structure GateRun where
  gate : ApprovalGate
  grants : List Grant

namespace GateRun

def new : GateRun := ⟨.new, []⟩

/-- One call, with what it is granted. -/
def step (r : GateRun) : GateCall → GateRun
  | .request call reason timeout now =>
      let (gate, accepted) := r.gate.request call reason timeout now
      ⟨gate, if accepted then r.grants ++ [.requested ⟨call, reason, now, timeout⟩] else r.grants⟩
  | .decide callId decision now =>
      let (gate, recorded) := r.gate.decide callId decision
      ⟨gate, if recorded then r.grants ++ [.decided callId decision now] else r.grants⟩
  | .expireTimedOut clock => ⟨(r.gate.expireTimedOut clock).1, r.grants⟩

/-- The gate after some calls. -/
def after (calls : List GateCall) : GateRun := calls.foldl step .new

/-- What a call does, with the answer it gets. -/
theorem step_cases (r : GateRun) (call : GateCall) :
    (∃ p, r.gate.pending.get p.callId = none ∧
      r.step call = ⟨{ r.gate with pending := r.gate.pending.insert p },
        r.grants ++ [.requested p]⟩) ∨
    (∃ p decision now, r.gate.pending.get p.callId = some p ∧
      r.step call = ⟨⟨r.gate.pending.remove p.callId,
        Function.update r.gate.decisions p.callId (some decision)⟩,
        r.grants ++ [.decided p.callId decision now]⟩) ∨
    ∃ keep, r.step call = ⟨{ r.gate with pending := r.gate.pending.retain keep }, r.grants⟩ := by
  have hall : r.gate.pending.retain (fun _ => true) = r.gate.pending := by simp [Keyed.retain]
  cases call with
  | request call reason timeout now =>
    cases h : r.gate.pending.get call.id with
    | none => exact .inl ⟨⟨call, reason, now, timeout⟩, h, by simp [step, ApprovalGate.request, h]⟩
    | some p =>
      exact .inr (.inr ⟨fun _ => true, by simp [step, ApprovalGate.request, h, hall]⟩)
  | decide callId decision now =>
    cases h : r.gate.pending.get callId with
    | none => exact .inr (.inr ⟨fun _ => true, by simp [step, ApprovalGate.decide, h, hall]⟩)
    | some p =>
      obtain rfl := (Keyed.get_mem h).2
      exact .inr (.inl ⟨p, decision, now, h, by simp [step, ApprovalGate.decide, h]⟩)
  | expireTimedOut clock => exact .inr (.inr ⟨_, rfl⟩)

/-- What the gate holds, read off its history: an open request is the last thing granted for
its identifier, a decision answers the request before it, and the decision that is kept is the
last one. -/
structure Tracked (r : GateRun) : Prop where
  waiting : ∀ p, r.gate.pending.get p.callId = some p →
    ∃ earlier, about p.callId r.grants = earlier ++ [.requested p]
  answers : ∀ id earlier callId decision now later,
    about id r.grants = earlier ++ .decided callId decision now :: later →
      ∃ before p, earlier = before ++ [.requested p]
  kept : ∀ id, r.gate.decisions id = ((about id r.grants).filterMap Grant.decision).getLast?

theorem tracked_new : Tracked .new := ⟨nofun, fun _ earlier => by cases earlier <;> exact nofun,
  fun _ => rfl⟩

variable {r : GateRun}

theorem Tracked.request (h : r.Tracked) {p : PendingApproval} :
    Tracked ⟨{ r.gate with pending := r.gate.pending.insert p }, r.grants ++ [.requested p]⟩ where
  waiting q hq := by
    rw [about_concat, callId_requested]
    rcases Keyed.mem_insert.mp (Keyed.get_eq_some_iff.mp hq).1 with ⟨hmem, hne⟩ | rfl
    · rw [if_neg (Ne.symm hne)]
      exact h.waiting q (Keyed.get_eq_some_iff.mpr ⟨hmem, rfl⟩)
    · exact ⟨_, if_pos rfl⟩
  answers id earlier callId decision now later heq := by
    rw [about_concat] at heq
    split at heq
    · rcases List.eq_nil_or_concat later with rfl | ⟨later', a, rfl⟩
      · have hlast := (List.append_inj' heq rfl).2
        cases hlast
      · have heq' : about id r.grants ++ [.requested p] =
            (earlier ++ .decided callId decision now :: later') ++ [a] := by simpa using heq
        exact h.answers id earlier callId decision now later' (List.append_inj' heq' rfl).1
    · exact h.answers id earlier callId decision now later heq
  kept id := by
    rw [about_concat]
    split
    · rw [List.filterMap_append, h.kept id]
      simp [Grant.decision]
    · exact h.kept id

theorem Tracked.decide (h : r.Tracked) {p : PendingApproval} {decision : ApprovalDecision}
    {now : Nat} (hp : r.gate.pending.get p.callId = some p) :
    Tracked ⟨⟨r.gate.pending.remove p.callId,
      Function.update r.gate.decisions p.callId (some decision)⟩,
      r.grants ++ [.decided p.callId decision now]⟩ where
  waiting q hq := by
    have hmem := List.mem_filter.mp (Keyed.get_eq_some_iff.mp hq).1
    have hne : q.callId ≠ p.callId := by simpa using hmem.2
    rw [about_concat, callId_decided, if_neg (Ne.symm hne)]
    exact h.waiting q (Keyed.get_eq_some_iff.mpr ⟨hmem.1, rfl⟩)
  answers id earlier callId decision' now' later heq := by
    rw [about_concat] at heq
    split at heq
    · next hid =>
      rcases List.eq_nil_or_concat later with rfl | ⟨later', a, rfl⟩
      · obtain ⟨before, hbefore⟩ := h.waiting p hp
        obtain ⟨rfl, -⟩ := List.append_inj' heq rfl
        rw [← show p.callId = id from hid]
        exact ⟨before, p, hbefore⟩
      · have heq' : about id r.grants ++ [.decided p.callId decision now] =
            (earlier ++ .decided callId decision' now' :: later') ++ [a] := by simpa using heq
        exact h.answers id earlier callId decision' now' later' (List.append_inj' heq' rfl).1
    · exact h.answers id earlier callId decision' now' later heq
  kept id := by
    rw [about_concat]
    split
    · next hid =>
      rw [← show p.callId = id from hid, List.filterMap_append]
      simp [Grant.decision]
    · next hid =>
      change Function.update _ _ _ id = _
      rw [callId_decided] at hid
      rw [Function.update_of_ne (Ne.symm hid), h.kept id]

theorem Tracked.expire (h : r.Tracked) (keep : PendingApproval → Bool) :
    Tracked ⟨{ r.gate with pending := r.gate.pending.retain keep }, r.grants⟩ where
  waiting q hq := h.waiting q (Keyed.get_eq_some_iff.mpr
    ⟨(List.mem_filter.mp (Keyed.get_eq_some_iff.mp hq).1).1, rfl⟩)
  answers := h.answers
  kept := h.kept

/-- Every history is tracked. -/
theorem tracked_after (calls : List GateCall) : (after calls).Tracked := by
  induction calls using List.reverseRecOn with
  | nil => exact tracked_new
  | append_singleton calls call ih =>
    rw [after, List.foldl_concat]
    obtain ⟨p, -, hstep⟩ | ⟨p, decision, now, hp, hstep⟩ | ⟨keep, hstep⟩ :=
      (calls.foldl step .new).step_cases call
    · rw [hstep]
      exact Tracked.request ih
    · rw [hstep]
      exact Tracked.decide ih hp
    · rw [hstep]
      exact Tracked.expire ih keep

end GateRun

/-! ### The current request -/

/-- The last request accepted for the identifier was approved before its timeout elapsed. -/
def Approved (grants : List Grant) (id : String) : Prop :=
  ∃ earlier p now, about id grants = earlier ++ [.requested p, .decided id .approve now] ∧
    p.isExpired now = false

/-- The last decision for the identifier is an approval that a later request has followed, or
that came when the timeout of its request had elapsed. -/
def Stale (grants : List Grant) (id : String) : Prop :=
  ∃ earlier p now later,
    about id grants = earlier ++ .requested p :: .decided id .approve now :: later ∧
    (∀ a ∈ later, a.decision = none) ∧ (later ≠ [] ∨ p.isExpired now = true)

namespace GateRun

variable {r : GateRun}

/-- What is about an identifier carries it. -/
theorem callId_of_about {id : String} {grants earlier later : List Grant} {a : Grant}
    (h : about id grants = earlier ++ a :: later) : a.callId = id := by
  have ha : a ∈ about id grants := by simp [h]
  simpa using (List.mem_filter.mp ha).2

/-- The gate approves what was approved last. -/
theorem Tracked.isApproved_iff (h : r.Tracked) (id : String) :
    r.gate.isApproved id = true ↔ ∃ earlier p now later,
      about id r.grants = earlier ++ .requested p :: .decided id .approve now :: later ∧
      ∀ a ∈ later, a.decision = none := by
  unfold ApprovalGate.isApproved
  rw [h.kept, beq_iff_eq]
  constructor
  · intro hlast
    obtain ⟨before, hbefore⟩ := List.getLast?_eq_some_iff.mp hlast
    obtain ⟨grants, rest, hsplit, -, hrest⟩ := List.filterMap_eq_append_iff.mp hbefore
    obtain ⟨first, a, later, rfl, hfirst, ha, hlater⟩ := List.filterMap_eq_cons_iff.mp hrest
    cases a with
    | requested p => cases ha
    | decided callId decision now =>
      cases ha
      rw [← List.append_assoc] at hsplit
      obtain rfl : callId = id := callId_of_about hsplit
      obtain ⟨earlier, p, hp⟩ := h.answers _ _ _ _ _ _ hsplit
      rw [hp, List.append_assoc] at hsplit
      exact ⟨earlier, p, now, later, hsplit, List.filterMap_eq_nil_iff.mp hlater⟩
  · rintro ⟨earlier, p, now, later, heq, hlater⟩
    have hnone : later.filterMap Grant.decision = [] := List.filterMap_eq_nil_iff.mpr hlater
    rw [heq, List.filterMap_append]
    simp [List.filterMap_cons, Grant.decision, hnone]

/-- The gate's answer is that of the current request exactly when no approval has gone stale. -/
theorem isApproved_iff_current (calls : List GateCall) (id : String) :
    ((after calls).gate.isApproved id = true ↔ Approved (after calls).grants id) ↔
      ¬ Stale (after calls).grants id := by
  rw [(tracked_after calls).isApproved_iff]
  constructor
  · rintro hiff ⟨earlier, p, now, later, heq, hlater, hstale⟩
    obtain ⟨earlier', p', now', heq', hintime⟩ := hiff.mp ⟨earlier, p, now, later, heq, hlater⟩
    rcases List.eq_nil_or_concat later with rfl | ⟨later', a, rfl⟩
    · rw [heq'] at heq
      cases (List.append_inj' heq rfl).2
      rcases hstale with hne | hexpired
      · exact hne rfl
      · exact absurd hexpired (by simp [hintime])
    · have hends : earlier' ++ [.requested p'] ++ [.decided id .approve now'] =
          (earlier ++ .requested p :: .decided id .approve now :: later') ++ [a] := by
        simpa [heq'] using heq
      cases (List.append_inj' hends rfl).2
      cases hlater (.decided id .approve now') (by simp)
  · rintro hfresh
    constructor
    · rintro ⟨earlier, p, now, later, heq, hlater⟩
      by_cases hstale : later ≠ [] ∨ p.isExpired now = true
      · exact absurd ⟨earlier, p, now, later, heq, hlater, hstale⟩ hfresh
      · obtain ⟨hnil, hintime⟩ := not_or.mp hstale
        rw [not_not.mp hnil] at heq
        exact ⟨earlier, p, now, heq, by simpa using hintime⟩
    · rintro ⟨earlier, p, now, heq, -⟩
      exact ⟨earlier, p, now, [], heq, nofun⟩

/-- A call that is asked about with a timeout of a millisecond, and approved after five. -/
def lateApproval : List GateCall :=
  [.request ⟨"call_1", "rm", .null⟩ "destructive" (some ⟨1000000⟩) 0,
    .decide "call_1" .approve 5000000]

/-- The late approval counts, and goes on counting when the call is asked about again. -/
theorem lateApproval_approves :
    (after lateApproval).gate.isApproved "call_1" = true ∧
      ¬ Approved (after lateApproval).grants "call_1" ∧
      (after (lateApproval ++
        [.request ⟨"call_1", "rm", .null⟩ "again" none 6000000])).gate.isApproved "call_1" = true ∧
      ¬ Approved (after (lateApproval ++
        [.request ⟨"call_1", "rm", .null⟩ "again" none 6000000])).grants "call_1" := by
  refine ⟨by decide, ?_, by decide, ?_⟩
  · rintro ⟨earlier, p, now, heq, hintime⟩
    obtain ⟨-, htail⟩ := @List.append_inj' _ [] _ _ _ heq rfl
    cases htail
    cases hintime
  · rintro ⟨earlier, p, now, heq, -⟩
    have hlast := congrArg List.getLast? heq
    rw [List.getLast?_append] at hlast
    cases hlast

end GateRun

end Behest
