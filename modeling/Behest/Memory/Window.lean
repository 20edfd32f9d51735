import Mathlib.Data.List.Induction
import Behest.Core.Message

/-!
# The active window

The short-term window of `behest-memory/src/lib.rs` and the demotion of
`behest-context/src/impls.rs`. What a window calls its hook and its compactor with is recorded,
so that it can be compared with what the window no longer holds.
-/

namespace Behest

/-- The policy, without the trigger ratio that the window does not read.
Source: `behest-memory/src/lib.rs:73–86`. -/
structure MemoryPolicy where
  maxWindowTokens : Nat
  maxWindowMessages : Nat
  keepTailTurns : Nat
  demotionEnabled : Bool
  compactionEnabled : Bool

/-- Source: `behest-memory/src/lib.rs:103–123`. -/
inductive MemoryEvent where
  | demoted (count : Nat) (sessionId : String)
  | compacted (originalCount summaryLength : Nat)
  | restored (count : Nat)

/-- `DemotionHook::demote`. Source: `behest-memory/src/lib.rs:54–59`. -/
abbrev DemotionHook := String → List Message → Except String Nat

/-- `Compactor::compact`. Source: `behest-memory/src/lib.rs:66–69`. -/
abbrev Compactor := List Message → Except String String

/-- A call that hands messages over. -/
inductive HandOver where
  | demote (sessionId : String) (messages : List Message)
  | compact (messages : List Message)

def HandOver.messages : HandOver → List Message
  | demote _ messages => messages
  | compact messages => messages

/-- Source: `behest-memory/src/lib.rs:131–136`. -/
structure ActiveWindow where
  messages : List Message
  policy : MemoryPolicy
  demotionHook : Option DemotionHook
  compactor : Option Compactor

/-- What a push or a trim returns and calls, and the window after it. -/
structure Trimmed where
  events : List MemoryEvent
  calls : List HandOver
  window : ActiveWindow

namespace ActiveWindow

/-- The window exceeds the limits of its policy. Source: `behest-memory/src/lib.rs:181–187`. -/
def overLimit (w : ActiveWindow) : Bool :=
  decide (w.policy.maxWindowTokens < estimateMessagesTokens w.messages) ||
    decide (w.policy.maxWindowMessages < w.messages.length)

/-- The evicted messages are counted in events; neither the hook nor the compactor is called.
Source: `behest-memory/src/lib.rs:180–212`. -/
def trimIfNeeded (w : ActiveWindow) : Trimmed :=
  if w.overLimit then
    let keepTail := min w.policy.keepTailTurns w.messages.length
    let tail := w.messages.drop (w.messages.length - keepTail)
    let evicted := w.messages.take (w.messages.length - keepTail)
    { events :=
        (if w.policy.demotionEnabled then [.demoted evicted.length ""] else []) ++
          (if w.policy.compactionEnabled && !evicted.isEmpty then [.compacted evicted.length 0]
            else [])
      calls := []
      window := { w with messages := tail } }
  else ⟨[], [], w⟩

/-- Source: `behest-memory/src/lib.rs:165–168`. -/
def push (w : ActiveWindow) (msg : Message) : Trimmed :=
  trimIfNeeded { w with messages := w.messages ++ [msg] }

/-- The window after some pushes, with the calls made on the way. -/
def pushAll (w : ActiveWindow) (msgs : List Message) : List HandOver × ActiveWindow :=
  msgs.foldl (fun r msg => (r.1 ++ (r.2.push msg).calls, (r.2.push msg).window)) ([], w)

/-- A new window, with its hook and compactor. -/
def empty (policy : MemoryPolicy) (hook : Option DemotionHook) (compactor : Option Compactor) :
    ActiveWindow := ⟨[], policy, hook, compactor⟩

/-- The window is a suffix of the messages pushed; the others have been handed over. -/
def Accounted (msgs : List Message) (r : List HandOver × ActiveWindow) : Prop :=
  ∃ k, r.2.messages = msgs.drop k ∧ ∀ m ∈ msgs.take k, ∃ call ∈ r.1, m ∈ call.messages

/-- Messages that never make a window trim, or never more of them than it retains. -/
def Fits (policy : MemoryPolicy) (msgs : List Message) : Prop :=
  (estimateMessagesTokens msgs ≤ policy.maxWindowTokens ∧ msgs.length ≤ policy.maxWindowMessages) ∨
    msgs.length ≤ policy.keepTailTurns

/-- Nothing is called, and the tail is what is left. -/
theorem trimIfNeeded_eq (w : ActiveWindow) :
    w.trimIfNeeded.calls = [] ∧ w.trimIfNeeded.window = { w with
      messages := if w.overLimit then w.messages.drop (w.messages.length - w.policy.keepTailTurns)
        else w.messages } := by
  rw [trimIfNeeded]
  split
  · refine ⟨rfl, ?_⟩
    have hlen : w.messages.length - min w.policy.keepTailTurns w.messages.length =
        w.messages.length - w.policy.keepTailTurns := by omega
    simp only [hlen]
  · exact ⟨rfl, rfl⟩

variable (policy : MemoryPolicy) (hook : Option DemotionHook) (compactor : Option Compactor)

theorem pushAll_concat (w : ActiveWindow) (msgs : List Message) (msg : Message) :
    w.pushAll (msgs ++ [msg]) = ((w.pushAll msgs).1 ++ ((w.pushAll msgs).2.push msg).calls,
      ((w.pushAll msgs).2.push msg).window) := List.foldl_concat ..

/-- The hook and the compactor are never called. -/
theorem calls_pushAll (w : ActiveWindow) (msgs : List Message) : (w.pushAll msgs).1 = [] := by
  induction msgs using List.reverseRecOn with
  | nil => rfl
  | append_singleton msgs msg ih =>
    rw [pushAll_concat, ih, push, (trimIfNeeded_eq _).1]
    rfl

/-- The policy stays. -/
theorem policy_pushAll (w : ActiveWindow) (msgs : List Message) :
    (w.pushAll msgs).2.policy = w.policy := by
  induction msgs using List.reverseRecOn with
  | nil => rfl
  | append_singleton msgs msg ih =>
    rw [pushAll_concat, push, (trimIfNeeded_eq _).2]
    exact ih

theorem fits_earlier {policy : MemoryPolicy} {msgs earlier : List Message}
    (h : Fits policy msgs) (hstart : earlier <+: msgs) : Fits policy earlier := by
  obtain ⟨later, rfl⟩ := hstart
  simp only [Fits, estimateMessagesTokens, List.map_append, List.sum_append, List.length_append]
    at h ⊢
  omega

/-- The window holds everything that was pushed exactly when the messages fit. -/
theorem messages_pushAll_iff (msgs : List Message) :
    ((empty policy hook compactor).pushAll msgs).2.messages = msgs ↔ Fits policy msgs := by
  induction msgs using List.reverseRecOn with
  | nil => exact ⟨fun _ => .inr (Nat.zero_le _), fun _ => rfl⟩
  | append_singleton msgs msg ih =>
    have hpolicy : ((empty policy hook compactor).pushAll msgs).2.policy = policy :=
      policy_pushAll _ _
    rw [pushAll_concat, push, (trimIfNeeded_eq _).2, hpolicy]
    simp only
    constructor
    · intro h
      split at h
      · have hlen := congrArg List.length h
        simp only [List.length_drop, List.length_append, List.length_singleton] at hlen
        exact .inr (by rw [List.length_append, List.length_singleton]; omega)
      · next hover =>
        rw [List.append_cancel_right h] at hover
        simp only [overLimit, Bool.or_eq_true, decide_eq_true_eq] at hover
        exact .inl ⟨by omega, by omega⟩
    · intro h
      have hmsgs := ih.mpr (fits_earlier h (List.prefix_append ..))
      rw [hmsgs]
      split
      · next hover =>
        simp only [overLimit, Bool.or_eq_true, decide_eq_true_eq] at hover
        rcases h with ⟨htokens, hlen⟩ | hlen
        · omega
        · rw [show (msgs ++ [msg]).length - policy.keepTailTurns = 0 by omega, List.drop_zero]
      · rfl

/-- Whatever has left the window is lost. -/
theorem accounted_iff (msgs : List Message) :
    Accounted msgs ((empty policy hook compactor).pushAll msgs) ↔ Fits policy msgs := by
  rw [← messages_pushAll_iff policy hook compactor, Accounted, calls_pushAll]
  constructor
  · rintro ⟨k, hwindow, htaken⟩
    have hnil : msgs.take k = [] := List.eq_nil_iff_forall_not_mem.mpr fun m hm => by
      obtain ⟨_, hcall, _⟩ := htaken m hm
      cases hcall
    rw [hwindow, ← List.nil_append (msgs.drop k), ← hnil, List.take_append_drop]
  · exact fun h => ⟨0, h, nofun⟩

end ActiveWindow

/-! ### Demotion into the session state -/

/-- Source: `behest-context/src/lib.rs:88–90`. -/
structure SessionState where
  entries : String → Option Value

namespace SessionState

/-- Source: `behest-context/src/lib.rs:100–102`. -/
def set (state : SessionState) (key : String) (value : Value) : SessionState :=
  ⟨Function.update state.entries key (some value)⟩

/-- Source: `behest-context/src/lib.rs:106–108`. -/
def get (state : SessionState) (key : String) : Option Value := state.entries key

end SessionState

/-- Source: `behest-core/src/cache.rs:37–44`. -/
def CacheControl.toValue (ctrl : CacheControl) : Value :=
  .object [("kind", .string (match ctrl.kind with
      | .ephemeral => "ephemeral")),
    ("ttl", .string (match ctrl.ttl with
      | .fiveMinutes => "five_minutes"
      | .oneHour => "one_hour"))]

/-- The marker of a part, left out when there is none. -/
def cacheControlFields (ctrl : Option CacheControl) : List (String × Value) :=
  ctrl.toList.map fun ctrl => ("cache_control", ctrl.toValue)

/-- Source: `behest-core/src/message.rs:183–212`. -/
def ContentPart.toValue : ContentPart → Value
  | .text t ctrl =>
      .object ([("type", .string "text"), ("text", .string t)] ++ cacheControlFields ctrl)
  | .json value ctrl =>
      .object ([("type", .string "json"), ("value", value)] ++ cacheControlFields ctrl)
  | .imageUrl url mimeType ctrl =>
      .object ([("type", .string "image_url"), ("url", .string url),
        ("mime_type", mimeType.elim .null .string)] ++ cacheControlFields ctrl)

/-- Source: `behest-core/src/tool_types.rs:75–83`. -/
def ToolCall.toValue (call : ToolCall) : Value :=
  .object [("id", .string call.id), ("name", .string call.name), ("arguments", call.arguments)]

/-- Source: `behest-core/src/message.rs:75–106`. -/
def Message.toValue : Message → Value
  | .system content =>
      .object [("role", .string "system"), ("content", .array (content.map ContentPart.toValue))]
  | .user content =>
      .object [("role", .string "user"), ("content", .array (content.map ContentPart.toValue))]
  | .assistant content toolCalls =>
      .object [("role", .string "assistant"), ("content", .array (content.map ContentPart.toValue)),
        ("tool_calls", .array (toolCalls.map ToolCall.toValue))]
  | .tool toolCallId name content =>
      .object [("role", .string "tool"), ("tool_call_id", .string toolCallId),
        ("name", .string name), ("content", .array (content.map ContentPart.toValue))]

/-- The context with the state of its session. Source: `behest-context/src/impls.rs:224–229`. -/
structure MemoryContextImpl where
  state : SessionState
  window : List Message

namespace MemoryContextImpl

/-- The key under which messages demoted at a second are stored. -/
def demotedKey (now : Int) : String := "memory:demoted:" ++ toString now

/-- The entry is set in a copy of the state, which is dropped at the end; the context is only
borrowed. Source: `behest-context/src/impls.rs:264–275`. -/
def demote (ctx : MemoryContextImpl) (now : Int) (messages : List Message) :
    Except String Unit × MemoryContextImpl :=
  if messages.length = 0 then (.ok (), ctx)
  else
    let value := Value.array (messages.map Message.toValue)
    let _state := ctx.state.set (demotedKey now) value
    (.ok (), ctx)

/-- Demotions one after the other, each at its second. -/
def demoteAll (ctx : MemoryContextImpl) (batches : List (Int × List Message)) :
    MemoryContextImpl :=
  batches.foldl (fun ctx batch => (ctx.demote batch.1 batch.2).2) ctx

/-- The message is among those stored under a key of demotion. -/
def Recorded (ctx : MemoryContextImpl) (message : Message) : Prop :=
  ∃ now items, ctx.state.get (demotedKey now) = some (.array items) ∧ message.toValue ∈ items

/-- A demotion always succeeds, and stores nothing. -/
theorem demote_eq (ctx : MemoryContextImpl) (now : Int) (messages : List Message) :
    ctx.demote now messages = (.ok (), ctx) := by
  rw [demote]
  split <;> rfl

theorem demoteAll_eq (ctx : MemoryContextImpl) (batches : List (Int × List Message)) :
    ctx.demoteAll batches = ctx := by
  induction batches with
  | nil => rfl
  | cons batch rest ih =>
    rw [demoteAll, List.foldl_cons, demote_eq]
    exact ih

end MemoryContextImpl

/-! ### Nothing leaves memory silently -/

open ActiveWindow in
/-- After each push the window and what was handed over account for every message pushed, and
every demoted message is recorded. -/
def NothingLost (policy : MemoryPolicy) (hook : Option DemotionHook) (compactor : Option Compactor)
    (msgs : List Message) (ctx : MemoryContextImpl) (batches : List (Int × List Message)) : Prop :=
  (∀ earlier, earlier <+: msgs →
      Accounted earlier ((empty policy hook compactor).pushAll earlier)) ∧
    ∀ batch ∈ batches, ∀ message ∈ batch.2, (ctx.demoteAll batches).Recorded message

/-- Nothing is lost exactly when nothing ever has to leave the window, and whatever is demoted
was recorded before. -/
theorem nothingLost_iff (policy : MemoryPolicy) (hook : Option DemotionHook)
    (compactor : Option Compactor) (msgs : List Message) (ctx : MemoryContextImpl)
    (batches : List (Int × List Message)) :
    NothingLost policy hook compactor msgs ctx batches ↔
      ActiveWindow.Fits policy msgs ∧
        ∀ batch ∈ batches, ∀ message ∈ batch.2, ctx.Recorded message := by
  rw [NothingLost, MemoryContextImpl.demoteAll_eq]
  refine and_congr_left fun _ => ⟨fun h => ?_, fun h earlier hstart => ?_⟩
  · exact (ActiveWindow.accounted_iff policy hook compactor msgs).mp (h msgs (List.prefix_refl _))
  · exact (ActiveWindow.accounted_iff policy hook compactor earlier).mpr
      (ActiveWindow.fits_earlier h hstart)

/-- With room for two messages the first of three is lost, whatever the hook and the compactor
are; and a message demoted from a new session is not recorded. -/
theorem first_lost :
    ¬ NothingLost ⟨100000, 2, 1, true, true⟩ (some fun _ messages => .ok messages.length)
        (some fun _ => .ok "summary") [.userText "msg1", .userText "msg2", .userText "msg3"]
        ⟨⟨fun _ => none⟩, []⟩ [] ∧
      ¬ NothingLost ⟨100000, 2, 1, true, true⟩ (some fun _ messages => .ok messages.length)
        (some fun _ => .ok "summary") [] ⟨⟨fun _ => none⟩, []⟩ [(0, [.userText "msg1"])] := by
  constructor
  · rintro ⟨hwindow, -⟩
    have hfits := (ActiveWindow.accounted_iff _ _ _ _).mp (hwindow _ (List.prefix_refl _))
    rcases hfits with ⟨-, hlen⟩ | hlen <;> exact absurd hlen (by decide)
  · rintro ⟨-, hdemoted⟩
    obtain ⟨now, items, hget, -⟩ := hdemoted _ List.mem_cons_self _ List.mem_cons_self
    cases hget

end Behest
