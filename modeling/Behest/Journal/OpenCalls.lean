import Mathlib.Data.List.Nodup
import Behest.Journal.Checkpoint

/-!
# Open calls of recorded and of preserved messages

Messages may be recorded in a log one by one, or be kept by a checkpoint. A checkpoint closes
the call that a tool message answers. The log closes it at the event of a finished call only, so
appended messages leave every call open.
-/

namespace Behest

/-- The message answers the call with the identifier. -/
def Message.answers (id : String) : Message → Bool
  | .tool toolCallId _ _ => toolCallId == id
  | _ => false

/-- The first call of each identifier. -/
def firstOfEach : List ToolCall → List ToolCall
  | [] => []
  | call :: rest => call :: (firstOfEach rest).filter fun c => c.id != call.id

/-- The calls that no later message answers. -/
def unanswered : List Message → List ToolCall
  | [] => []
  | message :: later =>
      (message.toolCalls.filter fun c => !later.any (Message.answers c.id)) ++ unanswered later

/-- A message calls, and no later message answers. -/
def Unanswered (messages : List Message) (call : ToolCall) : Prop :=
  ∃ before message later, messages = before ++ message :: later ∧ call ∈ message.toolCalls ∧
    ∀ m ∈ later, m.answers call.id = false

/-! ### The first of each identifier -/

theorem firstOfEach_sublist (calls : List ToolCall) : (firstOfEach calls).Sublist calls := by
  induction calls with
  | nil => exact .slnil
  | cons call rest ih => exact (List.filter_sublist.trans ih).cons_cons call

theorem exists_mem_firstOfEach {calls : List ToolCall} {call : ToolCall} (h : call ∈ calls) :
    ∃ first ∈ firstOfEach calls, first.id = call.id := by
  induction calls with
  | nil => cases h
  | cons head rest ih =>
    by_cases hid : head.id = call.id
    · exact ⟨head, List.mem_cons_self .., hid⟩
    · have hrest : call ∈ rest := (List.mem_cons.mp h).resolve_left fun heq => hid (heq ▸ rfl)
      obtain ⟨first, hfirst, heq⟩ := ih hrest
      refine ⟨first, List.mem_cons_of_mem _ (List.mem_filter.mpr ⟨hfirst, ?_⟩), heq⟩
      rw [heq]
      exact bne_iff_ne.mpr (Ne.symm hid)

theorem firstOfEach_of_nodup {calls : List ToolCall} (h : (calls.map ToolCall.id).Nodup) :
    firstOfEach calls = calls := by
  induction calls with
  | nil => rfl
  | cons call rest ih =>
    obtain ⟨hnew, hrest⟩ := List.nodup_cons.mp h
    rw [firstOfEach, ih hrest, List.filter_eq_self.mpr]
    intro c hc
    exact bne_iff_ne.mpr fun heq => hnew (heq ▸ List.mem_map_of_mem hc)

/-- Calls of some identifiers only. -/
theorem firstOfEach_filter (p : String → Bool) (calls : List ToolCall) :
    firstOfEach (calls.filter fun c => p c.id) = (firstOfEach calls).filter fun c => p c.id := by
  induction calls with
  | nil => rfl
  | cons call rest ih =>
    rw [firstOfEach, List.filter_cons, List.filter_cons]
    split
    · rw [firstOfEach, ih, List.filter_filter, List.filter_filter]
      simp only [Bool.and_comm]
    · next hp =>
      rw [ih, List.filter_filter]
      refine List.filter_congr fun c _ => ?_
      by_cases hid : c.id = call.id
      · simp [hid, Bool.eq_false_iff.mpr hp]
      · simp [hid]

/-- Calls that are opened one by one: the first of each identifier that is not open yet. -/
theorem foldl_openCall (calls opened : List ToolCall) : calls.foldl openCall opened =
    opened ++ (firstOfEach calls).filter fun c => !opened.any fun o => o.id == c.id := by
  induction calls generalizing opened with
  | nil => simp [firstOfEach]
  | cons call rest ih =>
    rw [List.foldl_cons, ih, openCall, firstOfEach]
    by_cases hopen : opened.any (fun o => o.id == call.id) = true
    · rw [if_pos hopen, List.filter_cons_of_neg (by simp [hopen]), List.filter_filter]
      congr 1
      refine List.filter_congr fun c _ => ?_
      by_cases hid : c.id = call.id
      · simp only [hid, hopen, Bool.not_true, Bool.false_and]
      · simp [hid]
    · rw [if_neg hopen, List.filter_cons_of_pos (by simp [hopen]), List.filter_filter,
        List.append_assoc, List.singleton_append]
      congr 2
      refine List.filter_congr fun c _ => ?_
      rw [List.any_append, Bool.not_or, List.any_cons, List.any_nil, Bool.or_false, bne,
        Bool.beq_comm]

theorem foldl_openCall_nil (calls : List ToolCall) :
    calls.foldl openCall [] = firstOfEach calls := by
  simp [foldl_openCall]

/-! ### What messages leave open -/

theorem unanswered_concat (messages : List Message) (message : Message) :
    unanswered (messages ++ [message]) =
      ((unanswered messages).filter fun c => !message.answers c.id) ++ message.toolCalls := by
  induction messages with
  | nil => simp [unanswered]
  | cons m rest ih =>
    rw [List.cons_append, unanswered, ih, unanswered, List.filter_append, List.filter_filter,
      List.append_assoc]
    congr 2
    funext c
    rw [List.any_append, Bool.not_or, Bool.and_comm, List.any_cons, List.any_nil, Bool.or_false]

theorem unanswered_sublist (messages : List Message) :
    (unanswered messages).Sublist (messages.flatMap Message.toolCalls) := by
  induction messages with
  | nil => exact .slnil
  | cons message rest ih => exact List.filter_sublist.append ih

theorem mem_unanswered {messages : List Message} {call : ToolCall} :
    call ∈ unanswered messages ↔ Unanswered messages call := by
  induction messages with
  | nil =>
    refine iff_of_false List.not_mem_nil ?_
    rintro ⟨before, message, later, heq, -⟩
    simp at heq
  | cons head rest ih =>
    rw [unanswered, List.mem_append, ih, List.mem_filter]
    constructor
    · rintro (⟨hcall, hlater⟩ | ⟨before, message, later, rfl, hcall, hlater⟩)
      · exact ⟨[], head, rest, rfl, hcall, by simpa using hlater⟩
      · exact ⟨head :: before, message, later, rfl, hcall, hlater⟩
    · rintro ⟨before, message, later, heq, hcall, hlater⟩
      cases before with
      | nil =>
        obtain ⟨rfl, rfl⟩ := List.cons.inj heq
        exact .inl ⟨hcall, by simpa using hlater⟩
      | cons m before =>
        obtain ⟨rfl, rfl⟩ := List.cons.inj heq
        exact .inr ⟨before, message, later, rfl, hcall, hlater⟩

/-- A checkpoint reopens the first call of each identifier that is left unanswered. -/
theorem reopenToolCalls_eq (messages : List Message) :
    reopenToolCalls messages = firstOfEach (unanswered messages) := by
  induction messages using List.reverseRecOn with
  | nil => rfl
  | append_singleton messages message ih =>
    have hstep : reopenToolCalls (messages ++ [message]) =
        reopenMessage (reopenToolCalls messages) message := List.foldl_concat ..
    rw [hstep, ih, unanswered_concat]
    cases message with
    | tool toolCallId name content =>
      have hclose : closeCall (firstOfEach (unanswered messages)) toolCallId =
          (firstOfEach (unanswered messages)).filter
            fun c => !(Message.tool toolCallId name content).answers c.id := by
        refine List.filter_congr fun c _ => ?_
        rw [Message.answers, bne, Bool.beq_comm]
      change closeCall (firstOfEach (unanswered messages)) toolCallId = firstOfEach (_ ++ [])
      rw [hclose, List.append_nil]
      exact (firstOfEach_filter
        (fun id => !(Message.tool toolCallId name content).answers id) _).symm
    | system content => simp [reopenMessage, Message.toolCalls, Message.answers]
    | user content => simp [reopenMessage, Message.toolCalls, Message.answers]
    | assistant content calls =>
      simp only [reopenMessage, Message.toolCalls, Message.answers, Bool.not_false,
        List.filter_true]
      rw [← foldl_openCall_nil, ← foldl_openCall_nil, List.foldl_append]

/-! ### The two ways to hold a history -/

namespace Journal

variable (history : List (Nat × Message))

/-- The open calls of a log in which the messages were recorded, each at its time. -/
def recordedCalls : List ToolCall :=
  ((Journal.new.recordAll (history.map fun m => (m.1, .messageAppended m.2))).buildPrompt
    []).openToolCalls

/-- The open calls of a checkpoint that keeps the messages. -/
def preservedCalls (compactedUntil : Nat) (summary : Option String) : List ToolCall :=
  (Journal.new.buildPrompt [⟨compactedUntil, summary, history.map Prod.snd⟩]).openToolCalls

/-- Open calls do not depend on how the history is held: they are the calls that no later
message answers, one for each identifier. -/
structure HeldAlike : Prop where
  same : ∀ compactedUntil summary, 
    recordedCalls history = preservedCalls history compactedUntil summary
  sound : ∀ call ∈ recordedCalls history, Unanswered (history.map Prod.snd) call
  complete : ∀ call, Unanswered (history.map Prod.snd) call →
    ∃ opened ∈ recordedCalls history, opened.id = call.id

variable {history}

/-- The events that record the messages. -/
def appending (history : List (Nat × Message)) : List (Nat × SessionEvent) :=
  history.map fun m => (m.1, .messageAppended m.2)

theorem coversFrom_appending (offset : Nat) (history : List (Nat × Message)) :
    CoversFrom offset (appending history) := by
  induction history generalizing offset with
  | nil => trivial
  | cons m rest ih => exact ⟨trivial, ih _⟩

/-- Appended messages open calls, and close none. -/
theorem openAfter_appending (opened : List ToolCall) (history : List (Nat × Message)) :
    SessionEvent.openAfter opened ((appending history).map Prod.snd) =
      ((history.map Prod.snd).flatMap Message.toolCalls).foldl openCall opened := by
  induction history generalizing opened with
  | nil => rfl
  | cons m rest ih =>
    rw [List.map_cons, List.flatMap_cons, List.foldl_append]
    exact ih _

/-- The log opens the first call of each identifier. -/
theorem recordedCalls_eq (history : List (Nat × Message)) :
    recordedCalls history = firstOfEach ((history.map Prod.snd).flatMap Message.toolCalls) := by
  have hcounted : counted 0 (entriesFrom 0 (appending history)) =
      (appending history).map Prod.snd :=
    counted_entriesFrom (coversFrom_appending 0 history) (Nat.le_refl _) (Nat.le_refl _)
  have hplain : ∀ e ∈ (appending history).map Prod.snd, e.isCheckpoint = false := by
    intro e he
    obtain ⟨_, ha, rfl⟩ := List.mem_map.mp he
    obtain ⟨m, -, rfl⟩ := List.mem_map.mp ha
    rfl
  change (List.foldl Replay.entry Replay.start
    (Journal.new.recordAll (appending history)).entries).prompt.openToolCalls = _
  rw [Replay.prompt_foldl, entries_recordAll, new, List.nil_append, Replay.start, hcounted,
    PromptProjection.applyAll_of_plain hplain]
  exact (openAfter_appending [] history).trans (foldl_openCall_nil _)

/-- A checkpoint opens the first call of each identifier that is left unanswered. -/
theorem preservedCalls_eq (history : List (Nat × Message)) (compactedUntil : Nat)
    (summary : Option String) : preservedCalls history compactedUntil summary =
      firstOfEach (unanswered (history.map Prod.snd)) :=
  reopenToolCalls_eq _

/-- Without repeated identifiers, every call is left unanswered exactly when none is answered. -/
theorem firstOfEach_eq_iff_of_nodup {messages : List Message}
    (h : ((messages.flatMap Message.toolCalls).map ToolCall.id).Nodup) :
    firstOfEach (messages.flatMap Message.toolCalls) = firstOfEach (unanswered messages) ↔
      ∀ call ∈ messages.flatMap Message.toolCalls, Unanswered messages call := by
  have hsub := unanswered_sublist messages
  rw [firstOfEach_of_nodup h, firstOfEach_of_nodup (h.sublist (hsub.map _))]
  constructor
  · intro heq call hcall
    rw [heq] at hcall
    exact mem_unanswered.mp hcall
  · intro hall
    have hmem : messages.flatMap Message.toolCalls ⊆ unanswered messages :=
      fun call hcall => mem_unanswered.mpr (hall call hcall)
    exact (hsub.eq_of_length_le ((h.of_map _).length_le_of_subset hmem)).symm

/-- **The log and the checkpoint hold the same open calls exactly when every call that a tool
message answers is made again, so that the first calls and the first unanswered calls are the
same; where no identifier is repeated, when no tool message answers a call**. -/
theorem heldAlike_iff (history : List (Nat × Message)) :
    let messages := history.map Prod.snd
    (HeldAlike history ↔
      firstOfEach (messages.flatMap Message.toolCalls) = firstOfEach (unanswered messages)) ∧
    (((messages.flatMap Message.toolCalls).map ToolCall.id).Nodup → (HeldAlike history ↔
      ∀ call ∈ messages.flatMap Message.toolCalls, Unanswered messages call)) := by
  dsimp only
  have hiff : HeldAlike history ↔ firstOfEach ((history.map Prod.snd).flatMap Message.toolCalls) =
      firstOfEach (unanswered (history.map Prod.snd)) := by
    constructor
    · intro h
      rw [← recordedCalls_eq, ← preservedCalls_eq history 0 none]
      exact h.same 0 none
    · intro h
      rw [← recordedCalls_eq] at h
      refine ⟨fun _ _ => h.trans (preservedCalls_eq ..).symm, fun call hcall => ?_,
        fun call hcall => ?_⟩
      · rw [h] at hcall
        exact mem_unanswered.mp ((firstOfEach_sublist _).subset hcall)
      · rw [h]
        exact exists_mem_firstOfEach (mem_unanswered.mpr hcall)
  exact ⟨hiff, fun hnodup => hiff.trans (firstOfEach_eq_iff_of_nodup hnodup)⟩

/-- A call without an answer is open either way. -/
theorem unanswered_call_heldAlike :
    HeldAlike [(0, Message.assistant [] [⟨"1", "read", .null⟩])] :=
  ((heldAlike_iff _).2 (by decide)).mpr fun _ hcall => mem_unanswered.mp hcall

/-- An answered call stays open in the log. -/
theorem answered_call_stays_open :
    let history := [(0, Message.assistant [] [⟨"1", "read", .null⟩]),
      (0, Message.toolText "1" "read" "done")]
    (recordedCalls history).map ToolCall.id = ["1"] ∧ preservedCalls history 0 none = [] ∧
      ¬ HeldAlike history := by
  refine ⟨rfl, rfl, fun h => ?_⟩
  have hsame := congrArg List.length (h.same 0 none)
  cases hsame

end Journal

end Behest
