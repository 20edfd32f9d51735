import Behest.Adapter.Anthropic

/-!
# Streamed responses of Anthropic

How the API streams a response, and what the adapter and the run loop make of it. A tool call
is only put together when no other block comes before it, and the counts of the first event are
not read.
-/

namespace Behest.Anthropic

open AgentRuntime

/-! ### How a response is sent -/

/-- The usage that an event reports; an event may leave counts out. -/
structure UsageReport where
  inputTokens : Option Nat
  outputTokens : Option Nat
  cacheCreationInputTokens : Option Nat
  cacheReadInputTokens : Option Nat

namespace UsageReport

def ofUsage (u : AnthropicUsage) : UsageReport :=
  ⟨some u.inputTokens, some u.outputTokens, u.cacheCreationInputTokens, u.cacheReadInputTokens⟩

/-- A later report, with what it leaves out from an earlier one. -/
def orElse (later earlier : UsageReport) : UsageReport :=
  ⟨later.inputTokens.or earlier.inputTokens, later.outputTokens.or earlier.outputTokens,
    later.cacheCreationInputTokens.or earlier.cacheCreationInputTokens,
    later.cacheReadInputTokens.or earlier.cacheReadInputTokens⟩

/-- What a report is read as: the first two counts are required. Source: `types.rs:195–206`. -/
def read (r : UsageReport) : Option AnthropicUsage :=
  match r.inputTokens, r.outputTokens with
  | some inputTokens, some outputTokens =>
      some ⟨inputTokens, outputTokens, r.cacheCreationInputTokens, r.cacheReadInputTokens⟩
  | _, _ => none

/-- What the reports of the first and of the last event say together. -/
def merged : Option UsageReport → Option UsageReport → Option UsageReport
  | some first, some last => some (last.orElse first)
  | first, last => last.or first

end UsageReport

/-- A content block, with its text or the text of its arguments in pieces. -/
inductive SentBlock where
  | text (pieces : List String) (cacheControl : Option AnthropicCacheControl)
  | toolUse (id name : String) (input : Value) (pieces : List String)

namespace SentBlock

/-- The block in the response as a whole. -/
def whole : SentBlock → AnthropicContentBlock
  | text pieces cacheControl => .text (String.join pieces) cacheControl
  | toolUse id name input _ => .toolUse id name input

/-- The events of the block at an index. -/
def events (index : Nat) : SentBlock → List AnthropicStreamEvent
  | text pieces cacheControl => .contentBlockStart index (.text "" cacheControl) ::
      pieces.map (fun piece => .contentBlockDelta index (.textDelta piece)) ++
        [.contentBlockStop index]
  | toolUse id name _ pieces => .contentBlockStart index (.toolUse id name (.object [])) ::
      pieces.map (fun piece => .contentBlockDelta index (.inputJsonDelta piece)) ++
        [.contentBlockStop index]

/-- The pieces are the JSON of the arguments; without arguments there may be none. -/
def Faithful (parseJson : String → Option Value) : SentBlock → Prop
  | text _ _ => True
  | toolUse _ _ input pieces => parseJson (String.join pieces) = some input ∨
      String.join pieces = "" ∧ input = .object []

def isToolUse : SentBlock → Bool
  | text _ _ => false
  | toolUse _ _ _ _ => true

end SentBlock

/-- The events of some blocks, the first at an index. -/
def blockEvents : Nat → List SentBlock → List AnthropicStreamEvent
  | _, [] => []
  | index, b :: rest => b.events index ++ blockEvents (index + 1) rest

/-- A way to send a response. The first event reports a usage, and so does the one behind the
last block. -/
structure Sending (parseJson : String → Option Value) (response : AnthropicResponse) where
  model : String
  firstUsage : Option UsageReport
  blocks : List SentBlock
  lastUsage : Option UsageReport
  content : response.content = blocks.map SentBlock.whole
  faithful : ∀ b ∈ blocks, b.Faithful parseJson
  usage : UsageReport.merged firstUsage lastUsage = response.usage.map UsageReport.ofUsage

namespace Sending

variable {parseJson : String → Option Value} {response : AnthropicResponse}

/-- What the usage behind the last block is read as, if it can be read. -/
def lastRead (s : Sending parseJson response) : Option (Option AnthropicUsage) :=
  match s.lastUsage with
  | none => some none
  | some report => report.read.map some

/-- What the event behind the last block is read as. -/
def last (s : Sending parseJson response) : Option AnthropicStreamEvent :=
  s.lastRead.map (.messageDelta response.stopReason)

/-- What the events are read as; there is no field for the usage of the first one. -/
def readings (s : Sending parseJson response) : List (Option AnthropicStreamEvent) :=
  (.messageStart s.model :: blockEvents 0 s.blocks).map some ++ [s.last, some .messageStop]

/-- The only tool call is the first block, its arguments are sent, and the usage is all in the
last report and counts no cache. -/
structure Plain (s : Sending parseJson response) : Prop where
  first : ∀ b ∈ s.blocks.tail, b.isToolUse = false
  arguments : ∀ id name input pieces,
    SentBlock.toolUse id name input pieces ∈ s.blocks → String.join pieces ≠ ""
  counted : ∀ u, response.usage = some u →
    (s.lastUsage.bind UsageReport.read).isSome ∧ u.cacheCreationInputTokens = none ∧
      u.cacheReadInputTokens = none

end Sending

/-- The streamed answer is the whole one, and each call is completed once. -/
def StreamsAlike (parseJson : String → Option Value) (items : List StreamItem)
    (whole : ChatResponse) : Prop :=
  AnswersAlike parseJson items whole ∧ reportedCalls (delivered items) = whole.message.toolCalls

/-! ### What the adapter emits -/

namespace SentBlock

variable (parseJson : String → Option Value)

/-- The text of a block. -/
def content : SentBlock → String
  | text pieces _ => String.join pieces
  | toolUse _ _ _ _ => ""

/-- What is emitted for a block, by its index and the number of tool calls before it. -/
def emitted (index calls : Nat) : SentBlock → List ChatStreamEvent
  | text pieces _ => (pieces.filter fun piece => !piece.isEmpty).map .textDelta
  | toolUse id name _ pieces => .toolCallStarted id name ::
      if index = calls then
        pieces.map (.toolCallArgumentsDelta id) ++
          [.toolCallCompleted ⟨id, name, (parseJson (String.join pieces)).getD .null⟩]
      else pieces.map (.toolCallArgumentsDelta ("call_" ++ toString index))

end SentBlock

variable (parseJson : String → Option Value)

/-- What is emitted for some blocks. -/
def emitted : Nat → Nat → List SentBlock → List ChatStreamEvent
  | _, _, [] => []
  | index, calls, b :: rest => b.emitted parseJson index calls ++
      emitted (index + 1) (calls + b.isToolUse.toNat) rest

/-- The events that typed ones are mapped to. -/
def run (state : StreamState) : List AnthropicStreamEvent → List ChatStreamEvent × StreamState
  | [] => ([], state)
  | e :: rest =>
      let (event, state) := mapParsed parseJson state e
      (event.toList ++ (run state rest).1, (run state rest).2)

theorem run_append (state : StreamState) (front back : List AnthropicStreamEvent) :
    run parseJson state (front ++ back) =
      ((run parseJson state front).1 ++ (run parseJson (run parseJson state front).2 back).1,
        (run parseJson (run parseJson state front).2 back).2) := by
  induction front generalizing state with
  | nil => rfl
  | cons e rest ih => simp only [List.cons_append, run, ih, List.append_assoc]

theorem run_textDeltas (state : StreamState) (index : Nat) (pieces : List String) :
    run parseJson state (pieces.map fun piece => .contentBlockDelta index (.textDelta piece)) =
      ((pieces.filter fun piece => !piece.isEmpty).map .textDelta, state) := by
  induction pieces with
  | nil => rfl
  | cons piece rest ih =>
    rw [List.map_cons, run, mapParsed, handleBlockDelta]
    by_cases hempty : piece.isEmpty = true
    · rw [if_pos hempty, List.filter_cons_of_neg (by simp [hempty])]
      simp only [ih, Option.toList_none, List.nil_append]
    · rw [if_neg hempty, List.filter_cons_of_pos (by simp [hempty])]
      simp only [ih]
      rfl

theorem modify_concat {α : Type} (front : List α) (a : α) (f : α → α) :
    (front ++ [a]).modify front.length f = front ++ [f a] := by
  induction front with
  | nil => rfl
  | cons b rest ih => exact congrArg (b :: ·) ih

/-- Arguments for a call that is listed. -/
theorem run_listed {state : StreamState} {front : List ToolCallState} {tc : ToolCallState}
    (h : state.toolCalls = front ++ [tc]) (pieces : List String) :
    run parseJson state (pieces.map fun piece =>
        .contentBlockDelta front.length (.inputJsonDelta piece)) =
      (pieces.map (.toolCallArgumentsDelta tc.id),
        { state with toolCalls :=
            front ++ [{ tc with arguments := tc.arguments ++ String.join pieces }] }) := by
  induction pieces generalizing state tc with
  | nil => simp [run, ← h]
  | cons piece rest ih =>
    have hrest := @ih { state with toolCalls :=
      front ++ [{ tc with arguments := tc.arguments ++ piece }] } _ rfl
    rw [List.map_cons, run, mapParsed, handleBlockDelta, h, modify_concat,
      List.getElem?_concat_length]
    simp only [hrest]
    simp [String.append_assoc]

/-- Arguments for a call that is not listed. -/
theorem run_unlisted {state : StreamState} {index : Nat} (h : state.toolCalls.length ≤ index)
    (pieces : List String) :
    run parseJson state (pieces.map fun piece =>
        .contentBlockDelta index (.inputJsonDelta piece)) =
      (pieces.map (.toolCallArgumentsDelta ("call_" ++ toString index)), state) := by
  have hunlisted := List.getElem?_eq_none h
  induction pieces with
  | nil => rfl
  | cons piece rest ih =>
    rw [List.map_cons, run, mapParsed, handleBlockDelta, List.modify_eq_self h, hunlisted]
    simp only [ih]
    rfl

/-- The events of a block, behind which the number of calls listed is known. -/
theorem run_block {state : StreamState} {index : Nat} (h : state.toolCalls.length ≤ index)
    (b : SentBlock) :
    (run parseJson state (b.events index)).1 = b.emitted parseJson index state.toolCalls.length ∧
      (run parseJson state (b.events index)).2.toolCalls.length =
        state.toolCalls.length + b.isToolUse.toNat := by
  cases b with
  | text pieces cacheControl =>
    have hstop : handleBlockStop parseJson state index = none := by
      rw [handleBlockStop, List.getElem?_eq_none h]
      rfl
    have hblock : run parseJson state ((SentBlock.text pieces cacheControl).events index) =
        ((pieces.filter fun piece => !piece.isEmpty).map .textDelta, state) := by
      change run parseJson state
        (pieces.map (fun piece => .contentBlockDelta index (.textDelta piece)) ++
        [.contentBlockStop index]) = _
      simp [run_append, run_textDeltas, run, mapParsed, hstop]
    rw [hblock]
    exact ⟨rfl, rfl⟩
  | toolUse id name input pieces =>
    have hstart : run parseJson state ((SentBlock.toolUse id name input pieces).events index) =
        (.toolCallStarted id name ::
          (run parseJson { state with toolCalls := state.toolCalls ++ [⟨id, name, ""⟩] }
            (pieces.map (fun piece => .contentBlockDelta index (.inputJsonDelta piece)) ++
              [.contentBlockStop index])).1,
          (run parseJson { state with toolCalls := state.toolCalls ++ [⟨id, name, ""⟩] }
            (pieces.map (fun piece => .contentBlockDelta index (.inputJsonDelta piece)) ++
              [.contentBlockStop index])).2) := rfl
    rw [hstart, run_append, SentBlock.emitted]
    split
    · next hindex =>
      subst hindex
      rw [run_listed parseJson rfl]
      simp [run, mapParsed, handleBlockStop, SentBlock.isToolUse]
    · next hindex =>
      have hunlisted : (state.toolCalls ++ [(⟨id, name, ""⟩ : ToolCallState)]).length ≤ index := by
        rw [List.length_append, List.length_singleton]
        omega
      rw [run_unlisted parseJson hunlisted]
      simp [run, mapParsed, handleBlockStop, SentBlock.isToolUse, List.getElem?_eq_none hunlisted]

theorem run_blocks {state : StreamState} {index : Nat} (h : state.toolCalls.length ≤ index)
    (blocks : List SentBlock) :
    (run parseJson state (blockEvents index blocks)).1 =
      emitted parseJson index state.toolCalls.length blocks := by
  induction blocks generalizing state index with
  | nil => rfl
  | cons b rest ih =>
    obtain ⟨hevents, hlength⟩ := run_block parseJson h b
    have hle : (run parseJson state (b.events index)).2.toolCalls.length ≤ index + 1 := by
      rw [hlength]
      exact Nat.add_le_add h (Bool.toNat_le _)
    rw [blockEvents, run_append, emitted, hevents, ih hle, hlength]

variable {fromStr : String → Except String AnthropicStreamEvent}

/-- Events that are read are mapped. -/
theorem mapped_append {front : List SseEvent} {typed : List AnthropicStreamEvent}
    (h : (front.map fun e => (fromStr e.data).toOption) = typed.map some) (state : StreamState)
    (back : List (Except ProviderError SseEvent)) :
    mapped parseJson fromStr state (front.map .ok ++ back) =
      (run parseJson state typed).1.map .event ++
        mapped parseJson fromStr (run parseJson state typed).2 back := by
  induction front generalizing state typed with
  | nil =>
    obtain rfl := List.map_eq_nil_iff.mp h.symm
    rfl
  | cons sse rest ih =>
    cases typed with
    | nil => cases h
    | cons e typed =>
      obtain ⟨hread, hrest⟩ := List.cons.inj h
      have hparsed : fromStr sse.data = .ok e := eq_ok_of_toOption hread
      rw [List.map_cons, List.cons_append, mapped, mapAnthropicEvent]
      simp only [hparsed, run, ih hrest, List.map_append, List.append_assoc]
      cases (mapParsed parseJson state e).1 <;> rfl

/-! ### The text and the calls -/

namespace SentBlock

/-- The content part of a block in the whole response. -/
def part : SentBlock → Option ContentPart
  | text pieces _ => some (.ofText (String.join pieces))
  | toolUse _ _ _ _ => none

/-- The call of a block in the whole response. -/
def call : SentBlock → Option ToolCall
  | text _ _ => none
  | toolUse id name input _ => some ⟨id, name, input⟩

end SentBlock

theorem foldl_parseContentBlock (blocks : List SentBlock)
    (acc : List ContentPart × List ToolCall) :
    (blocks.map SentBlock.whole).foldl parseContentBlock acc =
      (acc.1 ++ blocks.filterMap SentBlock.part, acc.2 ++ blocks.filterMap SentBlock.call) := by
  induction blocks generalizing acc with
  | nil => simp
  | cons b rest ih =>
    rw [List.map_cons, List.foldl_cons, ih]
    cases b <;> simp [SentBlock.whole, parseContentBlock, List.filterMap_cons, SentBlock.part,
      SentBlock.call]

theorem message_fromAnthropicResponse {response : AnthropicResponse} {blocks : List SentBlock}
    (h : response.content = blocks.map SentBlock.whole) :
    (fromAnthropicResponse response).message =
      .assistant (blocks.filterMap SentBlock.part) (blocks.filterMap SentBlock.call) := by
  rw [fromAnthropicResponse, parseContentBlocks, h, foldl_parseContentBlock]
  rfl

theorem messageText_parts (blocks : List SentBlock) (calls : List ToolCall) :
    messageText (.assistant (blocks.filterMap SentBlock.part) calls) =
      String.join (blocks.map SentBlock.content) := by
  rw [messageText_assistant]
  induction blocks with
  | nil => rfl
  | cons b rest ih =>
    cases b with
    | text pieces cacheControl =>
      simp only [List.filterMap_cons, SentBlock.part, List.map_cons, String.join_cons, ih]
      rfl
    | toolUse id name input pieces =>
      simp only [List.filterMap_cons, SentBlock.part, List.map_cons, String.join_cons, ih,
        SentBlock.content, String.empty_append]

theorem deltaText_argumentsDeltas (id : String) (pieces : List String) :
    deltaText (pieces.map (.toolCallArgumentsDelta id)) = "" := by
  simp [deltaText, List.filterMap_map, Function.comp_def, ChatStreamEvent.delta]

theorem join_filter_isEmpty (pieces : List String) :
    String.join (pieces.filter fun piece => !piece.isEmpty) = String.join pieces := by
  induction pieces with
  | nil => rfl
  | cons piece rest ih =>
    by_cases h : piece.isEmpty = true
    · rw [List.filter_cons_of_neg (by simp [h]), ih, String.join_cons, String.isEmpty_iff.mp h,
        String.empty_append]
    · rw [List.filter_cons_of_pos (by simp [h]), String.join_cons, String.join_cons, ih]

/-- The text arrives. -/
theorem deltaText_emitted (index calls : Nat) (blocks : List SentBlock) :
    deltaText (emitted parseJson index calls blocks) =
      String.join (blocks.map SentBlock.content) := by
  induction blocks generalizing index calls with
  | nil => rfl
  | cons b rest ih =>
    rw [emitted, deltaText_append, ih, List.map_cons, String.join_cons]
    congr 1
    cases b with
    | text pieces cacheControl =>
      rw [SentBlock.emitted, deltaText_textDeltas, join_filter_isEmpty]
      rfl
    | toolUse id name input pieces =>
      rw [SentBlock.emitted, deltaText_cons]
      split
      · rw [deltaText_append, deltaText_argumentsDeltas]
        rfl
      · rw [deltaText_argumentsDeltas]
        rfl

/-- Behind a text block no call is completed. -/
theorem reportedCalls_emitted_of_lt {index calls : Nat} (h : calls < index)
    (blocks : List SentBlock) : reportedCalls (emitted parseJson index calls blocks) = [] := by
  induction blocks generalizing index calls with
  | nil => rfl
  | cons b rest ih =>
    have hnext : calls + b.isToolUse.toNat < index + 1 :=
      Nat.add_lt_add_of_lt_of_le h (Bool.toNat_le _)
    rw [emitted, reportedCalls_append, ih hnext, List.append_nil]
    cases b with
    | text pieces cacheControl =>
      simp [SentBlock.emitted, reportedCalls, List.filterMap_map, Function.comp_def,
        ChatStreamEvent.completion]
    | toolUse id name input pieces =>
      simp [SentBlock.emitted, reportedCalls, ChatStreamEvent.completion, Nat.ne_of_gt h]

/-- Without a tool call there is only text. -/
theorem emitted_of_texts {blocks : List SentBlock} (h : ∀ b ∈ blocks, b.isToolUse = false)
    (index calls : Nat) :
      ∃ deltas : List String, emitted parseJson index calls blocks = deltas.map .textDelta := by
  induction blocks generalizing index calls with
  | nil => exact ⟨[], rfl⟩
  | cons b rest ih =>
    obtain ⟨hb, hrest⟩ := List.forall_mem_cons.mp h
    obtain ⟨deltas, hdeltas⟩ := ih hrest (index + 1) (calls + b.isToolUse.toNat)
    cases b with
    | text pieces cacheControl =>
      exact ⟨pieces.filter (fun piece => !piece.isEmpty) ++ deltas, by
        rw [emitted, hdeltas, List.map_append]
        rfl⟩
    | toolUse id name input pieces => cases hb

theorem call_eq_none_iff (b : SentBlock) : b.call = none ↔ b.isToolUse = false := by
  cases b <;> simp [SentBlock.call, SentBlock.isToolUse]

theorem filterMap_call_eq_nil_iff (blocks : List SentBlock) :
    blocks.filterMap SentBlock.call = [] ↔ ∀ b ∈ blocks, b.isToolUse = false := by
  simp only [List.filterMap_eq_nil_iff, call_eq_none_iff]

/-- A call that is started first and gets its arguments at once. -/
theorem calls_of_first (id name : String) (pieces : List String) (call : ToolCall)
    {quiet : List ChatStreamEvent} (h : ∀ e ∈ quiet, e.ofCall = false) :
    startedCalls (.toolCallStarted id name ::
        (pieces.map (.toolCallArgumentsDelta id) ++ .toolCallCompleted call :: quiet)) =
          [⟨id, name, String.join pieces⟩] ∧
      reportedCalls (.toolCallStarted id name ::
        (pieces.map (.toolCallArgumentsDelta id) ++ .toolCallCompleted call :: quiet)) =
          [call] := by
  have hbegins : ∀ e ∈ pieces.map (ChatStreamEvent.toolCallArgumentsDelta id) ++
      .toolCallCompleted call :: quiet, e.begins = false := by
    intro e he
    rcases List.mem_append.mp he with he | he
    · obtain ⟨piece, -, rfl⟩ := List.mem_map.mp he
      rfl
    · rcases List.mem_cons.mp he with rfl | he
      · rfl
      · exact begins_of_ofCall (h e he)
  have hquiet := argumentsText_of_ofCall id h
  constructor
  · rw [startedCalls, starts_of_begins id hbegins, startedCalls_of_begins hbegins,
      argumentsText_append, argumentsText_deltas]
    change argumentsText id (.toolCallCompleted call :: quiet) = "" at hquiet
    rw [hquiet, String.append_empty]
    rfl
  · have hdeltas : reportedCalls (pieces.map (.toolCallArgumentsDelta id)) = [] := by
      simp [reportedCalls, ChatStreamEvent.completion]
    rw [reportedCalls_cons, reportedCalls_append, reportedCalls_cons, hdeltas,
      reportedCalls_of_ofCall h]
    rfl

/-- Some events describe the calls of some blocks, at most one, and report it. -/
def CallsArrive (blocks : List SentBlock) (events : List ChatStreamEvent) : Prop :=
  ((startedCalls events).length ≤ 1 ∧
    (startedCalls events).map (ToolCallAccumulator.call parseJson) =
      blocks.filterMap SentBlock.call) ∧
    reportedCalls events = blocks.filterMap SentBlock.call

section Ending

variable {ending : List ChatStreamEvent} {blocks : List SentBlock}

theorem ofCall_of_texts (hending : ∀ e ∈ ending, e.ofCall = false)
    (h : ∀ b ∈ blocks, b.isToolUse = false) (index calls : Nat) :
    ∀ e ∈ emitted parseJson index calls blocks ++ ending, e.ofCall = false := by
  obtain ⟨deltas, hdeltas⟩ := emitted_of_texts parseJson h index calls
  intro e he
  rw [hdeltas] at he
  rcases List.mem_append.mp he with he | he
  · obtain ⟨delta, -, rfl⟩ := List.mem_map.mp he
    rfl
  · exact hending e he

theorem callsArrive_of_texts (hending : ∀ e ∈ ending, e.ofCall = false)
    (h : ∀ b ∈ blocks, b.isToolUse = false) :
    CallsArrive parseJson blocks (emitted parseJson 0 0 blocks ++ ending) := by
  have hquiet := ofCall_of_texts parseJson hending h 0 0
  rw [CallsArrive, (filterMap_call_eq_nil_iff blocks).mpr h, reportedCalls_of_ofCall hquiet,
    startedCalls_of_begins fun e he => begins_of_ofCall (hquiet e he)]
  exact ⟨⟨Nat.zero_le 1, rfl⟩, rfl⟩

/-- Behind a text block no call arrives. -/
theorem callsArrive_text_iff (hending : ∀ e ∈ ending, e.ofCall = false) (pieces : List String)
    (cacheControl : Option AnthropicCacheControl) :
    CallsArrive parseJson (.text pieces cacheControl :: blocks)
        (emitted parseJson 0 0 (.text pieces cacheControl :: blocks) ++ ending) ↔
      ∀ b ∈ blocks, b.isToolUse = false := by
  constructor
  · rintro ⟨-, hreported⟩
    have htext :
        reportedCalls ((SentBlock.text pieces cacheControl).emitted parseJson 0 0) = [] := by
      simp [SentBlock.emitted, reportedCalls, ChatStreamEvent.completion]
    have hblocks : reportedCalls (emitted parseJson (0 + 1)
        (0 + (SentBlock.text pieces cacheControl).isToolUse.toNat) blocks) = [] :=
      reportedCalls_emitted_of_lt parseJson (Nat.lt_add_one 0) blocks
    rw [emitted, reportedCalls_append, reportedCalls_append, htext, hblocks,
      reportedCalls_of_ofCall hending] at hreported
    exact (List.forall_mem_cons.mp ((filterMap_call_eq_nil_iff _).mp hreported.symm)).2
  · exact fun h => callsArrive_of_texts parseJson hending (List.forall_mem_cons.mpr ⟨rfl, h⟩)

/-- A call in the first block arrives when it is the only one, with the arguments sent. -/
theorem callsArrive_toolUse_iff (hending : ∀ e ∈ ending, e.ofCall = false) (id name : String)
    (input : Value) (pieces : List String) :
    CallsArrive parseJson (.toolUse id name input pieces :: blocks)
        (emitted parseJson 0 0 (.toolUse id name input pieces :: blocks) ++ ending) ↔
      (∀ b ∈ blocks, b.isToolUse = false) ∧
        (parseJson (String.join pieces)).getD .null = input := by
  have hshape : emitted parseJson 0 0 (.toolUse id name input pieces :: blocks) ++ ending =
      .toolCallStarted id name :: (pieces.map (.toolCallArgumentsDelta id) ++
        .toolCallCompleted ⟨id, name, (parseJson (String.join pieces)).getD .null⟩ ::
          (emitted parseJson 1 1 blocks ++ ending)) := by
    rw [emitted, SentBlock.emitted, if_pos rfl]
    simp [SentBlock.isToolUse]
  have hcall : (SentBlock.toolUse id name input pieces :: blocks).filterMap SentBlock.call =
      ⟨id, name, input⟩ :: blocks.filterMap SentBlock.call := rfl
  have harrived (h : ∀ b ∈ blocks, b.isToolUse = false) :=
    calls_of_first id name pieces ⟨id, name, (parseJson (String.join pieces)).getD .null⟩
      (ofCall_of_texts parseJson hending h 1 1)
  rw [CallsArrive, hshape, hcall]
  constructor
  · rintro ⟨⟨hlength, hcalls⟩, hreported⟩
    have hnone : blocks.filterMap SentBlock.call = [] := by
      have hle := (congrArg List.length hcalls).symm.trans_le
        ((List.length_map _).trans_le hlength)
      exact List.eq_nil_of_length_eq_zero (Nat.le_zero.mp (Nat.le_of_succ_le_succ hle))
    have htexts := (filterMap_call_eq_nil_iff blocks).mp hnone
    rw [(harrived htexts).2] at hreported
    exact ⟨htexts, congrArg ToolCall.arguments (List.cons.inj hreported).1⟩
  · rintro ⟨htexts, hinput⟩
    rw [(harrived htexts).1, (harrived htexts).2, (filterMap_call_eq_nil_iff blocks).mpr htexts]
    refine ⟨⟨Nat.le_refl 1, ?_⟩, by rw [hinput]⟩
    rw [List.map_singleton, ToolCallAccumulator.call, hinput]

/-- The calls arrive when only the first block can be one, and has its arguments sent. -/
theorem callsArrive_iff (hempty : parseJson "" = none)
    (hfaithful : ∀ b ∈ blocks, b.Faithful parseJson)
    (hending : ∀ e ∈ ending, e.ofCall = false) :
    CallsArrive parseJson blocks (emitted parseJson 0 0 blocks ++ ending) ↔
      (∀ b ∈ blocks.tail, b.isToolUse = false) ∧ ∀ id name input pieces,
        SentBlock.toolUse id name input pieces ∈ blocks → String.join pieces ≠ "" := by
  have hno {blocks : List SentBlock} (h : ∀ b ∈ blocks, b.isToolUse = false)
      (id name : String) (input : Value) (pieces : List String) :
      SentBlock.toolUse id name input pieces ∉ blocks := fun hmem => by cases h _ hmem
  cases blocks with
  | nil => exact iff_of_true (callsArrive_of_texts parseJson hending nofun) ⟨nofun, nofun⟩
  | cons b rest =>
    cases b with
    | text pieces cacheControl =>
      rw [callsArrive_text_iff parseJson hending]
      refine ⟨fun htexts => ⟨htexts, fun id name input pieces' hmem => ?_⟩, fun h => h.1⟩
      exact absurd hmem (hno (List.forall_mem_cons.mpr ⟨rfl, htexts⟩) id name input pieces')
    | toolUse id name input pieces =>
      rw [callsArrive_toolUse_iff parseJson hending]
      refine and_congr_right fun htexts => ⟨fun hinput id' name' input' pieces' hmem hjoin => ?_,
        fun harguments => ?_⟩
      · rcases List.mem_cons.mp hmem with heq | hmem
        · cases heq
          rw [hjoin, hempty] at hinput
          rcases hfaithful _ List.mem_cons_self with hparse | ⟨-, rfl⟩
          · rw [hjoin, hempty] at hparse
            cases hparse
          · cases hinput
        · exact hno htexts id' name' input' pieces' hmem
      · rcases hfaithful _ List.mem_cons_self with hparse | ⟨hjoin, -⟩
        · rw [hparse, Option.getD_some]
        · exact absurd hjoin (harguments id name input pieces List.mem_cons_self)

end Ending

theorem deltaText_finished (blocks : List SentBlock) (reason : FinishReason)
    (usage : Option TokenUsage) :
    deltaText ((.started :: emitted parseJson 0 0 blocks) ++ [.finished reason usage]) =
      String.join (blocks.map SentBlock.content) := by
  have hfinished : deltaText [.finished reason usage] = "" := rfl
  rw [deltaText_append, hfinished, String.append_empty, deltaText_cons, deltaText_emitted]
  exact String.empty_append

theorem foldl_finish_finished (blocks : List SentBlock) (reason : FinishReason)
    (usage : Option TokenUsage) :
    List.foldl ChatStreamEvent.finish (.stop, none)
      ((.started :: emitted parseJson 0 0 blocks) ++ [.finished reason usage]) =
        (reason, usage) := by
  rw [List.foldl_append]
  rfl

/-! ### The whole stream -/

section Whole

variable {response : AnthropicResponse} {parseJson : String → Option Value}

/-- The usage of the stream is that of the whole response when it is all in the last report. -/
theorem lastRead_iff (s : Sending parseJson response) :
    (∃ u, s.lastRead = some u ∧
        u.map (fun u => TokenUsage.new u.inputTokens u.outputTokens) =
          response.usage.map convertUsage) ↔
      ∀ u, response.usage = some u → (s.lastUsage.bind UsageReport.read).isSome ∧
        u.cacheCreationInputTokens = none ∧ u.cacheReadInputTokens = none := by
  have husage := s.usage
  rw [Sending.lastRead]
  cases hwhole : response.usage with
  | none =>
    rw [hwhole] at husage
    have hlast : s.lastUsage = none := by
      cases hlast : s.lastUsage with
      | none => rfl
      | some d => cases hfirst : s.firstUsage <;> simp [hfirst, hlast, UsageReport.merged] at husage
    rw [hlast]
    exact iff_of_true ⟨none, rfl, rfl⟩ nofun
  | some u =>
    rw [hwhole] at husage
    cases hlast : s.lastUsage with
    | none => simp
    | some d =>
      obtain ⟨inputTokens, outputTokens, creation, cacheRead⟩ := d
      cases inputTokens with
      | none => simp [UsageReport.read]
      | some inputTokens =>
        cases outputTokens with
        | none => simp [UsageReport.read]
        | some outputTokens =>
          -- the last report has the counts of the response
          have hcounts : inputTokens = u.inputTokens ∧ outputTokens = u.outputTokens := by
            rw [hlast] at husage
            cases hfirst : s.firstUsage <;>
              simp_all [UsageReport.merged, UsageReport.orElse, UsageReport.ofUsage,
                UsageReport.mk.injEq]
          obtain ⟨rfl, rfl⟩ := hcounts
          simp [UsageReport.read, convertUsage, TokenUsage.new, TokenUsage.withCacheStats, eq_comm]

variable {fromStr : String → Except String AnthropicStreamEvent}

/-- What the adapter makes of the events of a response. -/
theorem stream_eq (s : Sending parseJson response) {sse : List SseEvent}
    (h : (sse.map fun e => (fromStr e.data).toOption) = s.readings) (provider : String) :
    ∃ ending, stream parseJson fromStr provider (sse.map .ok) =
        (.started :: emitted parseJson 0 0 s.blocks).map .event ++ ending ∧
      (s.lastRead = none → ∃ e, ending = [.failed e]) ∧
      ∀ u, s.lastRead = some u → ending = [.event (.finished
        (convertStreamStopReason response.stopReason)
        (u.map fun u => .new u.inputTokens u.outputTokens))] := by
  obtain ⟨front, back, rfl, hfront, hback⟩ := List.map_eq_append_iff.mp h
  obtain ⟨l, back', rfl, hl, hback'⟩ := List.map_eq_cons_iff.mp hback
  obtain ⟨stop, back'', rfl, hstop, hnil⟩ := List.map_eq_cons_iff.mp hback'
  obtain rfl := List.map_eq_nil_iff.mp hnil
  have hrun : (run parseJson (.new provider) (.messageStart s.model :: blockEvents 0 s.blocks)).1 =
      emitted parseJson 0 0 s.blocks :=
    run_blocks parseJson (Nat.zero_le 0) s.blocks
  have hempty : ∀ state, mapped parseJson fromStr state [.ok stop] = [] := fun state => by
    rw [mapped, mapAnthropicEvent, eq_ok_of_toOption hstop]
    rfl
  rw [List.map_append, stream, mapped_append parseJson hfront, hrun]
  refine ⟨_, rfl, fun hread => ?_, fun u hread => ?_⟩
  · rw [Sending.last, hread] at hl
    cases hdata : fromStr l.data with
    | ok parsed =>
      rw [hdata] at hl
      cases hl
    | error e =>
      rw [List.map_cons, mapped, mapAnthropicEvent]
      simp only [hdata, List.map_cons, List.map_nil, hempty]
      exact ⟨_, rfl⟩
  · rw [Sending.last, hread] at hl
    rw [List.map_cons, mapped, mapAnthropicEvent]
    simp only [eq_ok_of_toOption hl, List.map_cons, List.map_nil, hempty]
    rfl

/-- A response that is streamed is read like the whole response, with each call completed once,
exactly when it is sent plain. -/
theorem streamed_iff (hempty : parseJson "" = none) (s : Sending parseJson response)
    {sse : List SseEvent} (h : (sse.map fun e => (fromStr e.data).toOption) = s.readings)
    (provider : String) :
    StreamsAlike parseJson (stream parseJson fromStr provider (sse.map .ok))
      (fromAnthropicResponse response) ↔ s.Plain := by
  obtain ⟨ending, hstream, hunread, hread⟩ := stream_eq s h provider
  have hmessage := message_fromAnthropicResponse s.content
  rw [StreamsAlike, answersAlike_iff, hstream, delivered_append, unbroken_append, hmessage,
    messageText_parts]
  cases hlastRead : s.lastRead with
  | none =>
    obtain ⟨e, rfl⟩ := hunread hlastRead
    refine iff_of_false (fun halike => Bool.false_ne_true halike.1.1) fun hplain => ?_
    obtain ⟨u, hu, -⟩ := (lastRead_iff s).mpr hplain.counted
    cases hlastRead.symm.trans hu
  | some u =>
    obtain rfl := hread u hlastRead
    have hplain : s.Plain ↔ CallsArrive parseJson s.blocks
        (emitted parseJson 0 0 s.blocks ++ [.finished (convertStreamStopReason response.stopReason)
          (u.map fun u => .new u.inputTokens u.outputTokens)]) ∧
          u.map (fun u => TokenUsage.new u.inputTokens u.outputTokens) =
            response.usage.map convertUsage := by
      rw [callsArrive_iff parseJson hempty s.faithful (by simp [ChatStreamEvent.ofCall])]
      have hcounted := lastRead_iff s
      simp only [hlastRead, Option.some.injEq, exists_eq_left'] at hcounted
      rw [hcounted]
      exact ⟨fun h => ⟨⟨h.first, h.arguments⟩, h.counted⟩, fun h => ⟨h.1.1, h.1.2, h.2⟩⟩
    have hdelivered : ∀ finished : ChatStreamEvent, delivered [.event finished] = [finished] :=
      fun _ => rfl
    rw [hplain, hdelivered, deltaText_finished, foldl_finish_finished, Prod.mk.injEq]
    constructor
    · rintro ⟨⟨-, -, hcalls, -, husage⟩, hreported⟩
      exact ⟨⟨hcalls, hreported⟩, husage⟩
    · rintro ⟨⟨hcalls, hreported⟩, husage⟩
      exact ⟨⟨rfl, rfl, hcalls, rfl, husage⟩, hreported⟩

end Whole

/-! ### Two responses -/

/-- The JSON of some arguments. -/
def parseArguments (text : String) : Option Value :=
  if text = "\x7b\x7d" then some (.object []) else none

/-- Events of the API, and what they are read as. -/
def readTable : List (String × AnthropicStreamEvent) :=
  [("\x7b\"type\":\"message_start\",\"message\":\x7b\"model\":\"claude\"," ++
    "\"usage\":\x7b\"input_tokens\":9\x7d\x7d\x7d",
      .messageStart "claude"),
    ("\x7b\"type\":\"content_block_start\",\"index\":0," ++
     "\"content_block\":\x7b\"type\":\"tool_use\",\"id\":\"a\",\"name\":\"read\"," ++
     "\"input\":\x7b\x7d\x7d\x7d",
      .contentBlockStart 0 (.toolUse "a" "read" (.object []))),
    ("\x7b\"type\":\"content_block_delta\",\"index\":0," ++
     "\"delta\":\x7b\"type\":\"input_json_delta\",\"partial_json\":\"\x7b\x7d\"\x7d\x7d",
      .contentBlockDelta 0 (.inputJsonDelta "\x7b\x7d")),
    ("\x7b\"type\":\"content_block_stop\",\"index\":0\x7d",
      .contentBlockStop 0),
    ("\x7b\"type\":\"message_delta\",\"delta\":\x7b\"stop_reason\":\"tool_use\"\x7d," ++
     "\"usage\":\x7b\"input_tokens\":9,\"output_tokens\":4\x7d\x7d",
      .messageDelta (some "tool_use") (some ⟨9, 4, none, none⟩)),
    ("\x7b\"type\":\"message_stop\"\x7d",
      .messageStop),
    ("\x7b\"type\":\"content_block_start\",\"index\":0," ++
     "\"content_block\":\x7b\"type\":\"text\",\"text\":\"\"\x7d\x7d",
      .contentBlockStart 0 (.text "" none)),
    ("\x7b\"type\":\"content_block_delta\",\"index\":0," ++
     "\"delta\":\x7b\"type\":\"text_delta\",\"text\":\"Hi\"\x7d\x7d",
      .contentBlockDelta 0 (.textDelta "Hi")),
    ("\x7b\"type\":\"content_block_start\",\"index\":1," ++
     "\"content_block\":\x7b\"type\":\"tool_use\",\"id\":\"a\",\"name\":\"read\"," ++
     "\"input\":\x7b\x7d\x7d\x7d",
      .contentBlockStart 1 (.toolUse "a" "read" (.object []))),
    ("\x7b\"type\":\"content_block_delta\",\"index\":1," ++
     "\"delta\":\x7b\"type\":\"input_json_delta\",\"partial_json\":\"\x7b\x7d\"\x7d\x7d",
      .contentBlockDelta 1 (.inputJsonDelta "\x7b\x7d")),
    ("\x7b\"type\":\"content_block_stop\",\"index\":1\x7d",
      .contentBlockStop 1)]

def readEvent (text : String) : Except String AnthropicStreamEvent :=
  (readTable.lookup text).elim (.error "expected value") .ok

/-- The events at some rows of the table. -/
def eventsAt (rows : List Nat) : List SseEvent :=
  rows.filterMap fun row => readTable[row]?.map fun entry => ⟨none, entry.1⟩

/-- The call of both responses. -/
def readCall : SentBlock :=
  .toolUse "a" "read" (.object []) ["\x7b\x7d"]

def sendingOf (blocks : List SentBlock) (h : ∀ b ∈ blocks, b.Faithful parseArguments) :
    Sending parseArguments
      ⟨blocks.map SentBlock.whole, some "tool_use", some ⟨9, 4, none, none⟩⟩ where
  model := "claude"
  firstUsage := some ⟨some 9, none, none, none⟩
  blocks := blocks
  lastUsage := some ⟨some 9, some 4, none, none⟩
  content := rfl
  faithful := h
  usage := rfl

theorem readCall_faithful : readCall.Faithful parseArguments := .inl rfl

theorem readCall_streamed :
    StreamsAlike parseArguments
      (stream parseArguments readEvent "anthropic" ((eventsAt [0, 1, 2, 3, 4, 5]).map .ok))
      (fromAnthropicResponse ⟨[readCall].map SentBlock.whole, some "tool_use",
        some ⟨9, 4, none, none⟩⟩) :=
  (streamed_iff rfl (sendingOf [readCall] (List.forall_mem_singleton.mpr readCall_faithful))
    rfl "anthropic").mpr
    ⟨nofun, fun id name input pieces hmem => by
        cases List.mem_singleton.mp hmem
        decide,
      fun u hu => by
        cases hu
        exact ⟨rfl, rfl, rfl⟩⟩

/-- Behind a text the call is lost. -/
theorem textFirst_lost :
    ((eventsAt [0, 6, 7, 3, 8, 9, 10, 4, 5]).map fun e => (readEvent e.data).toOption) =
        (sendingOf [.text ["Hi"] none, readCall]
          (List.forall_mem_cons.mpr
            ⟨trivial, List.forall_mem_singleton.mpr readCall_faithful⟩)).readings ∧
      ¬ StreamsAlike parseArguments
        (stream parseArguments readEvent "anthropic"
          ((eventsAt [0, 6, 7, 3, 8, 9, 10, 4, 5]).map .ok))
        (fromAnthropicResponse ⟨[.text "Hi" none, readCall.whole], some "tool_use",
          some ⟨9, 4, none, none⟩⟩) := by
  refine ⟨rfl, fun halike => ?_⟩
  exact absurd (congrArg List.length halike.2) (by decide +kernel)

end Behest.Anthropic
