import Behest.Adapter.OpenAi

/-!
# Streamed responses of OpenAI

How the API streams a response, and what the adapter and the run loop make of it. Fragments of
arguments only count once the identifier and the name of their call are known, and the chunk
that finishes the stream is not read for text, for calls or for a usage that follows it.
-/

namespace Behest.OpenAi

open AgentRuntime

/-! ### How a response is sent -/

/-- A tool call of a response. -/
structure SentCall where
  id : String
  name : String
  arguments : Option String

namespace SentCall

/-- The call in the response as a whole. -/
def whole (call : SentCall) : OpenAiToolCall :=
  ⟨some call.id, none, ⟨some call.name, call.arguments⟩⟩

/-- The deltas of a call: its identifier and its name, each at least once, and its arguments in
fragments, if it has any. -/
structure Fragments (call : SentCall) (deltas : List OpenAiToolCall) : Prop where
  id : ∀ d ∈ deltas, ∀ id, d.id = some id → id = call.id
  name : ∀ d ∈ deltas, ∀ name, d.function.name = some name → name = call.name
  identified : ∃ d ∈ deltas, d.id.isSome
  named : ∃ d ∈ deltas, d.function.name.isSome
  arguments : (∀ arguments, call.arguments = some arguments →
      String.join (deltas.filterMap fun d => d.function.arguments) = arguments) ∧
    (call.arguments = none → ∀ d ∈ deltas, d.function.arguments = none)

end SentCall

/-- The deltas of calls among some deltas. -/
def callDeltas (deltas : List OpenAiDelta) : List OpenAiToolCall :=
  deltas.flatMap fun d => d.toolCalls.getD []

/-- The text of some deltas. -/
def contentText (deltas : List OpenAiDelta) : String :=
  String.join (deltas.filterMap OpenAiDelta.content)

/-- A way to send a response: the deltas of its chunks, the last of them in the chunk with the
finish reason, and the usage in that chunk or in one without choices behind it. -/
structure Sending (response : OpenAiChatResponse) where
  choice : OpenAiChatChoice
  calls : List SentCall
  body : List OpenAiDelta
  last : OpenAiDelta
  reason : String
  lastUsage : Option OpenAiUsage
  usageChunk : Option OpenAiUsage
  first : response.choices.head? = some choice
  toolCalls : choice.message.toolCalls.getD [] = calls.map SentCall.whole
  content : choice.message.content = some (.string (contentText (body ++ [last]))) ∨
    choice.message.content = none ∧ contentText (body ++ [last]) = ""
  finished : choice.finishReason = some reason
  indexed : ∀ d ∈ callDeltas (body ++ [last]), ∃ i < calls.length, d.index = some i
  fragments : ∀ (i : Nat) (call : SentCall), calls[i]? = some call →
    call.Fragments ((callDeltas (body ++ [last])).filter fun d => d.index == some i)
  usage : lastUsage = response.usage ∧ usageChunk = none ∨
    lastUsage = none ∧ usageChunk = response.usage

/-- The arguments that come once the identifier and the name are known, if they become known. -/
def heard : Bool → Bool → List OpenAiToolCall → Option String
  | id, name, [] => if id && name then some "" else none
  | id, name, d :: rest =>
      let id := id || d.id.isSome
      let name := name || d.function.name.isSome
      (heard id name rest).map fun later =>
        if id && name then d.function.arguments.getD "" ++ later else later

namespace Sending

variable {response : OpenAiChatResponse}

def chunks (s : Sending response) : List OpenAiStreamChunk :=
  s.body.map (fun delta => ⟨[⟨delta, none⟩], none⟩) ++
    ⟨[⟨s.last, some s.reason⟩], s.lastUsage⟩ :: s.usageChunk.toList.map fun usage =>
      ⟨[], some usage⟩

/-- The chunk with the finish reason has no text. There is at most one call, and its identifier
and its name are not empty, become known before that chunk, and before any arguments that matter.
The usage is in the chunk with the finish reason and counts no cache. -/
structure Plain (parseJson : String → Option Value) (s : Sending response) : Prop where
  text : s.last.content.getD "" = ""
  few : s.calls.length ≤ 1
  heard : ∀ call ∈ s.calls, call.id ≠ "" ∧ call.name ≠ "" ∧
    ∃ arguments, heard false false (callDeltas s.body) = some arguments ∧
      (parseJson arguments).getD .null =
        (parseJson (call.arguments.getD "\x7b\x7d")).getD .null
  counted : ∀ u, response.usage = some u → s.lastUsage = some u ∧
    u.promptTokensDetails.bind OpenAiPromptTokensDetails.cachedTokens = none

end Sending

/-! ### What the adapter emits -/

/-- The adapter does not start a call with an empty identifier or name. -/
def SentCall.startable (call : SentCall) : Bool := !call.id.isEmpty && !call.name.isEmpty

/-- What is emitted for a delta of the only call, by whether its identifier and its name have
been seen. -/
def emittedDelta (call : SentCall) (idSeen nameSeen : Bool) (d : OpenAiToolCall) :
    List ChatStreamEvent :=
  let idSeen' := idSeen || d.id.isSome
  let nameSeen' := nameSeen || d.function.name.isSome
  (if idSeen' && nameSeen' && !(idSeen && nameSeen) && call.startable then
    [.toolCallStarted call.id call.name] else []) ++
    d.function.arguments.toList.map
      (.toolCallArgumentsDelta (if idSeen' then call.id else "call_0"))

def emitted (call : SentCall) : Bool → Bool → List OpenAiToolCall → List ChatStreamEvent
  | _, _, [] => []
  | idSeen, nameSeen, d :: rest => emittedDelta call idSeen nameSeen d ++
      emitted call (idSeen || d.id.isSome) (nameSeen || d.function.name.isSome) rest

/-- A delta of the only call. -/
structure Concerns (call : SentCall) (d : OpenAiToolCall) : Prop where
  index : d.index = some 0
  id : ∀ id, d.id = some id → id = call.id
  name : ∀ name, d.function.name = some name → name = call.name

/-- The state knows what has been seen of the only call. -/
structure Knows (call : SentCall) (idSeen nameSeen : Bool) (state : OpenAiStreamState) : Prop where
  id : state.indexToId.lookup 0 = if idSeen then some call.id else none
  name : state.indexToName.lookup 0 = if nameSeen then some call.name else none
  started : state.startedIndices.contains 0 = (idSeen && nameSeen && call.startable)

@[simp] theorem lookup_set (m : IndexMap) (index : Nat) (value : String) :
    (m.set index value).lookup index = some value := by
  rw [IndexMap.lookup, IndexMap.set, Keyed.get_insert]
  simp

variable {call : SentCall} {idSeen nameSeen : Bool} {state : OpenAiStreamState} {d : OpenAiToolCall}

theorem noteToolCall_id (h : Knows call idSeen nameSeen state) (hd : Concerns call d) :
    (noteToolCall state 0 d).indexToId.lookup 0 =
      if idSeen || d.id.isSome then some call.id else none := by
  rw [noteToolCall]
  cases hid : d.id with
  | none => simpa using h.id
  | some id => simp [hd.id id hid]

theorem noteToolCall_name (h : Knows call idSeen nameSeen state) (hd : Concerns call d) :
    (noteToolCall state 0 d).indexToName.lookup 0 =
      if nameSeen || d.function.name.isSome then some call.name else none := by
  rw [noteToolCall]
  cases hname : d.function.name with
  | none => simpa using h.name
  | some name => simp [hd.name name hname]

/-- The call starts when what is missing is seen. -/
theorem startToolCall_noted {idSeen' nameSeen' : Bool} {state : OpenAiStreamState}
    (hid : state.indexToId.lookup 0 = if idSeen' then some call.id else none)
    (hname : state.indexToName.lookup 0 = if nameSeen' then some call.name else none)
    (hstarted : state.startedIndices.contains 0 = (idSeen && nameSeen && call.startable))
    (hidSeen : idSeen = true → idSeen' = true) (hnameSeen : nameSeen = true → nameSeen' = true) :
    (startToolCall state 0).1 =
        (if idSeen' && nameSeen' && !(idSeen && nameSeen) && call.startable then
          [.toolCallStarted call.id call.name] else []) ∧
      Knows call idSeen' nameSeen' (startToolCall state 0).2 := by
  by_cases hseen : idSeen' = true ∧ nameSeen' = true
  · obtain ⟨rfl, rfl⟩ := hseen
    have htest : startToolCall state 0 =
        if call.startable && !(idSeen && nameSeen && call.startable) then
          ([.toolCallStarted call.id call.name],
            { state with startedIndices := 0 :: state.startedIndices })
        else ([], state) := by
      rw [startToolCall, hid, hname, ← hstarted]
      rfl
    rw [htest]
    cases hbefore : idSeen && nameSeen with
    | true =>
      rw [hbefore, Bool.true_and] at hstarted
      rw [Bool.true_and, Bool.and_not_self]
      exact ⟨rfl, hid, hname, hstarted⟩
    | false =>
      rw [Bool.false_and, Bool.not_false, Bool.and_true]
      cases hstartable : call.startable with
      | true => exact ⟨rfl, hid, hname, by simp [hstartable]⟩
      | false => exact ⟨rfl, hid, hname, hstarted.trans (by simp [hstartable])⟩
  · have hnothing : startToolCall state 0 = ([], state) := by
      rw [startToolCall, hid, hname]
      cases idSeen' <;> cases nameSeen' <;> simp_all
    have hnot : (idSeen' && nameSeen') = false := by
      cases idSeen' <;> cases nameSeen' <;> simp_all
    have hbefore : (idSeen && nameSeen) = false := by
      cases idSeen <;> cases nameSeen <;> simp_all
    rw [hnothing, hnot]
    exact ⟨rfl, hid, hname, by rw [hstarted, hbefore, hnot]⟩

theorem convertToolCallDelta_concerns (h : Knows call idSeen nameSeen state)
    (hd : Concerns call d) :
    (convertToolCallDelta state d).1 = emittedDelta call idSeen nameSeen d ∧
      Knows call (idSeen || d.id.isSome) (nameSeen || d.function.name.isSome)
        (convertToolCallDelta state d).2 := by
  obtain ⟨hstarted, hknows⟩ := startToolCall_noted (noteToolCall_id h hd) (noteToolCall_name h hd)
    h.started (fun hid => by simp [hid]) (fun hname => by simp [hname])
  rw [convertToolCallDelta, hd.index, Option.getD_some]
  simp only [emittedDelta, hstarted]
  cases hargs : d.function.arguments with
  | none => exact ⟨rfl, hknows.id, hknows.name, hknows.started⟩
  | some args =>
    refine ⟨?_, hknows.id, hknows.name, hknows.started⟩
    have hcall : (startToolCall (noteToolCall state 0 d) 0).2.callId 0 =
        if (idSeen || d.id.isSome) = true then call.id else "call_0" := by
      rw [OpenAiStreamState.callId, hknows.id]
      split <;> rfl
    simp only [appendArguments, hcall]
    rfl

/-- The deltas of the only call. -/
theorem convertToolCallDeltas_concerns {ds : List OpenAiToolCall}
    (h : Knows call idSeen nameSeen state) (hds : ∀ d ∈ ds, Concerns call d) :
    (convertToolCallDeltas state ds).1 = emitted call idSeen nameSeen ds ∧
      Knows call (idSeen || ds.any fun d => d.id.isSome)
        (nameSeen || ds.any fun d => d.function.name.isSome)
          (convertToolCallDeltas state ds).2 := by
  induction ds generalizing state idSeen nameSeen with
  | nil => exact ⟨rfl, by simpa [convertToolCallDeltas] using h⟩
  | cons d rest ih =>
    obtain ⟨hd, hrest⟩ := List.forall_mem_cons.mp hds
    obtain ⟨hevents, hknows⟩ := convertToolCallDelta_concerns h hd
    obtain ⟨hrestEvents, hrestKnows⟩ := ih hknows hrest
    rw [convertToolCallDeltas, emitted]
    simp only [hevents, hrestEvents, List.any_cons, ← Bool.or_assoc]
    exact ⟨trivial, hrestKnows⟩

/-! ### The calls of the accumulator -/

theorem begins_of_mem_arguments {id : String} {arguments : Option String} {e : ChatStreamEvent}
    (he : e ∈ arguments.toList.map (.toolCallArgumentsDelta id)) : e.begins = false := by
  obtain ⟨args, -, rfl⟩ := List.mem_map.mp he
  rfl

/-- A call starts once, and only with an identifier and a name. -/
theorem begins_of_mem_emitted {ds : List OpenAiToolCall}
    (h : (idSeen && nameSeen) = true ∨ call.startable = false) :
    ∀ e ∈ emitted call idSeen nameSeen ds, e.begins = false := by
  induction ds generalizing idSeen nameSeen with
  | nil => nofun
  | cons d rest ih =>
    intro e he
    rw [emitted, emittedDelta] at he
    have hnot : ((idSeen || d.id.isSome) && (nameSeen || d.function.name.isSome) &&
        !(idSeen && nameSeen) && call.startable) = false := by
      rcases h with h | h <;> simp [h]
    have hlater : ((idSeen || d.id.isSome) && (nameSeen || d.function.name.isSome)) = true ∨
        call.startable = false := by
      refine h.imp (fun h => ?_) id
      obtain ⟨rfl, rfl⟩ := Bool.and_eq_true_iff.mp h
      rfl
    simp only [hnot, Bool.false_eq_true, if_false, List.nil_append, List.mem_append] at he
    rcases he with he | he
    · exact begins_of_mem_arguments he
    · exact ih hlater e he

theorem argumentsText_toList (id : String) (arguments : Option String) :
    argumentsText id (arguments.toList.map (.toolCallArgumentsDelta id)) = arguments.getD "" := by
  cases arguments with
  | none => rfl
  | some args => simp [argumentsText]

/-- Once both are known all arguments are heard. -/
theorem heard_both (call : SentCall) (ds : List OpenAiToolCall) :
    heard true true ds = some (argumentsText call.id (emitted call true true ds)) := by
  induction ds with
  | nil => rfl
  | cons d rest ih =>
    have hdelta : emittedDelta call true true d =
        d.function.arguments.toList.map (.toolCallArgumentsDelta call.id) := rfl
    rw [emitted, argumentsText_append, hdelta, argumentsText_toList, heard]
    simp only [Bool.true_or, ih]
    rfl

/-- The call that the accumulator puts together. -/
theorem startedCalls_emitted {ds : List OpenAiToolCall} (h : (idSeen && nameSeen) = false) :
    startedCalls (emitted call idSeen nameSeen ds) =
      if call.startable then
        (heard idSeen nameSeen ds).toList.map fun arguments => ⟨call.id, call.name, arguments⟩
      else [] := by
  cases hstartable : call.startable with
  | false =>
    rw [startedCalls_of_begins (begins_of_mem_emitted (.inr hstartable))]
    rfl
  | true =>
    rw [if_pos rfl]
    induction ds generalizing idSeen nameSeen with
    | nil => rw [heard, h]; rfl
    | cons d rest ih =>
      rw [emitted, emittedDelta, heard]
      cases hboth : (idSeen || d.id.isSome) && (nameSeen || d.function.name.isSome) with
      | false =>
        simp only [Bool.false_and, Bool.false_eq_true, if_false, List.nil_append]
        rw [startedCalls_append_of_begins fun _ => begins_of_mem_arguments, ih hboth]
        simp
      | true =>
        -- from here on the arguments are heard
        obtain ⟨hid, hname⟩ := Bool.and_eq_true_iff.mp hboth
        simp only [hid, hname, h, hstartable, Bool.and_self, Bool.not_false, if_true]
        have hbegins : ∀ e ∈ d.function.arguments.toList.map (.toolCallArgumentsDelta call.id) ++
            emitted call true true rest, e.begins = false := by
          intro e he
          rcases List.mem_append.mp he with he | he
          · exact begins_of_mem_arguments he
          · exact begins_of_mem_emitted (.inl rfl) e he
        rw [List.append_assoc, List.singleton_append, startedCalls, starts_of_begins _ hbegins,
          startedCalls_of_begins hbegins, argumentsText_append, argumentsText_toList,
          heard_both call]
        rfl

/-! ### The chunks -/

section Chunks

variable (parseJson : String → Option Value)

/-- What chunks are converted to, one after the other. -/
def run (state : OpenAiStreamState) :
    List OpenAiStreamChunk → List ChatStreamEvent × OpenAiStreamState
  | [] => ([], state)
  | chunk :: rest =>
      let (front, state) := convertChunk parseJson state chunk
      let (back, state) := run state rest
      (front ++ back, state)

theorem run_append (state : OpenAiStreamState) (front back : List OpenAiStreamChunk) :
    run parseJson state (front ++ back) =
      ((run parseJson state front).1 ++ (run parseJson (run parseJson state front).2 back).1,
        (run parseJson (run parseJson state front).2 back).2) := by
  induction front generalizing state with
  | nil => rfl
  | cons chunk rest ih => simp only [List.cons_append, run, ih, List.append_assoc]

theorem convertToolCallDeltas_append (state : OpenAiStreamState)
    (front back : List OpenAiToolCall) :
    convertToolCallDeltas state (front ++ back) =
      ((convertToolCallDeltas state front).1 ++
          (convertToolCallDeltas (convertToolCallDeltas state front).2 back).1,
        (convertToolCallDeltas (convertToolCallDeltas state front).2 back).2) := by
  induction front generalizing state with
  | nil => rfl
  | cons d rest ih => simp only [List.cons_append, convertToolCallDeltas, ih, List.append_assoc]

/-- The deltas of calls have no text. -/
theorem deltaText_convertToolCallDeltas (state : OpenAiStreamState) (ds : List OpenAiToolCall) :
    deltaText (convertToolCallDeltas state ds).1 = "" := by
  induction ds generalizing state with
  | nil => rfl
  | cons d rest ih =>
    have hstarted : ∀ state index, deltaText (startToolCall state index).1 = "" := by
      intro state index
      rw [startToolCall]
      split
      · split <;> rfl
      · rfl
    have harguments : ∀ state index arguments,
        deltaText (appendArguments state index arguments).1 = "" := by
      intro state index arguments
      cases arguments <;> rfl
    simp only [convertToolCallDeltas, convertToolCallDelta, deltaText_append, hstarted, harguments,
      ih, String.append_empty]

theorem filter_convertContent (content : Option String) :
    (convertContent content).filter ChatStreamEvent.tells = [] := by
  cases content with
  | none => rfl
  | some text =>
    rw [convertContent]
    split <;> rfl

theorem deltaText_convertContent (content : Option String) :
    deltaText (convertContent content) = content.getD "" := by
  cases content with
  | none => rfl
  | some text =>
    rw [convertContent]
    split
    · next hempty =>
      rw [Option.getD_some, String.isEmpty_iff.mp hempty]
      rfl
    · exact deltaText_textDeltas [text] |>.trans (by simp)

theorem contentText_cons (delta : OpenAiDelta) (rest : List OpenAiDelta) :
    contentText (delta :: rest) = delta.content.getD "" ++ contentText rest := by
  rw [contentText, contentText, List.filterMap_cons]
  cases delta.content <;> simp

/-- The chunks before the one that finishes. -/
theorem run_body (state : OpenAiStreamState) (body : List OpenAiDelta) :
    (run parseJson state (body.map fun delta => ⟨[⟨delta, none⟩], none⟩)).2 =
        (convertToolCallDeltas state (callDeltas body)).2 ∧
      (run parseJson state (body.map fun delta => ⟨[⟨delta, none⟩], none⟩)).1.filter
          ChatStreamEvent.tells =
        (convertToolCallDeltas state (callDeltas body)).1.filter ChatStreamEvent.tells ∧
      deltaText (run parseJson state (body.map fun delta => ⟨[⟨delta, none⟩], none⟩)).1 =
        contentText body := by
  induction body generalizing state with
  | nil => exact ⟨rfl, rfl, rfl⟩
  | cons delta rest ih =>
    obtain ⟨content, toolCalls⟩ := delta
    have hcalls : callDeltas (⟨content, toolCalls⟩ :: rest) =
        toolCalls.getD [] ++ callDeltas rest := rfl
    obtain ⟨hstate, hevents, htext⟩ := ih (convertToolCallDeltas state (toolCalls.getD [])).2
    have hrun : run parseJson state (⟨[⟨⟨content, toolCalls⟩, none⟩], none⟩ ::
        rest.map fun delta => ⟨[⟨delta, none⟩], none⟩) =
          (convertContent content ++ (convertToolCallDeltas state (toolCalls.getD [])).1 ++
            (run parseJson (convertToolCallDeltas state (toolCalls.getD [])).2
              (rest.map fun delta => ⟨[⟨delta, none⟩], none⟩)).1,
            (run parseJson (convertToolCallDeltas state (toolCalls.getD [])).2
              (rest.map fun delta => ⟨[⟨delta, none⟩], none⟩)).2) := rfl
    rw [List.map_cons, hrun, hcalls, convertToolCallDeltas_append]
    refine ⟨hstate, ?_, ?_⟩
    · rw [List.filter_append, List.filter_append, List.filter_append, filter_convertContent,
        hevents]
      rfl
    · rw [deltaText_append, deltaText_append, deltaText_convertContent,
        deltaText_convertToolCallDeltas, htext, String.append_empty, contentText_cons]

variable {parseJson} {fromStr : String → Except String OpenAiStreamChunk}

/-- Chunks that are read are mapped. -/
theorem mapped_append {front : List SseEvent} {chunks : List OpenAiStreamChunk}
    (h : (front.map fun e => (fromStr e.data).toOption) = chunks.map some)
    (hdone : ∀ e ∈ front, e.isOpenAiDone = false) (state : OpenAiStreamState)
    (back : List (Except ProviderError SseEvent)) :
    mapped parseJson fromStr state (front.map .ok ++ back) =
      (run parseJson state chunks).1.map .event ++
        mapped parseJson fromStr (run parseJson state chunks).2 back := by
  induction front generalizing state chunks with
  | nil =>
    obtain rfl := List.map_eq_nil_iff.mp h.symm
    rfl
  | cons sse rest ih =>
    cases chunks with
    | nil => cases h
    | cons chunk chunks =>
      obtain ⟨hread, hrest⟩ := List.cons.inj h
      obtain ⟨hsse, hdone⟩ := List.forall_mem_cons.mp hdone
      have hparsed : fromStr sse.data = .ok chunk := eq_ok_of_toOption hread
      rw [List.map_cons, List.cons_append, mapped, mapSseEvent, hsse]
      simp only [Bool.false_eq_true, if_false, parseChunkEvent, hparsed, run, ih hrest hdone,
        List.map_append, List.append_assoc, List.map_map]
      rfl

/-- Markers of the end give nothing. -/
theorem mapped_done {back : List SseEvent} (h : ∀ e ∈ back, e.isOpenAiDone = true)
    (state : OpenAiStreamState) : mapped parseJson fromStr state (back.map .ok) = [] := by
  induction back generalizing state with
  | nil => rfl
  | cons sse rest ih =>
    obtain ⟨hsse, hrest⟩ := List.forall_mem_cons.mp h
    rw [List.map_cons, mapped, mapSseEvent, hsse]
    exact ih hrest state

/-- The chunk that finishes, and what follows it. -/
theorem run_ending (state : OpenAiStreamState) (last : OpenAiDelta) (reason : String)
    (lastUsage usageChunk : Option OpenAiUsage) :
    ∃ completed : List ToolCall, (run parseJson state (⟨[⟨last, some reason⟩], lastUsage⟩ ::
        usageChunk.toList.map fun usage => ⟨[], some usage⟩)).1 =
      completed.map .toolCallCompleted ++ [.finished (convertStreamFinish reason)
        (lastUsage.map fun u => .new u.promptTokens u.completionTokens)] := by
  have husage : ∀ state, (run parseJson state
      (usageChunk.toList.map fun usage => ⟨[], some usage⟩)).1 = [] := fun state => by
    cases usageChunk <;> rfl
  rw [run]
  simp only [convertChunk, List.head?_cons, convertChoice, husage, List.append_nil]
  exact ⟨_, rfl⟩

/-- The events of a response. -/
theorem stream_eq {response : OpenAiChatResponse} (s : Sending response)
    {front done : List SseEvent}
    (h : (front.map fun e => (fromStr e.data).toOption) = s.chunks.map some)
    (hfront : ∀ e ∈ front, e.isOpenAiDone = false) (hdone : ∀ e ∈ done, e.isOpenAiDone = true)
    (provider : String) :
    ∃ (events : List ChatStreamEvent) (completed : List ToolCall),
      stream parseJson fromStr provider ((front ++ done).map .ok) =
        (.started :: (events ++ (completed.map .toolCallCompleted ++
          [.finished (convertStreamFinish s.reason)
            (s.lastUsage.map fun u => .new u.promptTokens u.completionTokens)]))).map .event ∧
      events.filter ChatStreamEvent.tells =
        (convertToolCallDeltas (.new provider) (callDeltas s.body)).1.filter ChatStreamEvent.tells ∧
      deltaText events = contentText s.body := by
  obtain ⟨-, hevents, htext⟩ := run_body parseJson (.new provider) s.body
  obtain ⟨completed, hending⟩ := @run_ending parseJson (run parseJson (.new provider)
    (s.body.map fun delta => ⟨[⟨delta, none⟩], none⟩)).2 s.last s.reason s.lastUsage s.usageChunk
  refine ⟨_, completed, ?_, hevents, htext⟩
  rw [stream, List.map_append, mapped_append h hfront, mapped_done hdone, List.append_nil,
    Sending.chunks, run_append, hending]
  rfl

end Chunks

/-! ### The whole stream -/

section Whole

variable {parseJson : String → Option Value} {fromStr : String → Except String OpenAiStreamChunk}
variable {response : OpenAiChatResponse}

theorem convertStreamFinish_eq (reason : String) :
    convertStreamFinish reason = convertFinishReason (some reason) := by
  unfold convertStreamFinish convertFinishReason
  split <;> simp_all

/-- The response as a whole. -/
theorem fromOpenAiResponse_sending (parseJson : String → Option Value) (s : Sending response) :
    fromOpenAiResponse parseJson response =
      some ⟨convertResponseMessage parseJson s.choice.message, convertFinishReason (some s.reason),
        response.usage.map convertUsage⟩ := by
  rw [fromOpenAiResponse, s.first, Option.map_some, s.finished]

theorem toolCalls_sending (parseJson : String → Option Value) (s : Sending response) :
    (convertResponseMessage parseJson s.choice.message).toolCalls = s.calls.map fun call =>
      ⟨call.id, call.name, (parseJson (call.arguments.getD "\x7b\x7d")).getD .null⟩ := by
  have hcalls := s.toolCalls
  rw [convertResponseMessage, Message.toolCalls]
  cases hmessage : s.choice.message.toolCalls with
  | none =>
    rw [hmessage] at hcalls
    rw [List.map_eq_nil_iff.mp hcalls.symm]
    rfl
  | some calls =>
    rw [hmessage, Option.getD_some] at hcalls
    rw [Option.map_some, Option.getD_some, hcalls, convertResponseToolCalls, List.filterMap_map,
      ← List.filterMap_eq_map]
    rfl

theorem messageText_sending (parseJson : String → Option Value) (s : Sending response) :
    messageText (convertResponseMessage parseJson s.choice.message) =
      contentText (s.body ++ [s.last]) := by
  rw [convertResponseMessage, messageText_assistant]
  rcases s.content with hcontent | ⟨hcontent, htext⟩
  · rw [hcontent]
    simp [parseContentValue, ContentPart.ofText, ContentPart.plain]
  · rw [hcontent, htext]
    rfl

/-- The usage of the stream is that of the whole response. -/
theorem lastUsage_iff (s : Sending response) :
    s.lastUsage.map (fun u => TokenUsage.new u.promptTokens u.completionTokens) =
        response.usage.map convertUsage ↔
      ∀ u, response.usage = some u → s.lastUsage = some u ∧
        u.promptTokensDetails.bind OpenAiPromptTokensDetails.cachedTokens = none := by
  cases hwhole : response.usage with
  | none =>
    have hlast : s.lastUsage = none := by
      rcases s.usage with ⟨hlast, -⟩ | ⟨hlast, -⟩
      · exact hlast.trans hwhole
      · exact hlast
    rw [hlast]
    exact iff_of_true rfl nofun
  | some u =>
    rcases s.usage with ⟨hlast, -⟩ | ⟨hlast, -⟩
    · rw [hlast, hwhole]
      simp [convertUsage, TokenUsage.new, TokenUsage.withCacheStats, eq_comm]
    · rw [hlast]
      simp

/-- The calls of the accumulator, when there is at most one call. -/
theorem startedCalls_convertToolCallDeltas (s : Sending response) (provider : String)
    (h : s.calls.length ≤ 1) :
    startedCalls (convertToolCallDeltas (.new provider) (callDeltas s.body)).1 =
      s.calls.flatMap fun call => if call.startable then
        (heard false false (callDeltas s.body)).toList.map fun arguments =>
          ⟨call.id, call.name, arguments⟩
      else [] := by
  have hbody : ∀ d ∈ callDeltas s.body, d ∈ callDeltas (s.body ++ [s.last]) := fun d hd => by
    rw [callDeltas, List.flatMap_append]
    exact List.mem_append_left _ hd
  match hcalls : s.calls with
  | [] =>
    have hnone : callDeltas s.body = [] := List.eq_nil_iff_forall_not_mem.mpr fun d hd => by
      obtain ⟨i, hi, -⟩ := s.indexed d (hbody d hd)
      rw [hcalls] at hi
      cases hi
    rw [hnone]
    rfl
  | [call] =>
    have hconcerns : ∀ d ∈ callDeltas s.body, Concerns call d := by
      intro d hd
      obtain ⟨i, hi, hindex⟩ := s.indexed d (hbody d hd)
      rw [hcalls, List.length_singleton, Nat.lt_one_iff] at hi
      subst hi
      have hfragments := s.fragments 0 call (by rw [hcalls]; rfl)
      have hmem : d ∈ (callDeltas (s.body ++ [s.last])).filter fun d => d.index == some 0 :=
        List.mem_filter.mpr ⟨hbody d hd, by simpa using hindex⟩
      exact ⟨hindex, hfragments.id d hmem, hfragments.name d hmem⟩
    have hnew : Knows call false false (.new provider) := ⟨rfl, rfl, rfl⟩
    rw [(convertToolCallDeltas_concerns hnew hconcerns).1, startedCalls_emitted rfl,
      List.flatMap_singleton]
  | _ :: _ :: _ =>
    rw [hcalls, List.length_cons, List.length_cons] at h
    omega

theorem startable_iff (call : SentCall) :
    call.startable = true ↔ call.id ≠ "" ∧ call.name ≠ "" := by
  simp [SentCall.startable]

/-- The only call arrives when it is started and the arguments heard are as good as all. -/
theorem map_call_iff (call : SentCall) (arguments : Option String) (whole : Value) :
    (if call.startable then
          arguments.toList.map fun arguments =>
            (⟨call.id, call.name, arguments⟩ : ToolCallAccumulator)
        else []).map (ToolCallAccumulator.call parseJson) = [⟨call.id, call.name, whole⟩] ↔
      call.id ≠ "" ∧ call.name ≠ "" ∧
        ∃ text, arguments = some text ∧ (parseJson text).getD .null = whole := by
  rw [← and_assoc, ← startable_iff]
  cases call.startable with
  | false => simp
  | true => cases arguments <;> simp [ToolCallAccumulator.call]

/-- The calls arrive when there is at most one, and it can be put together. -/
theorem calls_iff (s : Sending response) (provider : String) :
    ((startedCalls (convertToolCallDeltas (.new provider) (callDeltas s.body)).1).length ≤ 1 ∧
        (startedCalls (convertToolCallDeltas (.new provider) (callDeltas s.body)).1).map
          (ToolCallAccumulator.call parseJson) = s.calls.map fun call =>
            ⟨call.id, call.name, (parseJson (call.arguments.getD "\x7b\x7d")).getD .null⟩) ↔
      s.calls.length ≤ 1 ∧ ∀ call ∈ s.calls, call.id ≠ "" ∧ call.name ≠ "" ∧
        ∃ arguments, heard false false (callDeltas s.body) = some arguments ∧
          (parseJson arguments).getD .null =
            (parseJson (call.arguments.getD "\x7b\x7d")).getD .null := by
  have hfew (h : s.calls.length ≤ 1) := startedCalls_convertToolCallDeltas s provider h
  constructor
  · rintro ⟨hlength, hcalls⟩
    have hlengths := congrArg List.length hcalls
    rw [List.length_map, List.length_map] at hlengths
    have h : s.calls.length ≤ 1 := hlengths ▸ hlength
    refine ⟨h, fun call hcall => ?_⟩
    rw [hfew h] at hcalls
    obtain ⟨only, honly⟩ := List.length_eq_one_iff.mp
      (Nat.le_antisymm h (List.length_pos_of_mem hcall))
    rw [honly] at hcall hcalls
    obtain rfl := List.mem_singleton.mp hcall
    rw [List.flatMap_singleton, List.map_singleton] at hcalls
    exact (map_call_iff _ _ _).mp hcalls
  · rintro ⟨h, hheard⟩
    rw [hfew h]
    match hcalls : s.calls with
    | [] => exact ⟨Nat.zero_le 1, rfl⟩
    | [call] =>
      have hone :=
        (map_call_iff call _ _).mpr (hheard call (by rw [hcalls]; exact List.mem_cons_self))
      rw [List.flatMap_singleton, List.map_singleton]
      exact ⟨(List.length_map _).symm.trans_le (congrArg List.length hone).le, hone⟩
    | _ :: _ :: _ =>
      rw [hcalls, List.length_cons, List.length_cons] at h
      omega

theorem contentText_concat (body : List OpenAiDelta) (last : OpenAiDelta) :
    contentText body = contentText (body ++ [last]) ↔ last.content.getD "" = "" := by
  have hlast : contentText (body ++ [last]) = contentText body ++ last.content.getD "" := by
    rw [contentText, contentText, List.filterMap_append, String.join_append]
    cases hcontent : last.content <;> simp [hcontent]
  rw [hlast, eq_comm, String.append_eq_left_iff]

/-- A response that is streamed is read like the whole response exactly when it is sent plain. -/
theorem chunked_iff (s : Sending response) {front done : List SseEvent}
    (h : (front.map fun e => (fromStr e.data).toOption) = s.chunks.map some)
    (hfront : ∀ e ∈ front, e.isOpenAiDone = false) (hdone : ∀ e ∈ done, e.isOpenAiDone = true)
    (provider : String) :
    (∃ whole, fromOpenAiResponse parseJson response = some whole ∧
        AnswersAlike parseJson
          (stream parseJson fromStr provider ((front ++ done).map .ok)) whole) ↔
      s.Plain parseJson := by
  obtain ⟨events, completed, hstream, htells, htext⟩ :=
    @stream_eq parseJson fromStr response s front done h hfront hdone provider
  generalize hending : completed.map ChatStreamEvent.toolCallCompleted ++
    [.finished (convertStreamFinish s.reason)
      (s.lastUsage.map fun u => .new u.promptTokens u.completionTokens)] = ending at hstream
  have hquiet : ending.filter ChatStreamEvent.tells = [] ∧ deltaText ending = "" := by
    rw [← hending, List.filter_append, deltaText_append]
    have hcompleted : deltaText (completed.map .toolCallCompleted) = "" := by
      simp [deltaText, List.filterMap_map, Function.comp_def, ChatStreamEvent.delta]
    rw [hcompleted]
    exact ⟨by simp [ChatStreamEvent.tells], rfl⟩
  have hstarted : startedCalls (.started :: (events ++ ending)) =
      startedCalls (convertToolCallDeltas (.new provider) (callDeltas s.body)).1 := by
    rw [← startedCalls_filter_tells, ← startedCalls_filter_tells (convertToolCallDeltas _ _).1,
      ← htells, List.filter_cons_of_neg Bool.false_ne_true, List.filter_append, hquiet.1,
      List.append_nil]
  have hall : deltaText (.started :: (events ++ ending)) = contentText s.body := by
    rw [deltaText_cons, deltaText_append, hquiet.2, String.append_empty, htext]
    exact String.empty_append
  have hlast : List.foldl ChatStreamEvent.finish (.stop, none) (.started :: (events ++ ending)) =
      (convertFinishReason (some s.reason),
        s.lastUsage.map fun u => .new u.promptTokens u.completionTokens) := by
    rw [← convertStreamFinish_eq, List.foldl_cons, List.foldl_append, ← hending, List.foldl_append]
    rfl
  rw [fromOpenAiResponse_sending parseJson s]
  simp only [Option.some.injEq, exists_eq_left']
  rw [answersAlike_iff, hstream, delivered_events, unbroken_events, hstarted, hall, hlast,
    messageText_sending, toolCalls_sending, contentText_concat, calls_iff, Prod.mk.injEq,
    lastUsage_iff]
  constructor
  · rintro ⟨-, hcontent, ⟨hfew, hheard⟩, -, hcounted⟩
    exact ⟨hcontent, hfew, hheard, hcounted⟩
  · rintro ⟨hcontent, hfew, hheard, hcounted⟩
    exact ⟨rfl, hcontent, ⟨hfew, hheard⟩, rfl, hcounted⟩

end Whole

/-! ### Three responses -/

/-- The JSON of some arguments. -/
def parseArguments (text : String) : Option Value :=
  if text = "\x7b\x7d" then some (.object []) else none

def readCall : SentCall := ⟨"a", "read", some "\x7b\x7d"⟩

def readDelta : OpenAiToolCall :=
  ⟨some "a", some 0, ⟨some "read", some "\x7b\x7d"⟩⟩

/-- Chunks of the API, and what they are read as. -/
def readTable : List (String × OpenAiStreamChunk) :=
  [("\x7b\"choices\":[\x7b\"index\":0,\"delta\":\x7b\"content\":\"Hi\"\x7d\x7d]\x7d",
      ⟨[⟨⟨some "Hi", none⟩, none⟩], none⟩),
    ("\x7b\"choices\":[\x7b\"index\":0,\"delta\":\x7b\"tool_calls\":[\x7b\"index\":0," ++
     "\"id\":\"a\",\"function\":\x7b\"name\":\"read\"," ++
     "\"arguments\":\"\x7b\x7d\"\x7d\x7d]\x7d\x7d]\x7d",
      ⟨[⟨⟨none, some [readDelta]⟩, none⟩], none⟩),
    ("\x7b\"choices\":[\x7b\"index\":0,\"delta\":\x7b\x7d," ++
     "\"finish_reason\":\"tool_calls\"\x7d],\"usage\":\x7b\"prompt_tokens\":9," ++
     "\"completion_tokens\":4,\"total_tokens\":13\x7d\x7d",
      ⟨[⟨⟨none, none⟩, some "tool_calls"⟩], some ⟨9, 4, none⟩⟩),
    ("\x7b\"choices\":[\x7b\"index\":0,\"delta\":\x7b\x7d,\"finish_reason\":\"stop\"\x7d]\x7d",
      ⟨[⟨⟨none, none⟩, some "stop"⟩], none⟩),
    ("\x7b\"choices\":[],\"usage\":\x7b\"prompt_tokens\":9,\"completion_tokens\":4," ++
     "\"total_tokens\":13\x7d\x7d",
      ⟨[], some ⟨9, 4, none⟩⟩),
    ("\x7b\"choices\":[\x7b\"index\":0,\"delta\":\x7b\"content\":\"Hi\"\x7d," ++
     "\"finish_reason\":\"stop\"\x7d]\x7d",
      ⟨[⟨⟨some "Hi", none⟩, some "stop"⟩], none⟩)]

def readChunk (text : String) : Except String OpenAiStreamChunk :=
  (readTable.lookup text).elim (.error "expected value") .ok

/-- The events at some rows of the table. -/
def eventsAt (rows : List Nat) : List SseEvent :=
  rows.filterMap fun row => readTable[row]?.map fun entry => ⟨none, entry.1⟩

def doneEvent : SseEvent := ⟨none, "[DONE]"⟩

def readResponse : OpenAiChatResponse :=
  ⟨[⟨⟨some (.string "Hi"), some [readCall.whole]⟩, some "tool_calls"⟩], some ⟨9, 4, none⟩⟩

theorem readDelta_fragments : readCall.Fragments [readDelta] where
  id := by simp [readDelta, readCall]
  name := by simp [readDelta, readCall]
  identified := ⟨readDelta, List.mem_singleton_self _, rfl⟩
  named := ⟨readDelta, List.mem_singleton_self _, rfl⟩
  arguments := ⟨fun _ h => Option.some.inj h, nofun⟩

/-- A text, and a call with all its parts at once. -/
def readSending : Sending readResponse where
  choice := ⟨⟨some (.string "Hi"), some [readCall.whole]⟩, some "tool_calls"⟩
  calls := [readCall]
  body := [⟨some "Hi", none⟩, ⟨none, some [readDelta]⟩]
  last := ⟨none, none⟩
  reason := "tool_calls"
  lastUsage := some ⟨9, 4, none⟩
  usageChunk := none
  first := rfl
  toolCalls := rfl
  content := .inl rfl
  finished := rfl
  indexed := fun d hd => ⟨0, Nat.one_pos, by
    obtain rfl := List.mem_singleton.mp hd
    rfl⟩
  fragments := fun i call hcall => by
    cases i with
    | zero =>
      obtain rfl := Option.some.inj hcall
      exact readDelta_fragments
    | succ i => cases hcall
  usage := .inl ⟨rfl, rfl⟩

theorem readSending_streamed :
    ∃ whole, fromOpenAiResponse parseArguments readResponse = some whole ∧
      AnswersAlike parseArguments (stream parseArguments readChunk "openai"
        ((eventsAt [0, 1, 2] ++ [doneEvent]).map .ok)) whole :=
  (chunked_iff readSending (by decide +kernel) (by decide +kernel) (by decide +kernel) "openai").mpr
    ⟨rfl, Nat.le_refl 1, fun call hcall => by
        obtain rfl := List.mem_singleton.mp hcall
        exact ⟨by decide, by decide, _, rfl, rfl⟩,
      fun u hu => ⟨hu, by
        cases hu
        rfl⟩⟩

/-- A response that is only a text. -/
def textResponse (usage : Option OpenAiUsage) : OpenAiChatResponse :=
  ⟨[⟨⟨some (.string "Hi"), none⟩, some "stop"⟩], usage⟩

/-- The text comes before the chunk that finishes or in it, the usage behind it. -/
def textSending (usage : Option OpenAiUsage) (body : List OpenAiDelta) (last : OpenAiDelta)
    (content : contentText (body ++ [last]) = "Hi") (calls : callDeltas (body ++ [last]) = []) :
    Sending (textResponse usage) where
  choice := ⟨⟨some (.string "Hi"), none⟩, some "stop"⟩
  calls := []
  body := body
  last := last
  reason := "stop"
  lastUsage := none
  usageChunk := usage
  first := rfl
  toolCalls := rfl
  content := .inl (by rw [content])
  finished := rfl
  indexed := by simp [calls]
  fragments := nofun
  usage := .inr ⟨rfl, rfl⟩

/-- A usage behind the chunk that finishes is lost, and so is a text in it. -/
theorem textSending_lost :
    (((eventsAt [0, 3, 4]).map fun e => (readChunk e.data).toOption) =
        (textSending (some ⟨9, 4, none⟩) [⟨some "Hi", none⟩] ⟨none, none⟩ rfl rfl).chunks.map some ∧
      ¬ ∃ whole, fromOpenAiResponse parseArguments (textResponse (some ⟨9, 4, none⟩)) = some whole ∧
        AnswersAlike parseArguments (stream parseArguments readChunk "openai"
          ((eventsAt [0, 3, 4] ++ [doneEvent]).map .ok)) whole) ∧
    ((eventsAt [5]).map fun e => (readChunk e.data).toOption) =
        (textSending none [] ⟨some "Hi", none⟩ rfl rfl).chunks.map some ∧
      ¬ ∃ whole, fromOpenAiResponse parseArguments (textResponse none) = some whole ∧
        AnswersAlike parseArguments (stream parseArguments readChunk "openai"
          ((eventsAt [5] ++ [doneEvent]).map .ok)) whole := by
  refine ⟨⟨by decide +kernel, ?_⟩, by decide +kernel, ?_⟩
  · rintro ⟨whole, hwhole, halike⟩
    obtain rfl := Option.some.inj hwhole
    have husage := congrArg Prod.snd ((answersAlike_iff _ _ _).mp halike).2.2.2
    exact absurd husage (by decide +kernel)
  · rintro ⟨whole, hwhole, halike⟩
    obtain rfl := Option.some.inj hwhole
    have htext := ((answersAlike_iff _ _ _).mp halike).2.1
    exact absurd htext (by decide +kernel)

end Behest.OpenAi
