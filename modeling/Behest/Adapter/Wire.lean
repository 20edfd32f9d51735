import Behest.Adapter.AnthropicStream
import Behest.Adapter.OpenAiStream
import Behest.Adapter.SseGrammar

/-!
# From the wire to the answer

What the run loop makes of the bytes of a streamed response: the parser of the event stream, the
adapter of the provider and the accumulator one after the other. The network may cut the bytes
anywhere between two characters, and may break off with an error at any point.
-/

namespace Behest

open Effect Text AgentRuntime

namespace Sse

/-! ### Events that are written -/

/-- The text of some events. -/
def written (e : LineEnding) (events : List PlainEvent) : List Char :=
  events.flatMap fun event => text e event.rendered

/-- The network brings a text in chunks, none of which ends within a character. -/
structure Carries (text : List Char) (chunks : List (List UInt8)) : Prop where
  whole : chunks.flatten = encode text
  uncut : ∀ chunk ∈ chunks, ∃ part, chunk = encode part

/-- What the network brings: a text, or an error at some point. -/
def Brings (text : List Char) (inner : List (Except String (List UInt8))) : Prop :=
  (∃ source, .error source ∈ inner) ∨ ∃ chunks, inner = chunks.map .ok ∧ Carries text chunks

variable {e : LineEnding} {events : List PlainEvent} {chunks : List (List UInt8)}
  {text : List Char}

theorem decode_uncut (h : ∀ chunk ∈ chunks, ∃ part, chunk = encode part) :
    ∃ t, chunks.flatten = encode t ∧ chunks.flatMap decodeLossy = t := by
  induction chunks with
  | nil => exact ⟨[], rfl, rfl⟩
  | cons chunk rest ih =>
    obtain ⟨⟨part, rfl⟩, hrest⟩ := List.forall_mem_cons.mp h
    obtain ⟨t, hflatten, hdecoded⟩ := ih hrest
    refine ⟨part ++ t, ?_, ?_⟩
    · rw [List.flatten_cons, hflatten, encode, encode, encode, List.flatMap_append]
    · rw [List.flatMap_cons, hdecoded, decodeLossy_encode]

theorem Carries.decoded (h : Carries text chunks) : chunks.flatMap decodeLossy = text := by
  obtain ⟨t, hflatten, hdecoded⟩ := decode_uncut h.uncut
  have hsame := congrArg decodeLossy (hflatten.symm.trans h.whole)
  rw [decodeLossy_encode, decodeLossy_encode] at hsame
  exact hdecoded.trans hsame

/-- One character a chunk. -/
theorem carries_characters (text : List Char) : Carries text (text.map fun c => encode [c]) := by
  refine ⟨?_, fun chunk hchunk => ?_⟩
  · rw [← List.flatMap_def]
    simp [encode]
  · obtain ⟨c, -, rfl⟩ := List.mem_map.mp hchunk
    exact ⟨[c], rfl⟩

theorem blocks_written (e : LineEnding) (events : List PlainEvent) :
    blocks (written e events) = (events.map fun event => Sse.text e event.rendered, []) := by
  induction events with
  | nil => exact blocks_of_none rfl
  | cons event rest ih =>
    have hboundary : findEventBoundary (Sse.text e event.rendered ++ written e rest) =
        some (Sse.text e event.rendered).length :=
      findEventBoundary_block event.fieldLines_ne_nil event.ne_blank_of_mem_fieldLines _
    rw [written, List.flatMap_cons, ← written, blocks_of_some hboundary, List.take_left,
      List.drop_left, ih, List.map_cons]

theorem map_parseEventBlock_written (h : ∀ event ∈ events, Readable e event.rendered) :
    (blocks (written e events)).1.map parseEventBlock =
      events.map fun event => some event.toSseEvent := by
  rw [blocks_written, List.map_map]
  refine List.map_congr_left fun event hevent => ?_
  exact ((parseEventBlock_eq_iff e _).mpr (h event hevent)).trans event.grammarEvent_rendered

/-- An event without a name, whose data is a line. -/
def PlainEvent.ofLine (line : Line) : PlainEvent := ⟨none, [line], List.cons_ne_nil _ _⟩

theorem PlainEvent.readable_ofLine {line : Line} {c : Char} {rest : List Char}
    (hline : line.chars = c :: rest) (hc : isWhitespace c = false) :
    Readable .lf (ofLine line).rendered := by
  refine .inr ⟨fun value hvalue d hd => ?_, fun name hname => ?_⟩
  · rw [dataValues_rendered] at hvalue
    cases List.mem_singleton.mp hvalue
    rw [hline] at hd
    cases hd
    exact hc
  · rw [eventName_rendered] at hname
    cases hname

/-- Blocks that all have data settle. -/
theorem settles_of_data {queue : List Bool} {arrivals : List (List Bool)}
    (hqueue : ∀ b ∈ queue, b = true) (h : ∀ b ∈ arrivals.flatten, b = true) :
    settles queue arrivals = true := by
  have hdrains : ∀ queue : List Bool, (∀ b ∈ queue, b = true) → drains true queue = true := by
    intro queue hqueue
    induction queue with
    | nil => rfl
    | cons b rest ih =>
      obtain ⟨rfl, hrest⟩ := List.forall_mem_cons.mp hqueue
      exact ih hrest
  have hadvance : ∀ queue : List Bool, (∀ b ∈ queue, b = true) → advance queue = [] := by
    intro queue hqueue
    induction queue with
    | nil => rfl
    | cons b rest ih =>
      obtain ⟨rfl, hrest⟩ := List.forall_mem_cons.mp hqueue
      exact ih hrest
  induction arrivals generalizing queue with
  | nil => exact hdrains queue hqueue
  | cons arrival rest ih =>
    rw [List.flatten_cons, List.forall_mem_append] at h
    rw [settles, hadvance queue hqueue, List.nil_append]
    exact ih h.1 h.2

/-- Chunks that carry readable events are read as these events. -/
theorem events_of_carries (h : Carries (written e events) chunks)
    (hreadable : ∀ event ∈ events, Readable e event.rendered) (provider : String) :
    (SseStream.new (chunks.map .ok) provider).events =
      (events.map PlainEvent.toSseEvent).map .ok := by
  have hparsed := map_parseEventBlock_written hreadable
  have heventsOf : eventsOf (blocks (written e events)).1 = events.map PlainEvent.toSseEvent := by
    have hid : eventsOf (blocks (written e events)).1 =
        ((blocks (written e events)).1.map parseEventBlock).filterMap id := by
      rw [List.filterMap_map]
      rfl
    rw [hid, hparsed, List.filterMap_map, ← List.filterMap_eq_map]
    rfl
  have hdata : ∀ b ∈ (blocks (written e events)).1.map hasData, b = true := by
    have hmap : (blocks (written e events)).1.map hasData =
        ((blocks (written e events)).1.map parseEventBlock).map Option.isSome :=
      (List.map_map ..).symm
    rw [hmap, hparsed, List.map_map]
    intro b hb
    obtain ⟨event, -, rfl⟩ := List.mem_map.mp hb
    rfl
  rw [← heventsOf]
  refine (events_new_iff h.whole provider).mpr ⟨by rw [h.decoded], settles_of_data ?_ ?_⟩
  · rintro b ⟨⟩
  · have hflatten := flatten_arrivals [] (chunks.map decodeLossy)
    rw [blocks_of_none rfl, List.nil_append, List.nil_append, ← List.flatMap_def, h.decoded]
      at hflatten
    rw [← List.map_flatten, hflatten]
    exact hdata

end Sse

/-! ### A network that breaks off -/

namespace SseStream

/-- With an error ahead, a poll has an event and the error is still ahead, or it has the error. -/
theorem poll_of_error (provider : String) {inner : List (Except String (List UInt8))}
    (h : ∃ source, .error source ∈ inner) (buffer : List Char) :
    ∃ r s, poll provider inner buffer = (some r, s) ∧
      ((∃ e, r = .error e) ∨ ∃ source, .error source ∈ s.inner) := by
  induction inner generalizing buffer with
  | nil =>
    obtain ⟨source, ⟨⟩⟩ := h
  | cons item rest ih =>
    rw [poll]
    split
    · exact ⟨_, _, rfl, .inr h⟩
    · cases item with
      | ok chunk =>
        obtain ⟨source, hmem⟩ := h
        exact ih ⟨source, (List.mem_cons.mp hmem).resolve_left (by simp)⟩ _
      | error source => exact ⟨_, _, rfl, .inl ⟨_, rfl⟩⟩

/-- An error of the network is one of the results. -/
theorem exists_error_of_broken (s : SseStream) (h : ∃ source, .error source ∈ s.inner) :
    ∃ e, .error e ∈ s.events := by
  induction s using events.induct with
  | case1 s s' hend =>
    obtain ⟨r, s'', hpoll, -⟩ := poll_of_error s.provider h s.buffer
    cases hend.symm.trans hpoll
  | case2 s r s' hpoll ih =>
    rw [events_of_some hpoll]
    obtain ⟨r', s'', hpoll', hr⟩ := poll_of_error s.provider h s.buffer
    cases hpoll.symm.trans hpoll'
    rcases hr with ⟨e, rfl⟩ | hs
    · exact ⟨e, List.mem_cons_self⟩
    · obtain ⟨e, he⟩ := ih hs
      exact ⟨e, List.mem_cons_of_mem _ he⟩

end SseStream

theorem unbroken_items_append (front back : List StreamItem) :
    unbroken (front ++ back) = (unbroken front && unbroken back) := by
  induction front with
  | nil => rfl
  | cons item rest ih =>
    cases item with
    | event e => exact ih
    | _ => rfl

/-! ### The answer of the run loop -/

/-- The text, the calls, the finish reason and the usage of the complete answer. -/
def ModelAnswer.Agrees (answer : ModelAnswer) (whole : ChatResponse) : Prop :=
  messageText answer.message = messageText whole.message ∧
    answer.message.toolCalls = whole.message.toolCalls ∧
    answer.finish = whole.finishReason ∧ answer.usage = whole.usage

/-- A stream that fails when the network does, and else is like the complete answer. -/
theorem wp_callStreaming_brings {host : Host} (hperm : ∀ calls, (host.valuesOrder calls).Perm calls)
    {inner : List (Except String (List UInt8))} {items : List StreamItem} {whole : ChatResponse}
    (hbroken : (∃ source, .error source ∈ inner) → unbroken items = false)
    (halike : (∀ source, .error source ∉ inner) → AnswersAlike host.parseJson items whole)
    {provider : ChatProvider} {request : ChatRequest} {w : World}
    (hstream : provider.stream w request = .ok items) (runId : Uuid) :
    ((∀ source, .error source ∉ inner) → (streamAnswer host items).isSome) ∧
      wp (callStreaming host provider request runId)
        (fun answer _ => (∀ source, .error source ∉ inner) ∧ answer.Agrees whole)
        (fun _ _ => True) w := by
  constructor
  · intro hwhole
    obtain ⟨answer, hanswer, -⟩ := halike hwhole host rfl hperm
    rw [hanswer]
    rfl
  · apply wp_mono (wp_callStreaming_streamAnswer host provider request runId w)
    · rintro answer _ ⟨items', hitems, hanswer⟩
      cases hstream.symm.trans hitems
      have hwhole : ∀ source, .error source ∉ inner := by
        intro source hsource
        rw [streamAnswer, if_neg (by rw [hbroken ⟨source, hsource⟩]; exact Bool.false_ne_true)]
          at hanswer
        cases hanswer
      obtain ⟨answer', hanswer', hagrees⟩ := halike hwhole host rfl hperm
      cases hanswer.symm.trans hanswer'
      exact ⟨hwhole, hagrees⟩
    · exact fun _ _ _ => trivial

namespace Anthropic

variable {parseJson : String → Option Value} {fromStr : String → Except String AnthropicStreamEvent}

theorem unbroken_mapped (state : StreamState) {events : List (Except ProviderError SseEvent)}
    (h : ∃ e, .error e ∈ events) : unbroken (mapped parseJson fromStr state events) = false := by
  induction events generalizing state with
  | nil =>
    obtain ⟨e, ⟨⟩⟩ := h
  | cons event rest ih =>
    rw [mapped, unbroken_items_append]
    cases event with
    | error e => rfl
    | ok sse =>
      obtain ⟨e, hmem⟩ := h
      rw [ih _ ⟨e, (List.mem_cons.mp hmem).resolve_left (by simp)⟩, Bool.and_false]

/-- An event that the adapter passes over, such as a ping. -/
def passes (fromStr : String → Except String AnthropicStreamEvent) (e : SseEvent) : Bool :=
  match fromStr e.data with
  | .ok .other => true
  | _ => false

theorem mapped_filter_passes (state : StreamState) (sse : List SseEvent) :
    mapped parseJson fromStr state (sse.map .ok) =
      mapped parseJson fromStr state ((sse.filter fun e => !passes fromStr e).map .ok) := by
  induction sse generalizing state with
  | nil => rfl
  | cons e rest ih =>
    by_cases hpasses : passes fromStr e = true
    · rw [List.filter_cons_of_neg (by rw [hpasses]; exact Bool.false_ne_true), List.map_cons,
        mapped, mapAnthropicEvent]
      unfold passes at hpasses
      split at hpasses
      · next hread =>
        simp only [hread]
        exact ih state
      · cases hpasses
    · rw [List.filter_cons_of_pos (by rw [Bool.eq_false_iff.mpr hpasses]; rfl), List.map_cons,
        List.map_cons, mapped, mapped]
      exact congrArg _ (ih _)

theorem answersAlike_of_plain {response : AnthropicResponse} (hempty : parseJson "" = none)
    {s : Sending parseJson response} (hplain : s.Plain) {sse : List SseEvent}
    (h : (sse.map fun e => (fromStr e.data).toOption) = s.readings) (provider : String) :
    AnswersAlike parseJson (stream parseJson fromStr provider (sse.map .ok))
      (fromAnthropicResponse response) := by
  obtain ⟨ending, hstream, -, hread⟩ := stream_eq s h provider
  obtain ⟨u, hu, husage⟩ := (lastRead_iff s).mpr hplain.counted
  obtain rfl := hread u hu
  have hcalls : CallsArrive parseJson s.blocks (emitted parseJson 0 0 s.blocks ++
      [.finished (convertStreamStopReason response.stopReason)
        (u.map fun u => .new u.inputTokens u.outputTokens)]) :=
    (callsArrive_iff parseJson hempty s.faithful (by simp [ChatStreamEvent.ofCall])).mpr
      ⟨hplain.first, hplain.arguments⟩
  have hdelivered : ∀ finished : ChatStreamEvent, delivered [.event finished] = [finished] :=
    fun _ => rfl
  rw [answersAlike_iff, hstream, delivered_append, unbroken_append, hdelivered,
    message_fromAnthropicResponse s.content, messageText_parts, deltaText_finished,
    foldl_finish_finished]
  exact ⟨rfl, rfl, hcalls.1, Prod.ext rfl husage⟩

/-- **However the network cuts the bytes of a streamed response between characters, wherever it
breaks off, and whatever pings are between the events**: an answer that the run loop returns is the
complete answer, and there is none when the network has failed. -/
theorem wp_callStreaming_anthropic {response : AnthropicResponse} {host : Host}
    (hperm : ∀ calls, (host.valuesOrder calls).Perm calls) (hempty : host.parseJson "" = none)
    (s : Sending host.parseJson response) (hplain : s.Plain) {e : Sse.LineEnding}
    {events : List Sse.PlainEvent}
    (hreadings : (((events.map Sse.PlainEvent.toSseEvent).filter fun e => !passes fromStr e).map
      fun e => (fromStr e.data).toOption) = s.readings)
    (hreadable : ∀ event ∈ events, Sse.Readable e event.rendered)
    {inner : List (Except String (List UInt8))} (hinner : Sse.Brings (Sse.written e events) inner)
    {provider : ChatProvider} {request : ChatRequest} {w : World}
    (hstream : provider.stream w request =
      .ok (stream host.parseJson fromStr provider.id (SseStream.new inner provider.id).events))
    (runId : Uuid) :
    ((∀ source, .error source ∉ inner) → (streamAnswer host (stream host.parseJson fromStr
        provider.id (SseStream.new inner provider.id).events)).isSome) ∧
      wp (callStreaming host provider request runId)
        (fun answer _ => (∀ source, .error source ∉ inner) ∧
          answer.Agrees (fromAnthropicResponse response))
        (fun _ _ => True) w := by
  refine wp_callStreaming_brings hperm (fun hbroken => ?_) (fun hwhole => ?_) hstream runId
  · exact unbroken_mapped _ (SseStream.exists_error_of_broken _ hbroken)
  · obtain ⟨chunks, rfl, hcarries⟩ := hinner.resolve_left (not_exists.mpr hwhole)
    rw [Sse.events_of_carries hcarries hreadable, stream, mapped_filter_passes]
    exact answersAlike_of_plain hempty hplain hreadings provider.id

/-- The text `Hi` with a ping, one character a chunk. -/
theorem wp_callStreaming_anthropic_split :
    ∃ provider : ChatProvider, ∀ request w runId,
      wp (callStreaming Host.benign provider request runId)
        (fun answer _ => answer.Agrees
          (fromAnthropicResponse ⟨[.text "Hi" none], some "end_turn", none⟩))
        (fun _ _ => True) w := by
  let table : List (String × AnthropicStreamEvent) :=
    [("a", .messageStart "claude"), ("b", .contentBlockStart 0 (.text "" none)), ("p", .other),
      ("c", .contentBlockDelta 0 (.textDelta "Hi")), ("d", .contentBlockStop 0),
      ("e", .messageDelta (some "end_turn") none), ("f", .messageStop)]
  let fromStr (text : String) : Except String AnthropicStreamEvent :=
    (table.lookup text).elim (.error "expected value") .ok
  let event (c : Char) (h : [c].all (fun c => !Sse.isLineBreak c) = true) : Sse.PlainEvent :=
    .ofLine (.ofChars [c] h)
  let events : List Sse.PlainEvent :=
    [event 'a' rfl, event 'b' rfl, event 'p' rfl, event 'c' rfl, event 'd' rfl, event 'e' rfl,
      event 'f' rfl]
  let sending : Sending Host.benign.parseJson ⟨[.text "Hi" none], some "end_turn", none⟩ :=
    ⟨"claude", none, [.text ["Hi"] none], none, rfl, by simp [SentBlock.Faithful], rfl⟩
  have hplain : sending.Plain := by
    refine ⟨by simp [sending], by simp [sending], ?_⟩
    rintro u ⟨⟩
  let provider : ChatProvider :=
    ⟨"anthropic", ⟨true, none, none⟩, fun _ _ => .error (.timeout ""), fun _ _ =>
      .ok (stream Host.benign.parseJson fromStr "anthropic"
        (SseStream.new (((Sse.written .lf events).map fun c => encode [c]).map .ok)
          "anthropic").events)⟩
  refine ⟨provider, fun request w runId => ?_⟩
  have hreadable : ∀ event ∈ events, Sse.Readable .lf event.rendered := by
    simp only [events, List.forall_mem_cons]
    exact ⟨Sse.PlainEvent.readable_ofLine rfl rfl, Sse.PlainEvent.readable_ofLine rfl rfl, Sse.PlainEvent.readable_ofLine rfl rfl,
      Sse.PlainEvent.readable_ofLine rfl rfl, Sse.PlainEvent.readable_ofLine rfl rfl, Sse.PlainEvent.readable_ofLine rfl rfl,
      Sse.PlainEvent.readable_ofLine rfl rfl, by simp⟩
  have hstream : provider.stream w request = .ok (stream Host.benign.parseJson fromStr provider.id
      (SseStream.new (((Sse.written .lf events).map fun c => encode [c]).map .ok)
        provider.id).events) := rfl
  exact wp_mono (wp_callStreaming_anthropic (fun calls => .refl calls) rfl sending hplain rfl
    hreadable (.inr ⟨_, rfl, Sse.carries_characters _⟩) hstream runId).2
      (fun answer _ h => h.2) fun _ _ _ => trivial

end Anthropic

namespace OpenAi

variable {parseJson : String → Option Value} {fromStr : String → Except String OpenAiStreamChunk}

theorem unbroken_mapped (state : OpenAiStreamState) {events : List (Except ProviderError SseEvent)}
    (h : ∃ e, .error e ∈ events) : unbroken (mapped parseJson fromStr state events) = false := by
  induction events generalizing state with
  | nil =>
    obtain ⟨e, ⟨⟩⟩ := h
  | cons event rest ih =>
    rw [mapped, unbroken_items_append]
    cases event with
    | error e => rfl
    | ok sse =>
      obtain ⟨e, hmem⟩ := h
      rw [ih _ ⟨e, (List.mem_cons.mp hmem).resolve_left (by simp)⟩, Bool.and_false]

theorem answersAlike_of_plain {response : OpenAiChatResponse} {s : Sending response}
    (hplain : s.Plain parseJson) {front done : List SseEvent}
    (h : (front.map fun e => (fromStr e.data).toOption) = s.chunks.map some)
    (hfront : ∀ e ∈ front, e.isOpenAiDone = false) (hdone : ∀ e ∈ done, e.isOpenAiDone = true)
    (provider : String) :
    ∃ whole, fromOpenAiResponse parseJson response = some whole ∧
      AnswersAlike parseJson (stream parseJson fromStr provider ((front ++ done).map .ok)) whole := by
  obtain ⟨events, completed, hstream, htells, htext⟩ :=
    @stream_eq parseJson fromStr response s front done h hfront hdone provider
  obtain ⟨hfew, hcalls⟩ := (calls_iff s provider).mpr ⟨hplain.few, hplain.heard⟩
  refine ⟨_, fromOpenAiResponse_sending parseJson s, ?_⟩
  rw [answersAlike_iff, hstream, delivered_events, unbroken_events, messageText_sending,
    toolCalls_sending]
  have hstarted : startedCalls (.started :: (events ++ (completed.map .toolCallCompleted ++
      [.finished (convertStreamFinish s.reason)
        (s.lastUsage.map fun u => .new u.promptTokens u.completionTokens)]))) =
      startedCalls (convertToolCallDeltas (.new provider) (callDeltas s.body)).1 := by
    have hcompleted :
        (completed.map ChatStreamEvent.toolCallCompleted).filter ChatStreamEvent.tells = [] := by
      rw [List.filter_map, List.map_eq_nil_iff, List.filter_eq_nil_iff]
      exact fun call _ => Bool.false_ne_true
    rw [← startedCalls_filter_tells, ← startedCalls_filter_tells (convertToolCallDeltas _ _).1,
      ← htells, List.filter_cons_of_neg Bool.false_ne_true, List.filter_append, List.filter_append,
      hcompleted, List.nil_append, List.filter_cons_of_neg Bool.false_ne_true, List.filter_nil,
      List.append_nil]
  refine ⟨rfl, ?_, ?_, ?_⟩
  · have hcompleted : deltaText (completed.map .toolCallCompleted) = "" := by
      simp [deltaText, List.filterMap_map, Function.comp_def, ChatStreamEvent.delta]
    have hquiet : deltaText [.finished (convertStreamFinish s.reason)
        (s.lastUsage.map fun u => .new u.promptTokens u.completionTokens)] = "" := rfl
    rw [deltaText_cons, deltaText_append, deltaText_append, hcompleted, hquiet, String.append_empty,
      String.append_empty, htext, (contentText_concat s.body s.last).mpr hplain.text]
    exact String.empty_append
  · rw [hstarted]
    exact ⟨hfew, hcalls⟩
  · rw [List.foldl_cons, List.foldl_append, List.foldl_append, ← convertStreamFinish_eq]
    exact Prod.ext rfl ((lastUsage_iff s).mpr hplain.counted)

/-- **However the network cuts the bytes of a streamed response between characters, and wherever
it breaks off**: an answer that the run loop returns is the complete answer, and there is none when
the network has failed. -/
theorem wp_callStreaming_openAi {response : OpenAiChatResponse} {host : Host}
    (hperm : ∀ calls, (host.valuesOrder calls).Perm calls) (s : Sending response)
    (hplain : s.Plain host.parseJson) {e : Sse.LineEnding} {front done : List Sse.PlainEvent}
    (hchunks : (front.map fun event => (fromStr event.toSseEvent.data).toOption) =
      s.chunks.map some)
    (hfront : ∀ event ∈ front, event.toSseEvent.isOpenAiDone = false)
    (hdone : ∀ event ∈ done, event.toSseEvent.isOpenAiDone = true)
    (hreadable : ∀ event ∈ front ++ done, Sse.Readable e event.rendered)
    {inner : List (Except String (List UInt8))}
    (hinner : Sse.Brings (Sse.written e (front ++ done)) inner)
    {provider : ChatProvider} {request : ChatRequest} {w : World}
    (hstream : provider.stream w request =
      .ok (stream host.parseJson fromStr provider.id (SseStream.new inner provider.id).events))
    (runId : Uuid) :
    ∃ whole, fromOpenAiResponse host.parseJson response = some whole ∧
      ((∀ source, .error source ∉ inner) → (streamAnswer host (stream host.parseJson fromStr
        provider.id (SseStream.new inner provider.id).events)).isSome) ∧
      wp (callStreaming host provider request runId)
        (fun answer _ => (∀ source, .error source ∉ inner) ∧ answer.Agrees whole)
        (fun _ _ => True) w := by
  have hfront' : ∀ e ∈ front.map Sse.PlainEvent.toSseEvent, e.isOpenAiDone = false :=
    List.forall_mem_map.mpr hfront
  have hdone' : ∀ e ∈ done.map Sse.PlainEvent.toSseEvent, e.isOpenAiDone = true :=
    List.forall_mem_map.mpr hdone
  have hread : ((front.map Sse.PlainEvent.toSseEvent).map fun e => (fromStr e.data).toOption) =
      s.chunks.map some := by
    rw [List.map_map]
    exact hchunks
  obtain ⟨whole, hwhole, halike⟩ :=
    answersAlike_of_plain hplain hread hfront' hdone' provider.id
  refine ⟨whole, hwhole,
    wp_callStreaming_brings hperm (fun hbroken => ?_) (fun hunbroken => ?_) hstream runId⟩
  · exact unbroken_mapped _ (SseStream.exists_error_of_broken _ hbroken)
  · obtain ⟨chunks, rfl, hcarries⟩ := hinner.resolve_left (not_exists.mpr hunbroken)
    rw [Sse.events_of_carries hcarries hreadable, List.map_append]
    exact halike

/-- The network breaks off behind the last event: there is no answer. -/
theorem wp_callStreaming_openAi_reset :
    ∃ provider : ChatProvider, ∀ request w runId,
      wp (callStreaming Host.benign provider request runId) (fun _ _ => False)
        (fun _ _ => True) w := by
  let table : List (String × OpenAiStreamChunk) :=
    [("a", ⟨[⟨⟨some "Hi", none⟩, none⟩], none⟩), ("b", ⟨[⟨⟨none, none⟩, some "stop"⟩], none⟩)]
  let fromStr (text : String) : Except String OpenAiStreamChunk :=
    (table.lookup text).elim (.error "expected value") .ok
  let front : List Sse.PlainEvent :=
    [.ofLine (.ofChars ['a'] rfl), .ofLine (.ofChars ['b'] rfl)]
  let done : List Sse.PlainEvent := [.ofLine (.ofChars ['[', 'D', 'O', 'N', 'E', ']'] rfl)]
  let sending := textSending none [⟨some "Hi", none⟩] ⟨none, none⟩ rfl rfl
  have hplain : sending.Plain Host.benign.parseJson := by
    refine ⟨rfl, Nat.zero_le 1, ?_, ?_⟩
    · rintro call ⟨⟩
    · rintro u ⟨⟩
  let inner : List (Except String (List UInt8)) :=
    [.ok (encode (Sse.written .lf (front ++ done))), .error "connection reset"]
  let provider : ChatProvider :=
    ⟨"openai", ⟨true, none, none⟩, fun _ _ => .error (.timeout ""), fun _ _ =>
      .ok (stream Host.benign.parseJson fromStr "openai" (SseStream.new inner "openai").events)⟩
  have hreadable : ∀ event ∈ front ++ done, Sse.Readable .lf event.rendered := by
    simp only [front, done, List.cons_append, List.nil_append, List.forall_mem_cons]
    exact ⟨Sse.PlainEvent.readable_ofLine rfl rfl, Sse.PlainEvent.readable_ofLine rfl rfl,
      Sse.PlainEvent.readable_ofLine rfl rfl, by simp⟩
  have hreset : Except.error "connection reset" ∈ inner := by simp [inner]
  refine ⟨provider, fun request w runId => ?_⟩
  have hstream : provider.stream w request = .ok (stream Host.benign.parseJson fromStr provider.id
      (SseStream.new inner provider.id).events) := rfl
  obtain ⟨whole, -, -, hanswer⟩ := wp_callStreaming_openAi (fun calls => .refl calls) sending hplain
    rfl (by decide) (by decide) hreadable (.inl ⟨_, hreset⟩) hstream runId
  exact wp_mono hanswer (fun answer _ h => h.1 _ hreset) fun _ _ _ => trivial

end OpenAi

end Behest
