import Behest.Runtime.Model

/-!
# Streamed events and the committed message

The text deltas and completed calls that one model call emits, beside the text and the calls
of the message it returns. A complete answer is announced as it is. A stream announces what
it reports, while the message is put together from its deltas; and a stream that breaks is
followed by the complete answer, announced in full.
-/

namespace Behest

open Effect

/-- What the runtime emits for an event of a stream. -/
def ChatStreamEvent.emits (runId : Uuid) : ChatStreamEvent → List Action
  | .textDelta delta => [.emitted (.textDelta runId delta)]
  | .toolCallStarted id name => [.emitted (.toolCallStarted runId id name)]
  | .toolCallArgumentsDelta id delta => [.emitted (.toolCallDelta runId id delta)]
  | .toolCallCompleted call => [.emitted (.toolCallCompleted runId call)]
  | .started | .finished _ _ => []

/-- What the accumulator makes of an event of a stream. -/
def StreamAccumulator.take (acc : StreamAccumulator) : ChatStreamEvent → StreamAccumulator
  | .textDelta delta => acc.appendText delta
  | .toolCallStarted id name => acc.startToolCall id name
  | .toolCallArgumentsDelta id delta => acc.appendToolArguments id delta
  | .started | .toolCallCompleted _ | .finished _ _ => acc

/-- The events a stream delivers before it breaks or ends. -/
def delivered : List StreamItem → List ChatStreamEvent
  | .event e :: rest => e :: delivered rest
  | _ => []

/-- The stream is read to its end. -/
def unbroken : List StreamItem → Bool
  | [] => true
  | .event _ :: rest => unbroken rest
  | .failed _ :: _ | .idle :: _ => false

def ChatStreamEvent.delta : ChatStreamEvent → Option String
  | .textDelta delta => some delta
  | _ => none

def ChatStreamEvent.completion : ChatStreamEvent → Option ToolCall
  | .toolCallCompleted call => some call
  | _ => none

/-- The text of some events of a stream. -/
def deltaText (events : List ChatStreamEvent) : String :=
  String.join (events.filterMap ChatStreamEvent.delta)

/-- The calls that some events of a stream report as completed. -/
def reportedCalls (events : List ChatStreamEvent) : List ToolCall :=
  events.filterMap ChatStreamEvent.completion

/-- A call with the identifier is started among the events. -/
def starts (id : String) (events : List ChatStreamEvent) : Bool :=
  events.any fun
    | .toolCallStarted id' _ => id' == id
    | _ => false

/-- The argument deltas for the identifier, joined. -/
def argumentsText (id : String) : List ChatStreamEvent → String
  | [] => ""
  | .toolCallArgumentsDelta id' delta :: rest =>
      if id' = id then delta ++ argumentsText id rest else argumentsText id rest
  | _ :: rest => argumentsText id rest

/-- The calls started and not started over, each with the argument deltas that follow. -/
def startedCalls : List ChatStreamEvent → List ToolCallAccumulator
  | [] => []
  | .toolCallStarted id name :: rest =>
      if starts id rest then startedCalls rest
      else ⟨id, name, argumentsText id rest⟩ :: startedCalls rest
  | _ :: rest => startedCalls rest

/-- The calls that the deltas among some events describe, in the order of the host's map. -/
def describedCalls (host : Host) (events : List ChatStreamEvent) : List ToolCall :=
  (host.valuesOrder (startedCalls events)).map fun c =>
    ⟨c.id, c.name, (host.parseJson c.arguments).getD .null⟩

def Action.delta : Action → Option String
  | .emitted (.textDelta _ delta) => some delta
  | _ => none

def Action.completion : Action → Option ToolCall
  | .emitted (.toolCallCompleted _ call) => some call
  | _ => none

/-- The text of the deltas emitted. -/
def emittedText (as : List Action) : String := String.join (as.filterMap Action.delta)

/-- The calls emitted as completed. -/
def emittedCalls (as : List Action) : List ToolCall := as.filterMap Action.completion

/-- The text of a message; only assistant messages have one. -/
def messageText (message : Message) : String :=
  (AgentRuntime.extractAssistantText message).getD ""

/-- The deltas emitted are the text of the message, and the calls emitted are its calls. -/
def Announces (as : List Action) (message : Message) : Prop :=
  emittedText as = messageText message ∧ emittedCalls as = message.toolCalls

/-- The provider does not stream; or its stream is read to its end and reports the calls that
its deltas describe, in the order of the host's map; or it breaks before any text and any
completed call. -/
def Consistent (host : Host) (provider : ChatProvider) (request : ChatRequest) (w : World) : Prop :=
  provider.capabilities.chatStream = true → ∀ items, provider.stream w request = .ok items →
    if unbroken items then
      reportedCalls (delivered items) = describedCalls host (delivered items)
    else deltaText (delivered items) = "" ∧ reportedCalls (delivered items) = []

/-! ### What is emitted -/

theorem emittedText_append (as bs : List Action) :
    emittedText (as ++ bs) = emittedText as ++ emittedText bs := by
  simp [emittedText, List.filterMap_append]

theorem emittedCalls_append (as bs : List Action) :
    emittedCalls (as ++ bs) = emittedCalls as ++ emittedCalls bs := by
  simp [emittedCalls, List.filterMap_append]

theorem deltaText_cons (e : ChatStreamEvent) (rest : List ChatStreamEvent) :
    deltaText (e :: rest) = e.delta.getD "" ++ deltaText rest := by
  unfold deltaText
  rw [List.filterMap_cons]
  cases e.delta <;> simp

theorem reportedCalls_cons (e : ChatStreamEvent) (rest : List ChatStreamEvent) :
    reportedCalls (e :: rest) = e.completion.toList ++ reportedCalls rest := by
  unfold reportedCalls
  rw [List.filterMap_cons]
  cases e.completion <;> simp

theorem emittedText_emits (runId : Uuid) (events : List ChatStreamEvent) :
    emittedText (events.flatMap (ChatStreamEvent.emits runId)) = deltaText events := by
  induction events with
  | nil => rfl
  | cons e rest ih =>
    rw [List.flatMap_cons, emittedText_append, ih, deltaText_cons]
    congr 1
    cases e <;> simp [emittedText, ChatStreamEvent.emits, List.filterMap_cons, Action.delta,
      ChatStreamEvent.delta]

theorem emittedCalls_emits (runId : Uuid) (events : List ChatStreamEvent) :
    emittedCalls (events.flatMap (ChatStreamEvent.emits runId)) = reportedCalls events := by
  induction events with
  | nil => rfl
  | cons e rest ih =>
    rw [List.flatMap_cons, emittedCalls_append, ih, reportedCalls_cons]
    congr 1
    cases e <;> simp [emittedCalls, ChatStreamEvent.emits, List.filterMap_cons, Action.completion,
      ChatStreamEvent.completion]

/-- The accumulator collects the text of the deltas. -/
theorem text_foldl_take (events : List ChatStreamEvent) (acc : StreamAccumulator) :
    (events.foldl StreamAccumulator.take acc).text = acc.text ++ deltaText events := by
  induction events generalizing acc with
  | nil => simp [deltaText]
  | cons e rest ih =>
    rw [List.foldl_cons, ih, deltaText_cons, ← String.append_assoc]
    congr 1
    cases e <;> simp [StreamAccumulator.take, StreamAccumulator.appendText,
      StreamAccumulator.startToolCall, StreamAccumulator.appendToolArguments,
      ChatStreamEvent.delta]

/-- The accumulator holds the calls it held that are not started over, with the argument deltas
for them, and the calls started among the events. -/
theorem calls_foldl_take (events : List ChatStreamEvent) (acc : StreamAccumulator) :
    (events.foldl StreamAccumulator.take acc).calls =
      (acc.calls.filter fun c => !starts c.id events).map (fun c =>
        { c with arguments := c.arguments ++ argumentsText c.id events }) ++
        startedCalls events := by
  induction events generalizing acc with
  | nil => simp [starts, argumentsText, startedCalls]
  | cons e rest ih =>
    rw [List.foldl_cons, ih]
    cases e with
    | toolCallStarted id name =>
      have hkept : ∀ c : ToolCallAccumulator, (!starts c.id (.toolCallStarted id name :: rest)) =
          (!starts c.id rest && (c.id != id)) := by
        intro c
        by_cases h : id = c.id
        · simp [starts, h]
        · simp [starts, beq_false_of_ne h, bne_iff_ne.mpr (Ne.symm h)]
      simp only [StreamAccumulator.take, StreamAccumulator.startToolCall, List.filter_append,
        List.filter_filter, List.map_append, List.append_assoc, hkept]
      congr 1
      by_cases h : starts id rest = true
      · simp [startedCalls, h]
      · simp [startedCalls, h]
    | toolCallArgumentsDelta id delta =>
      simp only [StreamAccumulator.take, StreamAccumulator.appendToolArguments, List.filter_map,
        List.map_map]
      congr 1
      have hid : ∀ c : ToolCallAccumulator,
          (if c.id == id then { c with arguments := c.arguments ++ delta } else c).id = c.id := by
        intro c
        split <;> rfl
      simp only [Function.comp_def, hid]
      apply List.map_congr_left
      intro c _
      by_cases h : id = c.id
      · simp [argumentsText, h, String.append_assoc]
      · simp [argumentsText, h, Ne.symm h]
    | _ => rfl

/-- The calls of the message are the ones the deltas describe. -/
theorem toolCalls_foldl_take (host : Host) (events : List ChatStreamEvent) :
    (events.foldl StreamAccumulator.take {}).toolCalls host = describedCalls host events := by
  unfold StreamAccumulator.toolCalls describedCalls
  rw [calls_foldl_take]
  rfl

theorem messageText_toMessage (host : Host) (acc : StreamAccumulator) :
    messageText (acc.toMessage host) = acc.text := by
  unfold StreamAccumulator.toMessage messageText AgentRuntime.extractAssistantText
  by_cases h : acc.text.isEmpty = true
  · simp [String.isEmpty_iff.mp h]
  · simp [h, ContentPart.ofText]

/-! ### What a model call emits -/

namespace AgentRuntime

section Rules

variable {host : Host} {provider : ChatProvider} {request : ChatRequest} {runId : Uuid} {w : World}
variable {E : Stop → World → Prop} [Tolerant E] {Q : ModelAnswer → World → Prop}

/-- Reading a stream emits what its events emit, up to where it ends or breaks. -/
theorem wp_consumeStream (items : List StreamItem) (acc : StreamAccumulator)
    (finish : FinishReason) (usage : Option TokenUsage) (w : World)
    (hok : unbroken items = true → ∀ finish usage w',
      w'.trace = w.trace ++ (delivered items).flatMap (ChatStreamEvent.emits runId) →
      Q ⟨((delivered items).foldl StreamAccumulator.take acc).toMessage host, finish, usage⟩ w')
    (hfail : unbroken items = false → ∀ e w',
      w'.trace = w.trace ++ (delivered items).flatMap (ChatStreamEvent.emits runId) →
      E (.failed e) w') :
    wp (consumeStream host provider runId acc finish usage items) Q E w := by
  induction items generalizing acc finish usage w with
  | nil => exact hok rfl finish usage w (by simp [delivered])
  | cons item rest ih =>
    cases item with
    | idle => exact hfail rfl _ w (by simp [delivered])
    | failed e => exact hfail rfl _ w (by simp [delivered])
    | event e =>
      have hrest : ∀ finish usage w', w'.trace = w.trace ++ e.emits runId →
          wp (consumeStream host provider runId (acc.take e) finish usage rest) Q E w' := by
        intro finish usage w' htrace
        apply ih
        · intro hread finish usage w'' htrace'
          apply hok hread finish usage w''
          rw [htrace', htrace, delivered, List.flatMap_cons, List.append_assoc]
        · intro hread e' w'' htrace'
          apply hfail hread e' w''
          rw [htrace', htrace, delivered, List.flatMap_cons, List.append_assoc]
      cases e with
      | started => exact hrest finish usage w (List.append_nil _).symm
      | finished finish usage => exact hrest finish usage w (List.append_nil _).symm
      | textDelta delta => exact (wp_bind _).mpr (wp_perform (hrest finish usage _ rfl))
      | toolCallStarted id name => exact (wp_bind _).mpr (wp_perform (hrest finish usage _ rfl))
      | toolCallArgumentsDelta id delta =>
        exact (wp_bind _).mpr (wp_perform (hrest finish usage _ rfl))
      | toolCallCompleted call => exact (wp_bind _).mpr (wp_perform (hrest finish usage _ rfl))

/-- A streamed call asks once and reads what it is given; a call that fails has emitted
nothing or has met a stream that breaks. -/
theorem wp_callStreaming
    (hok : ∀ items, provider.stream w request = .ok items → unbroken items = true →
      ∀ finish usage w',
      w'.trace = w.trace ++ .requested provider.id true request ::
        (delivered items).flatMap (ChatStreamEvent.emits runId) →
      Q ⟨((delivered items).foldl StreamAccumulator.take {}).toMessage host, finish, usage⟩ w')
    (helapsed : ∀ w', E (.failed (.provider (.timeout provider.id))) w')
    (hrefused : ∀ e w', provider.stream w request = .error e →
      w'.trace = w.trace ++ [.requested provider.id true request] → E (.failed (.provider e)) w')
    (hbroken : ∀ items, provider.stream w request = .ok items → unbroken items = false →
      ∀ e w', w'.trace = w.trace ++ .requested provider.id true request ::
        (delivered items).flatMap (ChatStreamEvent.emits runId) → E (.failed e) w') :
    wp (callStreaming host provider request runId) Q E w := by
  unfold callStreaming
  simp only [wp_bind, wp_get]
  apply wp_stream_crash
  constructor
  · exact Tolerant.crashed _
  split
  · exact helapsed _
  · cases hreply : provider.stream w request with
    | error e => exact hrefused e _ hreply rfl
    | ok items =>
      apply wp_consumeStream
      · intro hread finish usage w' htrace
        apply hok items hreply hread finish usage w'
        rw [htrace, World.apply_trace, List.append_assoc, List.singleton_append]
      · intro hread e w' htrace
        apply hbroken items hreply hread e w'
        rw [htrace, World.apply_trace, List.append_assoc, List.singleton_append]

/-- What announces a message in full. -/
def announcements (runId : Uuid) (message : Message) : List Action :=
  (extractAssistantText message).toList.map (fun text => .emitted (.textDelta runId text)) ++
    message.toolCalls.map fun call => .emitted (.toolCallCompleted runId call)

theorem wp_announce {message : Message} {Q : Unit → World → Prop}
    (h : ∀ w', w'.trace = w.trace ++ announcements runId message → Q () w') :
    wp (announce host runId message) Q E w := by
  have hcalls : ∀ w₁ : World, (∀ w', w'.trace = w₁.trace ++
      message.toolCalls.map (fun call => .emitted (.toolCallCompleted runId call)) → Q () w') →
      wp (message.toolCalls.forM fun call => host.emit (.toolCallCompleted runId call)) Q E w₁ := by
    intro w₁ hq
    generalize message.toolCalls = calls at hq ⊢
    induction calls generalizing w₁ with
    | nil => exact hq w₁ (List.append_nil _).symm
    | cons call rest ih =>
      apply (wp_bind (x := host.emit (.toolCallCompleted runId call)) _).mpr
      apply wp_perform
      apply ih
      intro w' htrace
      apply hq
      rw [htrace, World.apply_trace, List.append_assoc, List.map_cons, List.singleton_append]
  unfold announce
  cases htext : extractAssistantText message with
  | none =>
    apply hcalls
    intro w' htrace
    apply h
    simpa [announcements, htext] using htrace
  | some text =>
    apply (wp_bind _).mpr
    apply wp_perform
    apply hcalls
    intro w' htrace
    apply h
    simpa [announcements, htext] using htrace

theorem wp_callComplete
    (h : ∀ response w', provider.complete w request = .ok response →
      w'.trace = w.trace ++ .requested provider.id false request ::
        announcements runId response.message →
      Q ⟨response.message, response.finishReason, response.usage⟩ w')
    (hfail : ∀ e w', E (.failed e) w') :
    wp (callComplete host provider request runId) Q E w := by
  unfold callComplete
  simp only [wp_bind, wp_get]
  apply wp_complete
  split
  · exact hfail _ _
  · cases hreply : provider.complete w request with
    | error e => exact hfail _ _
    | ok response =>
      apply (wp_bind _).mpr
      apply wp_announce
      intro w' htrace
      apply h response w' hreply
      rw [htrace, World.apply_trace, List.append_assoc, List.singleton_append]

end Rules

theorem emittedText_announcements (runId : Uuid) (message : Message) :
    emittedText (announcements runId message) = messageText message := by
  have hcalls : emittedText (message.toolCalls.map fun call =>
      .emitted (.toolCallCompleted runId call)) = "" := by
    simp [emittedText, List.filterMap_map, Function.comp_def, Action.delta]
  unfold announcements messageText
  rw [emittedText_append, hcalls, String.append_empty]
  cases extractAssistantText message <;> simp [emittedText, Action.delta]

theorem emittedCalls_announcements (runId : Uuid) (message : Message) :
    emittedCalls (announcements runId message) = message.toolCalls := by
  have hcalls : emittedCalls (message.toolCalls.map fun call =>
      .emitted (.toolCallCompleted runId call)) = message.toolCalls := by
    simp [emittedCalls, List.filterMap_map, Function.comp_def, Action.completion]
  unfold announcements
  rw [emittedCalls_append, hcalls]
  cases extractAssistantText message <;> simp [emittedCalls, Action.completion]

/-- A complete answer is announced as it is. -/
theorem announces_announcements (runId : Uuid) (provider : String) (request : ChatRequest)
    (message : Message) :
    Announces (.requested provider false request :: announcements runId message) message :=
  ⟨emittedText_announcements runId message, emittedCalls_announcements runId message⟩

/-- A stream that is read to its end is announced when it reports the calls it puts together. -/
theorem announces_stream_iff (host : Host) (runId : Uuid) (provider : String)
    (request : ChatRequest) (events : List ChatStreamEvent) :
    Announces (.requested provider true request ::
        events.flatMap (ChatStreamEvent.emits runId))
      ((events.foldl StreamAccumulator.take {}).toMessage host) ↔
      reportedCalls events = describedCalls host events := by
  have htext : emittedText (.requested provider true request ::
      events.flatMap (ChatStreamEvent.emits runId)) = deltaText events :=
    emittedText_emits runId events
  have hcalls : emittedCalls (.requested provider true request ::
      events.flatMap (ChatStreamEvent.emits runId)) = reportedCalls events :=
    emittedCalls_emits runId events
  unfold Announces
  rw [htext, hcalls, messageText_toMessage, text_foldl_take]
  simp [StreamAccumulator.toMessage, Message.toolCalls, toolCalls_foldl_take]

/-- After a stream that broke, the message is announced in full; it is announced once when the
stream had announced nothing. -/
theorem announces_fallback_iff (runId : Uuid) (provider : String) (request : ChatRequest)
    (events : List ChatStreamEvent) (message : Message) :
    Announces ((.requested provider true request ::
        events.flatMap (ChatStreamEvent.emits runId)) ++
        .requested provider false request :: announcements runId message) message ↔
      deltaText events = "" ∧ reportedCalls events = [] := by
  obtain ⟨htext, hcalls⟩ := announces_announcements runId provider request message
  have hbefore : emittedText (.requested provider true request ::
      events.flatMap (ChatStreamEvent.emits runId)) = deltaText events :=
    emittedText_emits runId events
  have hreported : emittedCalls (.requested provider true request ::
      events.flatMap (ChatStreamEvent.emits runId)) = reportedCalls events :=
    emittedCalls_emits runId events
  unfold Announces
  rw [emittedText_append, emittedCalls_append, htext, hcalls, hbefore, hreported]
  simp

/-- A streamed call that returns is announced when it is consistent; one that fails has timed
out or leaves behind what its stream delivered. -/
theorem wp_callStreaming_announces (host : Host) (provider : ChatProvider) (request : ChatRequest)
    (runId : Uuid) (w : World) (hstreams : provider.capabilities.chatStream = true) :
    wp (callStreaming host provider request runId)
      (fun answer w' => ∃ as, w'.trace = w.trace ++ as ∧
        (Announces as answer.message ↔ Consistent host provider request w))
      (Fails fun e w' => (∃ id, e = .provider (.timeout id)) ∨
        ∃ events, w'.trace = w.trace ++ .requested provider.id true request ::
            events.flatMap (ChatStreamEvent.emits runId) ∧
          (Consistent host provider request w ↔
            deltaText events = "" ∧ reportedCalls events = [])) w := by
  apply wp_callStreaming
  · intro items hitems hread finish usage w' htrace
    refine ⟨_, htrace, ?_⟩
    rw [announces_stream_iff]
    simp [Consistent, hstreams, hitems, hread]
  · exact fun _ => .inl ⟨_, rfl⟩
  · intro e w' hrefused htrace
    refine .inr ⟨[], htrace, ?_⟩
    simp [Consistent, hrefused, deltaText, reportedCalls]
  · intro items hitems hread e w' htrace
    refine .inr ⟨_, htrace, ?_⟩
    simp [Consistent, hstreams, hitems, hread]

/-- **The text deltas emitted for a model call are the text of the message it returns, and the
completed calls are its calls, exactly when the provider's stream is consistent**. -/
theorem callModel_announces_iff (host : Host) (provider : ChatProvider) (request : ChatRequest)
    (runId : Uuid) (w w' : World) (answer : ModelAnswer) (as : List Action)
    (hrun : callModel host provider request runId w = .ok answer w')
    (htrace : w'.trace = w.trace ++ as) :
    Announces as answer.message ↔ Consistent host provider request w := by
  have hcall : wp (callModel host provider request runId) (fun answer w' =>
      ∃ as, w'.trace = w.trace ++ as ∧
        (Announces as answer.message ↔ Consistent host provider request w))
      (Fails fun _ _ => True) w := by
    unfold callModel
    by_cases hstreams : provider.capabilities.chatStream = true
    · rw [if_pos hstreams, wp_bind]
      apply wp_caught
      apply wp_mono (wp_callStreaming_announces host provider request runId w hstreams)
      · exact fun _ _ h => h
      · intro e w₁ hfailed
        cases e with
        | failed e =>
          rcases hfailed with ⟨id, rfl⟩ | ⟨events, htrace₁, hconsistent⟩
          · trivial
          · have hcomplete : wp (callComplete host provider request runId) (fun answer w' =>
                ∃ as, w'.trace = w.trace ++ as ∧
                  (Announces as answer.message ↔ Consistent host provider request w))
                (Fails fun _ _ => True) w₁ := by
              apply wp_callComplete
              · intro response w' _ htrace'
                refine ⟨_, by rw [htrace', htrace₁, List.append_assoc], ?_⟩
                rw [announces_fallback_iff, hconsistent]
              · exact fun _ _ => trivial
            dsimp only
            split
            · next heq => cases heq
            · trivial
            · exact hcomplete
        | _ => trivial
    · rw [if_neg hstreams]
      apply wp_callComplete
      · intro response w' _ htrace
        refine ⟨_, htrace, ?_⟩
        simp [Consistent, hstreams, announces_announcements]
      · exact fun _ _ => trivial
  obtain ⟨as', htrace', hiff⟩ := wp_ok hcall hrun
  obtain rfl : as' = as := List.append_cancel_left (htrace'.symm.trans htrace)
  exact hiff

/-- A provider that streams the given items and answers in full with the given message. -/
def scripted (items : List StreamItem) (message : Message) : ChatProvider where
  id := "p"
  capabilities := ⟨true, none, none⟩
  complete _ _ := .ok ⟨message, .stop, none⟩
  stream _ _ := .ok items

/-- The stream delivers the beginning of the text and breaks. -/
def cutShort : ChatProvider :=
  scripted [.event .started, .event (.textDelta "Hel"), .failed (.transport "p" "reset")]
    (.assistantText "Hello")

/-- The beginning of the text is emitted twice. -/
theorem cutShort_repeats :
    ∃ answer w', callModel .benign cutShort ⟨"m", [.userText "Hi"], [], .auto⟩ 1 (.ofSession 7 []) =
        .ok answer w' ∧ emittedText w'.trace = "HelHello" ∧ messageText answer.message = "Hello" ∧
      ¬ Announces w'.trace answer.message := by
  have hcheck : okAnd (fun answer w' => emittedText w'.trace == "HelHello" &&
      messageText answer.message == "Hello") (callModel .benign cutShort
        ⟨"m", [.userText "Hi"], [], .auto⟩ 1 (.ofSession 7 [])) = true := by decide +kernel
  obtain ⟨answer, w', hrun, hpassed⟩ := exists_of_okAnd hcheck
  simp only [Bool.and_eq_true, beq_iff_eq] at hpassed
  refine ⟨answer, w', hrun, hpassed.1, hpassed.2, ?_⟩
  intro hannounces
  rw [Announces, hpassed.1, hpassed.2] at hannounces
  exact absurd hannounces.1 (by decide)

/-- A stream with a text and a call that is put together from deltas. -/
def callingEcho : List StreamItem :=
  [.event .started, .event (.textDelta "Let me"), .event (.textDelta " see."),
    .event (.toolCallStarted "a" "echo"), .event (.toolCallCompleted ⟨"a", "echo", .null⟩),
    .event (.finished .toolCalls none)]

/-- A stream that is read to its end and reports its call is announced as it is. -/
theorem callingEcho_announced :
    ∃ answer w', callModel .benign (scripted callingEcho (.assistantText ""))
        ⟨"m", [.userText "Hi"], [], .auto⟩ 1 (.ofSession 7 []) = .ok answer w' ∧
      answer.message.toolCalls.length = 1 ∧ Announces w'.trace answer.message := by
  have hcheck : okAnd (fun answer _ => answer.message.toolCalls.length == 1) (callModel .benign
      (scripted callingEcho (.assistantText "")) ⟨"m", [.userText "Hi"], [], .auto⟩ 1
        (.ofSession 7 [])) = true := by decide +kernel
  obtain ⟨answer, w', hrun, hlength⟩ := exists_of_okAnd hcheck
  refine ⟨answer, w', hrun, by simpa using hlength, ?_⟩
  apply (callModel_announces_iff _ _ _ _ _ _ answer w'.trace hrun rfl).mpr
  intro _ items hitems
  obtain rfl : callingEcho = items := Except.ok.inj hitems
  rfl

end AgentRuntime

end Behest
