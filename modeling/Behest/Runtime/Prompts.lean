import Behest.Adapter.OpenAiRequest
import Behest.Context.Limits
import Behest.Runtime.Copies
import Behest.Runtime.Unanswered

/-!
# The prompts of a run

A provider that caches the front of a prompt is served by requests that only grow. Between two
model calls of a run, the history grows by what the run stores; a request is built of the history,
so the later request is the earlier one, followed by the messages that were stored in between.
-/

namespace Behest

open Effect Context

/-- The record that an action adds to a session. -/
def Action.added (sessionId : Uuid) : Action → Option MessageRecord
  | session (.appendMessage record) none =>
      if record.sessionId = sessionId then some record else none
  | _ => none

/-- The records that some actions add to a session, in their order. -/
def storedIn (sessionId : Uuid) (as : List Action) : List MessageRecord :=
  as.filterMap (Action.added sessionId)

@[simp] theorem storedIn_nil (sessionId : Uuid) : storedIn sessionId [] = [] := rfl

theorem storedIn_snoc (sessionId : Uuid) (as : List Action) (a : Action) :
    storedIn sessionId (as ++ [a]) = storedIn sessionId as ++ (a.added sessionId).toList := by
  unfold storedIn
  rw [List.filterMap_append]
  cases h : a.added sessionId <;> simp [h]

theorem added_of_not_touches {sessionId : Uuid} {a : Action} (h : ¬ a.touchesMessages) :
    a.added sessionId = none := by
  cases a with
  | session op fault => cases op <;> cases fault <;> first | rfl | exact absurd rfl h
  | _ => rfl

/-- An action that writes neither a marker nor a summary adds an ordinary record. -/
theorem isOrdinary_of_added {sessionId : Uuid} {a : Action} {r : MessageRecord}
    (h : a.added sessionId = some r) (ha : a.compacts = false) : r.isOrdinary = true := by
  unfold Action.added at h
  split at h
  · split at h
    · cases h
      simpa [Action.compacts] using ha
    · cases h
  · cases h

theorem isOrdinary_of_storedIn {sessionId : Uuid} {as : List Action}
    (has : ∀ a ∈ as, a.compacts = false) : ∀ r ∈ storedIn sessionId as, r.isOrdinary = true := by
  intro r hr
  obtain ⟨a, ha, hadded⟩ := List.mem_filterMap.mp hr
  exact isOrdinary_of_added hadded (has a ha)

namespace Setting

variable {S : Setting} {as : List Action} {w w' : World} {st st' : Stage} {a : Action}

/-- A step adds to the session what its action says. -/
theorem Step.grows (h : S.Step w st a st') :
    (w.apply a).messages S.sessionId =
      w.messages S.sessionId ++ (a.added S.sessionId).toList := by
  have hstored : ∀ {r : MessageRecord}, r.sessionId = S.sessionId →
      w.sessionRefusal (.appendMessage r) = none → a = .session (.appendMessage r) none →
      (w.apply a).messages S.sessionId =
        w.messages S.sessionId ++ (a.added S.sessionId).toList := by
    rintro r hid hstored rfl
    rw [World.messages_append hid hstored, Action.added, if_pos hid]
    rfl
  have hquiet : ¬ a.touchesMessages → (w.apply a).messages S.sessionId =
      w.messages S.sessionId ++ (a.added S.sessionId).toList := by
    intro ha
    rw [World.messages_apply _ _ _ ha, added_of_not_touches ha]
    simp
  cases h with
  | quiet _ h => exact hquiet h.not_touches
  | fault _ h => exact hquiet (not_touches_of_isFault h)
  | greet h | commit h | recover h | store h =>
    obtain ⟨id, createdAt, ha, haccepted⟩ := h
    refine hstored ?_ haccepted ha
    unfold messageToRecord
    split <;> rfl
  | compactionWrite h haccepted => exact hstored h.session haccepted rfl
  | _ => exact hquiet nofun

/-- The run lemma: a session grows by what the actions of the run add to it. -/
theorem messages_of_trail (h : Trail World.apply S.Step w st as w' st') :
    w'.messages S.sessionId = w.messages S.sessionId ++ storedIn S.sessionId as := by
  apply h.invariant (fun as t _ => t.messages S.sessionId =
    w.messages S.sessionId ++ storedIn S.sessionId as)
  · simp
  · intro bs t q a q' ih hstep
    rw [hstep.grows, ih, storedIn_snoc, List.append_assoc]

/-! ### The request that has been built -/

/-- A request that waits for the model is made of the history as it is. -/
def Ready (S : Setting) (w : World) (st : Stage) : Prop :=
  ∀ iteration request, st.phase = .built iteration request →
    S.Assembled w (if iteration = 1 then some S.request.input else none) request

/-- What does not touch the messages keeps the request up to date. -/
theorem Ready.keep (h : S.Ready w st) (ha : ¬ a.touchesMessages)
    (hphase : ∀ iteration request, st'.phase = .built iteration request →
      st.phase = .built iteration request) : S.Ready (w.apply a) st' := by
  intro iteration request hp
  unfold Assembled
  rw [World.messages_apply _ _ _ ha]
  exact h iteration request (hphase iteration request hp)

theorem Ready.step (h : S.Ready w st) (hstep : S.Step w st a st') : S.Ready (w.apply a) st' := by
  cases hstep with
  | quiet live hquiet => exact h.keep hquiet.not_touches fun _ _ hp => hp
  | @fault p d a live hfault =>
    apply h.keep (not_touches_of_isFault hfault)
    cases p <;> exact nofun
  | cleanup fault ended => exact h.keep nofun fun _ _ hp => hp
  | @compactionFailed p d kind e hp =>
    intro iteration request hbuilt
    unfold Phase.afterFailure at hbuilt
    split at hbuilt <;> cases hbuilt
  | @contextBuilt d iteration request hassembled =>
    rintro _ _ ⟨⟩
    have ha : ¬ (Action.contextBuilt (.ok request)).touchesMessages := nofun
    unfold Assembled
    rw [World.messages_apply _ _ _ ha]
    exact hassembled
  | modelOverflowed hover =>
    intro iteration request hbuilt
    split at hbuilt <;> cases hbuilt
  | toolsAnswered | store =>
    intro iteration request hbuilt
    exact absurd hbuilt (Phase.storing_ne_built _ _ _)
  | _ => exact nofun

theorem ready_of_trail (h : Trail World.apply S.Step w S.opened as w' st) : S.Ready w' st :=
  h.invariant (fun _ t q => S.Ready t q) nofun fun _ _ _ _ _ ih hstep => ih.step hstep

end Setting

namespace Context.ContextPipeline

variable {pipeline : ContextPipeline} {records more : List MessageRecord}

theorem filtered_append (hordinary : ∀ r ∈ more, r.isOrdinary = true) :
    pipeline.filtered (records ++ more) = pipeline.filtered records ++ more := by
  unfold filtered
  split
  · exact applyCompactionFilter_append_ordinary Uuid.nil records more hordinary
  · rfl

theorem history_eq_filtered (h : estimateRecordsTokens (pipeline.filtered records) ≤
    pipeline.maxHistoryTokens) : pipeline.history Uuid.nil records = pipeline.filtered records :=
  trimByTokens_of_le h

/-- What is composed of a longer history starts with what is composed of the history, as long as
nothing is trimmed. -/
theorem composed_append (hordinary : ∀ r ∈ more, r.isOrdinary = true)
    (hbudget : estimateRecordsTokens (pipeline.filtered (records ++ more)) ≤
      pipeline.maxHistoryTokens) (fragments : List Message) :
    pipeline.composed fragments (records ++ more) none =
      pipeline.composed fragments records none ++ more.map recordToMessage := by
  have hbefore : estimateRecordsTokens (pipeline.filtered records) ≤
      pipeline.maxHistoryTokens := by
    rw [filtered_append hordinary, estimateRecordsTokens_append] at hbudget
    omega
  unfold composed
  rw [history_eq_filtered hbudget, history_eq_filtered hbefore, filtered_append hordinary]
  simp

theorem composed_some (fragments : List Message) (records : List MessageRecord) (text : String) :
    pipeline.composed fragments records (some text) =
      pipeline.composed fragments records none ++ [.userText text] := by
  simp [composed]

end Context.ContextPipeline

/-- What a request of the iteration has after the history. -/
def RunRequest.inputIn (request : RunRequest) (iteration : Nat) : List Message :=
  if iteration = 1 then [.userText request.input] else []

namespace Setting

variable {S : Setting} {w w' : World} {st : Stage} {iteration : Nat} {request : ChatRequest}

/-- A request that waits for the model is the composed history and the input of its iteration, up
to markers. -/
theorem Ready.messages (h : S.Ready w st) (hadapters : S.rt.context.adapters = [])
    (hbuilt : st.phase = .built iteration request) :
    List.Forall₂ Message.MarkedAs
      (S.rt.context.composed [] (w.messages S.sessionId) none ++ S.request.inputIn iteration)
      request.messages := by
  obtain ⟨id, fragments, tools, hfragments, rfl⟩ := h iteration request hbuilt
  obtain rfl := hfragments hadapters
  have hcomposed : S.rt.context.composed [] (w.messages S.sessionId) none ++
      S.request.inputIn iteration = S.rt.context.composed [] (w.messages S.sessionId)
        (if iteration = 1 then some S.request.input else none) := by
    unfold RunRequest.inputIn
    split
    · exact (ContextPipeline.composed_some _ _ _).symm
    · exact List.append_nil _
  rw [hcomposed]
  exact S.rt.context.markedAs_assemble ..

end Setting

/-! ### Two calls of a run -/

/-- The requests of two model calls of a run are made of the history at the first of them, and of
this history with what the run has stored since. -/
theorem markedAs_of_calls {host : Host} {rt : AgentRuntime} {fuel : Nat} {request : RunRequest}
    {w w' : World} {record : RunRecord} {before calls between rest : List Action}
    {iteration later : Nat} {chatRequest laterRequest : ChatRequest}
    {answer laterAnswer : Except RuntimeError ModelAnswer} {history : List MessageRecord}
    (hadapters : rt.context.adapters = []) (hends : Ends (rt.run host fuel request) w w')
    (htrace : w'.trace = w.trace ++ before ++ .run (.createRun record) none ::
      (calls ++ .modelAnswered iteration chatRequest answer ::
        (between ++ .modelAnswered later laterRequest laterAnswer :: rest)))
    (hhistory : (w.after (before ++ .run (.createRun record) none :: calls)).messages
      record.sessionId = history) :
    List.Forall₂ Message.MarkedAs
        (rt.context.composed [] history none ++ request.inputIn iteration) chatRequest.messages ∧
      List.Forall₂ Message.MarkedAs
        (rt.context.composed [] (history ++ storedIn record.sessionId between) none ++
          request.inputIn later) laterRequest.messages := by
  rcases Setting.follows_of_run hends with hr | ⟨runId, sessionId, w₁, st, hcreates, bs, htrail⟩
  · exact (trace_ne_of_reaches hr htrace).elim
  · obtain ⟨-, ⟨now, rfl⟩, hcreated, rfl⟩ := hcreates.split htrail htrace
    obtain ⟨t, q, q', hfirst, hasked, hrest⟩ := htrail.split
    obtain ⟨u, p, p', hsecond, hlater, -⟩ := hrest.split
    have ht : t.messages sessionId = history := by
      rw [← hhistory, List.append_cons, World.after_append, ← hcreates.eq_after hcreated]
      exact congrArg (fun v : World => v.messages sessionId) hfirst.foldl_eq.symm
    have hu : u.messages sessionId = history ++ storedIn sessionId between := by
      have hmodel : ¬ (Action.modelAnswered iteration chatRequest answer).touchesMessages := nofun
      have hgrows := Setting.messages_of_trail hsecond
      rwa [World.messages_apply t _ _ hmodel, ht] at hgrows
    constructor
    · rw [← ht]
      exact (Setting.ready_of_trail hfirst).messages hadapters
        (Setting.Step.built_of_modelAnswered hasked)
    · have hready := Setting.ready_of_trail ((hfirst.snoc hasked).trans hsecond)
      change List.Forall₂ Message.MarkedAs
        (rt.context.composed [] (history ++ storedIn sessionId between) none ++ _) _
      rw [← hu]
      exact hready.messages hadapters (Setting.Step.built_of_modelAnswered hlater)

/-! ### A run that asks three times -/

/-- A runtime that asks three times, and is answered each time with a call of a tool. -/
def persistent : AgentRuntime :=
  .new ⟨[calling .toolCalls]⟩ ⟨[]⟩ { maxIterations := 3 } false

/-- Between its second and its third model call, this run stores an answer and what came of its
call, and it compacts nothing. -/
theorem persistent_asks :
    ∃ w' record before calls between rest chatRequest laterRequest answer laterAnswer,
      Ends (persistent.run .benign 4 askPing) (.ofSession 7 []) w' ∧
      w'.trace = (World.ofSession 7 []).trace ++ before ++ .run (.createRun record) none ::
        (calls ++ .modelAnswered 2 chatRequest answer ::
          (between ++ .modelAnswered 3 laterRequest laterAnswer :: rest)) ∧
      record.sessionId = 7 ∧ (storedIn 7 between).length = 2 ∧
      (∀ a ∈ between, a.compacts = false) ∧
      estimateRecordsTokens (persistent.context.filtered
        (((World.ofSession 7 []).after (before ++ .run (.createRun record) none :: calls)).messages
          7 ++ storedIn 7 between)) ≤ persistent.context.maxHistoryTokens := by
  have hends := ends_final (persistent.run .benign 4 askPing) (.ofSession 7 [])
  have hcreated : (final (persistent.run .benign 4 askPing (.ofSession 7 []))).trace[5]?.any
      (Action.createsWith (·.sessionId == 7)) = true := by decide +kernel
  have hasked : ((final (persistent.run .benign 4 askPing (.ofSession 7 []))).trace.drop 6)[39]?.any
      (Action.callsWith fun iteration _ => iteration == 2) = true := by decide +kernel
  have hlater : (((final (persistent.run .benign 4 askPing
      (.ofSession 7 []))).trace.drop 6).drop 40)[23]?.any
        (Action.callsWith fun iteration _ => iteration == 3) = true := by decide +kernel
  have hstored : (storedIn 7 ((((final (persistent.run .benign 4 askPing
      (.ofSession 7 []))).trace.drop 6).drop 40).take 23)).length = 2 := by decide +kernel
  have hkept : ((((final (persistent.run .benign 4 askPing
      (.ofSession 7 []))).trace.drop 6).drop 40).take 23).all (fun a => !a.compacts) = true := by
    decide +kernel
  have hbudget : estimateRecordsTokens (persistent.context.filtered
      (((World.ofSession 7 []).after
        ((final (persistent.run .benign 4 askPing (.ofSession 7 []))).trace.take 6 ++
          ((final (persistent.run .benign 4 askPing
            (.ofSession 7 []))).trace.drop 6).take 39)).messages 7 ++
        storedIn 7 ((((final (persistent.run .benign 4 askPing
          (.ofSession 7 []))).trace.drop 6).drop 40).take 23))) ≤
      persistent.context.maxHistoryTokens := by decide +kernel
  generalize final (persistent.run .benign 4 askPing (.ofSession 7 [])) = w' at *
  obtain ⟨record, hsession, htake, htrace⟩ := exists_createRun hcreated
  obtain ⟨chatRequest, answer, hsplit⟩ := exists_modelAnswered hasked
  obtain ⟨laterRequest, laterAnswer, hsplit'⟩ := exists_modelAnswered hlater
  refine ⟨w', record, _, _, _, _, chatRequest, laterRequest, answer, laterAnswer, hends,
    htrace.trans (by rw [← hsplit', ← hsplit]; rfl), hsession, hstored, by simpa using hkept, ?_⟩
  rw [List.append_cons, ← htake]
  exact hbudget

/-! ### How the requests grow -/

/-- **A later request of a run is an earlier one, followed by what the run has stored since**: up
to cache markers and to the input, which the first request gets beside the history, and as long
as nothing was compacted in between and the history is within the token budget. -/
theorem later_request_grows (host : Host) (rt : AgentRuntime) (fuel : Nat) (request : RunRequest)
    (w w' : World) (record : RunRecord) (before calls between rest : List Action)
    (iteration later : Nat) (chatRequest laterRequest : ChatRequest)
    (answer laterAnswer : Except RuntimeError ModelAnswer)
    (hadapters : rt.context.adapters = []) (hends : Ends (rt.run host fuel request) w w')
    (htrace : w'.trace = w.trace ++ before ++ .run (.createRun record) none ::
      (calls ++ .modelAnswered iteration chatRequest answer ::
        (between ++ .modelAnswered later laterRequest laterAnswer :: rest)))
    (hcompaction : ∀ a ∈ between, a.compacts = false)
    (hbudget : estimateRecordsTokens (rt.context.filtered
      ((w.after (before ++ .run (.createRun record) none :: calls)).messages record.sessionId ++
        storedIn record.sessionId between)) ≤ rt.context.maxHistoryTokens) :
    ∃ shared,
      List.Forall₂ Message.MarkedAs (shared ++ request.inputIn iteration) chatRequest.messages ∧
      List.Forall₂ Message.MarkedAs
        (shared ++ (storedIn record.sessionId between).map recordToMessage ++
          request.inputIn later) laterRequest.messages := by
  obtain ⟨hmarked, hmarked'⟩ := markedAs_of_calls hadapters hends htrace rfl
  rw [ContextPipeline.composed_append (isOrdinary_of_storedIn hcompaction) hbudget] at hmarked'
  exact ⟨_, hmarked, hmarked'⟩

/-- The third request of this run is the second one and the two messages that were stored. -/
theorem later_request_grows_persistent :
    ∃ w' chatRequest laterRequest answer laterAnswer, ∃ records : List MessageRecord,
      Ends (persistent.run .benign 4 askPing) (.ofSession 7 []) w' ∧
      .modelAnswered 2 chatRequest answer ∈ w'.trace ∧
      .modelAnswered 3 laterRequest laterAnswer ∈ w'.trace ∧ records.length = 2 ∧
      ∃ shared, List.Forall₂ Message.MarkedAs shared chatRequest.messages ∧
        List.Forall₂ Message.MarkedAs (shared ++ records.map recordToMessage)
          laterRequest.messages := by
  obtain ⟨w', record, before, calls, between, rest, chatRequest, laterRequest, answer, laterAnswer,
    hends, htrace, hsession, hstored, hkept, hbudget⟩ := persistent_asks
  refine ⟨w', chatRequest, laterRequest, answer, laterAnswer, storedIn 7 between, hends,
    by simp [htrace], by simp [htrace], hstored, ?_⟩
  have hgrows := later_request_grows .benign persistent 4 askPing (.ofSession 7 []) w' record before
    calls between rest 2 3 chatRequest laterRequest answer laterAnswer rfl hends htrace hkept
    (by rw [hsession]; exact hbudget)
  rw [hsession] at hgrows
  simpa [RunRequest.inputIn] using hgrows

/-! ### On the wire -/

/-- The message without its markers. -/
def AnthropicMessage.unmarked (m : AnthropicMessage) : AnthropicMessage :=
  { m with content := m.content.map (·.unmarked) }

namespace Anthropic

theorem convertMessages_append (front back : List Message) :
    convertMessages (front ++ back) = convertMessages front ++ convertMessages back := by
  unfold convertMessages
  simp only [List.filter_append, List.pmap_append]

theorem unmarked_convertSingleMessage {m : Message} {content : List ContentPart}
    (hparts : List.Forall₂ ContentPart.MarkedAs m.content content) (h : m.isSystem = false)
    (h' : (m.withContent content).isSystem = false) :
    (convertSingleMessage (m.withContent content) h').unmarked =
      (convertSingleMessage m h).unmarked := by
  cases m with
  | system => cases h
  | user parts =>
    have hcontent : convertUserContent content = convertUserContent parts :=
      map_eq_of_markedAs (fun part _ => by cases part <;> rfl) hparts
    simp only [Message.withContent, convertSingleMessage, hcontent]
  | assistant parts calls =>
    have hcontent : convertAssistantContent content = convertAssistantContent parts :=
      map_eq_of_markedAs (fun part _ => by cases part <;> rfl) hparts
    simp only [Message.withContent, convertSingleMessage, hcontent]
  | tool toolCallId name parts =>
    have hcontent : convertToolResultContent content = convertToolResultContent parts :=
      map_eq_of_markedAs (fun part _ => by cases part <;> rfl) hparts
    simp only [Message.withContent, convertSingleMessage, hcontent, AnthropicMessage.unmarked,
      List.map_cons, List.map_nil, AnthropicContentBlock.unmarked]

/-- The messages of a request are sent as the messages it was made of, up to markers. -/
theorem unmarked_convertMessages {messages marked : List Message}
    (h : List.Forall₂ Message.MarkedAs messages marked) :
    (convertMessages marked).map (·.unmarked) = (convertMessages messages).map (·.unmarked) := by
  induction h with
  | nil => rfl
  | @cons m marked messages others hm _ ih =>
    rw [← List.singleton_append, convertMessages_append, List.map_append, ih,
      ← List.singleton_append (l := messages), convertMessages_append, List.map_append]
    congr 1
    obtain ⟨content, rfl, hparts⟩ := hm
    cases hsystem : m.isSystem with
    | true => cases m <;> first | rfl | cases hsystem
    | false =>
      have hsystem' : (m.withContent content).isSystem = false := by
        cases m <;> first | rfl | cases hsystem
      have hone : ∀ (m : Message) (h : m.isSystem = false),
          convertMessages [m] = [convertSingleMessage m h] := by
        intro m h
        cases m <;> first | rfl | cases h
      rw [hone _ hsystem, hone _ hsystem', List.map_singleton, List.map_singleton,
        unmarked_convertSingleMessage hparts hsystem hsystem']

/-- The texts of the system messages that are sent. -/
def systemTexts (request : AnthropicRequest) : List String :=
  (request.system.getD []).map (·.text)

theorem systemTexts_toAnthropicRequest (request : ChatRequest) (stream : Bool) :
    systemTexts (toAnthropicRequest request stream) =
      (request.messages.filterMap systemBlock).map (·.text) := by
  unfold systemTexts toAnthropicRequest extractSystemBlocks
  dsimp only
  split
  · next hempty => rw [List.isEmpty_iff.mp hempty]; rfl
  · rfl

/-- A system message has the text it had before it got markers. -/
theorem text_systemBlock {m marked : Message} (h : m.MarkedAs marked) :
    (systemBlock marked).map (·.text) = (systemBlock m).map (·.text) := by
  obtain ⟨content, rfl, hparts⟩ := h
  cases m with
  | system parts =>
    have htexts : systemText content = systemText parts := by
      unfold systemText
      rw [filterMap_eq_of_markedAs (fun part _ => by cases part <;> rfl) hparts]
      rfl
    unfold systemBlock
    simp only [Message.withContent, htexts]
    split <;> rfl
  | _ => rfl

theorem systemTexts_of_markedAs {messages : List Message} {request : ChatRequest}
    (h : List.Forall₂ Message.MarkedAs messages request.messages) (stream : Bool) :
    systemTexts (toAnthropicRequest request stream) =
      messages.filterMap fun m => (systemBlock m).map (·.text) := by
  rw [systemTexts_toAnthropicRequest, List.map_filterMap]
  generalize request.messages = marked at h
  induction h with
  | nil => rfl
  | cons hm _ ih => rw [List.filterMap_cons, List.filterMap_cons, text_systemBlock hm, ih]

end Anthropic

/-- What is sent for a request is the front of what is sent for another one: to the chat
completions API as it stands, and to the messages API up to markers. -/
structure SentBefore (request other : ChatRequest) (stream stream' : Bool) : Prop where
  openAi : (OpenAi.toOpenAiRequest request stream).messages <+:
    (OpenAi.toOpenAiRequest other stream').messages
  anthropic : (Anthropic.toAnthropicRequest request stream).messages.map (·.unmarked) <+:
    (Anthropic.toAnthropicRequest other stream').messages.map (·.unmarked)
  system : Anthropic.systemTexts (Anthropic.toAnthropicRequest request stream) <+:
    Anthropic.systemTexts (Anthropic.toAnthropicRequest other stream')

theorem sentBefore_of_markedAs {shared more : List Message} {request other : ChatRequest}
    (h : List.Forall₂ Message.MarkedAs shared request.messages)
    (h' : List.Forall₂ Message.MarkedAs (shared ++ more) other.messages) (stream stream' : Bool) :
    SentBefore request other stream stream' where
  openAi := by
    rw [OpenAi.messages_toOpenAiRequest h, OpenAi.messages_toOpenAiRequest h', List.map_append]
    exact List.prefix_append _ _
  anthropic := by
    unfold Anthropic.toAnthropicRequest
    dsimp only
    rw [Anthropic.unmarked_convertMessages h, Anthropic.unmarked_convertMessages h',
      Anthropic.convertMessages_append, List.map_append]
    exact List.prefix_append _ _
  system := by
    rw [Anthropic.systemTexts_of_markedAs h, Anthropic.systemTexts_of_markedAs h',
      List.filterMap_append]
    exact List.prefix_append _ _

/-- **What a provider is sent for a later call of a run starts with what it was sent for an earlier
one**, unless the earlier call was in the first iteration, whose request ends with the input once
more: as long as nothing was compacted in between and the history is within the token budget. -/
theorem later_request_sent (host : Host) (rt : AgentRuntime) (fuel : Nat) (request : RunRequest)
    (w w' : World) (record : RunRecord) (before calls between rest : List Action)
    (iteration later : Nat) (chatRequest laterRequest : ChatRequest)
    (answer laterAnswer : Except RuntimeError ModelAnswer) (stream stream' : Bool)
    (hadapters : rt.context.adapters = []) (hends : Ends (rt.run host fuel request) w w')
    (htrace : w'.trace = w.trace ++ before ++ .run (.createRun record) none ::
      (calls ++ .modelAnswered iteration chatRequest answer ::
        (between ++ .modelAnswered later laterRequest laterAnswer :: rest)))
    (hfirst : iteration ≠ 1) (hcompaction : ∀ a ∈ between, a.compacts = false)
    (hbudget : estimateRecordsTokens (rt.context.filtered
      ((w.after (before ++ .run (.createRun record) none :: calls)).messages record.sessionId ++
        storedIn record.sessionId between)) ≤ rt.context.maxHistoryTokens) :
    SentBefore chatRequest laterRequest stream stream' := by
  obtain ⟨hmarked, hmarked'⟩ := markedAs_of_calls hadapters hends htrace rfl
  rw [ContextPipeline.composed_append (isOrdinary_of_storedIn hcompaction) hbudget,
    List.append_assoc] at hmarked'
  rw [RunRequest.inputIn, if_neg hfirst, List.append_nil] at hmarked
  exact sentBefore_of_markedAs hmarked hmarked' stream stream'

/-- The third request of this run is sent as the second one with something behind it. -/
theorem later_request_sent_persistent :
    ∃ w' chatRequest laterRequest answer laterAnswer,
      Ends (persistent.run .benign 4 askPing) (.ofSession 7 []) w' ∧
      .modelAnswered 2 chatRequest answer ∈ w'.trace ∧
      .modelAnswered 3 laterRequest laterAnswer ∈ w'.trace ∧
      SentBefore chatRequest laterRequest true false := by
  obtain ⟨w', record, before, calls, between, rest, chatRequest, laterRequest, answer, laterAnswer,
    hends, htrace, hsession, -, hkept, hbudget⟩ := persistent_asks
  refine ⟨w', chatRequest, laterRequest, answer, laterAnswer, hends, by simp [htrace],
    by simp [htrace], ?_⟩
  exact later_request_sent .benign persistent 4 askPing (.ofSession 7 []) w' record before calls
    between rest 2 3 chatRequest laterRequest answer laterAnswer true false rfl hends htrace
    (by decide) hkept (by rw [hsession]; exact hbudget)

end Behest
