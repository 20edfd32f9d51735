import Behest.Runtime.Settlement

/-!
# The input in the requests of a run

A run stores its input before the turn loop starts, and the first pass gives it to the
context pipeline once more. The copies the session holds are followed along the protocol;
the requests are built of them.
-/

namespace Behest

open Effect Context

/-! ### Messages that carry a text -/

/-- The part is this text. -/
def ContentPart.isText (text : String) : ContentPart → Bool
  | .text t _ => t == text
  | _ => false

namespace Message

/-- A user message with this text among its parts. -/
def carries (text : String) : Message → Bool
  | .user content => content.any (ContentPart.isText text)
  | _ => false

theorem isUser_of_carries {text : String} (m : Message) (h : m.carries text = true) :
    m.isUser = true := by
  cases m <;> first | rfl | cases h

@[simp] theorem carries_userText (text t : String) : (userText t).carries text = (t == text) := by
  simp [userText, carries, ContentPart.ofText, ContentPart.isText]

end Message

/-- A record whose message carries the text. -/
def MessageRecord.carries (text : String) (r : MessageRecord) : Bool :=
  (recordToMessage r).carries text

/-- The copies of the input that an answer puts into the session: the answer itself, and the
prompt to continue an answer that was cut off. -/
def ModelAnswer.copies (input : String) (answer : ModelAnswer) : Nat :=
  (answer.message.carries input).toNat +
    if answer.finish = .length ∧ input = continuationPrompt then 1 else 0

namespace Action

/-- The action writes a marker or a summary. -/
def compacts : Action → Bool
  | session (.appendMessage r) none => !r.isOrdinary
  | _ => false

/-- The copies of the input that the action leads to. -/
def copies (input : String) : Action → Nat
  | modelAnswered _ _ (.ok answer) => answer.copies input
  | _ => 0

end Action

/-! ### Copies along the protocol -/

namespace Phase

/-- The copies of the input that are still to be stored, where a request may follow. -/
def owed (input : String) : Phase → Option Nat
  | opening => some 1
  | answered answer => some (answer.copies input)
  | committed _ finish => some (if finish = .length ∧ input = continuationPrompt then 1 else 0)
  | idle | built _ _ | overflowed | compacting _ | executed _ _ | condemned => some 0
  | aborted _ | tripped | degraded | halted | closing _ | ended _ => none

@[simp] theorem owed_refused (input : String) (p : Phase) : p.refused.owed input = none := by
  cases p <;> rfl

@[simp] theorem owed_afterFailure (input : String) (threshold : Nat) :
    (afterFailure threshold).owed input = none := by
  unfold afterFailure
  split <;> rfl

@[simp] theorem owed_storing (input : String) (outcomes : List ToolExecutionOutcome) :
    (storing outcomes).owed input = some 0 := by
  cases outcomes <;> rfl

theorem storing_ne_built (outcomes : List ToolExecutionOutcome) (iteration : Nat)
    (request : ChatRequest) : storing outcomes ≠ built iteration request := by
  cases outcomes <;> exact nofun

end Phase

/-- The copies of the input that some actions lead to. -/
def copiesIn (input : String) (as : List Action) : Nat := (as.map (Action.copies input)).sum

@[simp] theorem copiesIn_snoc (input : String) (as : List Action) (a : Action) :
    copiesIn input (as ++ [a]) = copiesIn input as + a.copies input := by
  simp [copiesIn]

theorem copiesIn_eq_zero {input : String} {as : List Action} :
    copiesIn input as = 0 ↔ ∀ a ∈ as, a.copies input = 0 := by
  unfold copiesIn
  rw [List.sum_eq_zero_iff_forall_eq_nat, List.forall_mem_map]

namespace Setting

variable {S : Setting} {history : List MessageRecord} {as : List Action} {w w' : World}
  {st st' : Stage} {a : Action}

theorem Quiet.copies (h : S.Quiet a) (input : String) : a.copies input = 0 := by
  cases a with
  | modelAnswered iteration request answer => exact h.elim
  | _ => rfl

/-- The records that were added to a history carry the input once, and once more for every
copy the actions led to, unless the copy is still owed. -/
structure Copied (S : Setting) (history : List MessageRecord) (as : List Action) (w : World)
    (st : Stage) : Prop where
  honest : st.phase.Honest
  stored : ∃ more, w.messages S.sessionId = history ++ more ∧
    (∀ r ∈ more, r.isOrdinary = true) ∧
    ∀ n, st.phase.owed S.request.input = some n →
      more.countP (MessageRecord.carries S.request.input) + n = 1 + copiesIn S.request.input as
  built : ∀ iteration request, st.phase = .built iteration request →
    S.Assembled w (if iteration = 1 then some S.request.input else none) request

/-- An action that stores nothing passes on what is owed. -/
theorem Copied.keep (h : S.Copied history as w st) (hstep : S.Step w st a st')
    (ha : ¬ a.touchesMessages)
    (howed : ∀ n', st'.phase.owed S.request.input = some n' →
      ∃ n, st.phase.owed S.request.input = some n ∧ n' = n + a.copies S.request.input)
    (hbuilt : ∀ iteration request, st'.phase = .built iteration request →
      S.Assembled w (if iteration = 1 then some S.request.input else none) request) :
    S.Copied history (as ++ [a]) (w.apply a) st' where
  honest := hstep.honest h.honest
  stored := by
    obtain ⟨more, hmessages, hordinary, hcount⟩ := h.stored
    refine ⟨more, by rw [World.messages_apply _ _ _ ha, hmessages], hordinary, ?_⟩
    intro n' hn'
    obtain ⟨n, hn, rfl⟩ := howed n' hn'
    have hbefore := hcount n hn
    rw [copiesIn_snoc]
    omega
  built := by
    intro iteration request hp
    unfold Assembled
    rw [World.messages_apply _ _ _ ha]
    exact hbuilt iteration request hp

/-- A message that is stored is no longer owed. -/
theorem Copied.store {message : Message} {n : Nat} (h : S.Copied history as w st)
    (hstep : S.Step w st a st') (hstores : S.Stores w message a)
    (hbefore : st.phase.owed S.request.input = some ((message.carries S.request.input).toNat + n))
    (hafter : st'.phase.owed S.request.input = some n)
    (hbuilt : ∀ iteration request, st'.phase ≠ .built iteration request) :
    S.Copied history (as ++ [a]) (w.apply a) st' where
  honest := hstep.honest h.honest
  stored := by
    obtain ⟨more, hmessages, hordinary, hcount⟩ := h.stored
    obtain ⟨r, rfl, hr, rfl, happend⟩ := hstores.messages
    refine ⟨more ++ [r], by rw [happend, hmessages, List.append_assoc], ?_, ?_⟩
    · intro r' hr'
      rcases List.mem_append.mp hr' with hr' | hr'
      · exact hordinary r' hr'
      · rw [List.mem_singleton.mp hr']
        exact hr
    · intro n' hn'
      obtain rfl : n = n' := Option.some.inj (hafter.symm.trans hn')
      have hcount := hcount _ hbefore
      have hcarries : MessageRecord.carries S.request.input r =
        (recordToMessage r).carries S.request.input := rfl
      have hnone : Action.copies S.request.input (.session (.appendMessage r) none) = 0 := rfl
      rw [copiesIn_snoc, hnone, List.countP_append, List.countP_singleton, hcarries]
      cases hc : (recordToMessage r).carries S.request.input <;> simp [hc] at hcount ⊢ <;> omega
  built iteration request hp := absurd hp (hbuilt iteration request)

theorem Copied.step (h : S.Copied history as w st) (hstep : S.Step w st a st')
    (ha : a.compacts = false) : S.Copied history (as ++ [a]) (w.apply a) st' := by
  have hkeep := fun ht howed hbuilt => h.keep hstep ht howed hbuilt
  cases hstep with
  | quiet live hquiet =>
    apply hkeep hquiet.not_touches
    · exact fun n hn => ⟨n, hn, by rw [hquiet.copies, Nat.add_zero]⟩
    · exact h.built
  | @fault p d a live hfault =>
    apply hkeep (not_touches_of_isFault hfault)
    · simp
    · cases p <;> exact nofun
  | cleanup fault ended =>
    apply hkeep nofun
    · exact fun n hn => ⟨n, hn, rfl⟩
    · exact h.built
  | greet hstores =>
    apply h.store (n := 0) (.greet hstores) hstores
    · simp [Phase.owed]
    · rfl
    · exact nofun
  | considered | historyRead | compacted | contextDiscarded | breakerOpened =>
    apply hkeep nofun
    · exact fun n hn => ⟨n, hn, rfl⟩
    · exact nofun
  | historyRefused | announceFailure | announceCompletion | toolsFailed =>
    apply hkeep nofun
    · exact nofun
    · exact nofun
  | compactionWrite hrecord hstored =>
    rw [Action.compacts, hrecord.flagged] at ha
    cases ha
  | compactionFailed hp =>
    apply hkeep nofun
    · simp
    · intro iteration request hp
      unfold Phase.afterFailure at hp
      split at hp <;> cases hp
  | contextBuilt hassembled =>
    apply hkeep nofun
    · exact fun n hn => ⟨n, hn, rfl⟩
    · rintro iteration request ⟨⟩
      exact hassembled
  | contextFailed hp =>
    apply hkeep nofun
    · exact nofun
    · exact nofun
  | modelAnswered =>
    apply hkeep nofun
    · rintro n ⟨⟩
      exact ⟨0, rfl, (Nat.zero_add _).symm⟩
    · exact nofun
  | modelOverflowed hover =>
    apply hkeep nofun
    · intro n hn
      refine ⟨0, rfl, ?_⟩
      split at hn <;> cases hn <;> rfl
    · intro iteration request hp
      split at hp <;> cases hp
  | modelFailed hnot =>
    apply hkeep nofun
    · exact nofun
    · exact nofun
  | commit hstores =>
    apply h.store (.commit hstores) hstores rfl rfl
    exact nofun
  | @recover d message _ hstores =>
    have hstep : S.Step w ⟨.committed message .length, d⟩ a ⟨.idle, d⟩ := .recover hstores
    apply h.store (n := 0) hstep hstores
    · simp only [Phase.owed, Message.carries_userText, true_and]
      by_cases hinput : S.request.input = continuationPrompt
      · simp [hinput]
      · simp [hinput, beq_false_of_ne (Ne.symm hinput)]
    · rfl
    · exact nofun
  | loopFound hfound =>
    apply hkeep nofun
    · exact fun n hn => ⟨n, hn, rfl⟩
    · exact nofun
  | toolsAnswered hcalls hchecked hanswers =>
    apply hkeep nofun
    · exact fun n hn => ⟨n, (Phase.owed_storing _ _).symm.trans hn, rfl⟩
    · intro iteration request hp
      exact absurd hp (Phase.storing_ne_built _ _ _)
  | @store d outcome rest _ hstores =>
    apply h.store (n := 0) (.store hstores) hstores
    · obtain ⟨content, hmessage⟩ := (h.honest outcome (by simp)).message_eq
      rw [hmessage]
      rfl
    · exact Phase.owed_storing _ _
    · exact Phase.storing_ne_built _
  | failing fault hp =>
    apply hkeep nofun
    · exact nofun
    · exact nofun
  | finishing hend =>
    apply hkeep nofun
    · exact nofun
    · exact nofun

/-- The run lemma: what a run has stored and built so far. -/
theorem copied_of_trail {st₀ : Stage} (h : Trail World.apply S.Step w st₀ as w' st)
    (hstart : S.Copied (w.messages S.sessionId) [] w st₀) (has : ∀ a ∈ as, a.compacts = false) :
    S.Copied (w.messages S.sessionId) as w' st := by
  apply h.invariant (fun as t st => (∀ a ∈ as, a.compacts = false) →
    S.Copied (w.messages S.sessionId) as t st) _ _ has
  · exact fun _ => hstart
  · intro bs t q a q' ih hstep hbs
    apply (ih fun b hb => hbs b (List.mem_append_left _ hb)).step hstep
    exact hbs a (by simp)

theorem copied_opened (w : World) : S.Copied (w.messages S.sessionId) [] w S.opened where
  honest := trivial
  stored := ⟨[], by simp, by simp, by rintro n ⟨⟩; rfl⟩
  built := nofun

/-- The model is asked where a request has been built for it. -/
theorem Step.built_of_modelAnswered {iteration : Nat} {request : ChatRequest}
    {answer : Except RuntimeError ModelAnswer}
    (h : S.Step w st (.modelAnswered iteration request answer) st') :
    st.phase = .built iteration request := by
  cases h with
  | quiet _ h => exact h.elim
  | fault _ h => cases h
  | greet h | commit h | recover h | store h =>
    obtain ⟨_, ha⟩ := h.eq
    cases ha
  | _ => rfl

/-- A request carries the input as often as it was stored, and once more in the first pass. -/
theorem Copied.request (h : S.Copied history as w st) (hdefault : S.rt.context = .new)
    {iteration : Nat} {request : ChatRequest} (hbuilt : st.phase = .built iteration request)
    (hnew : ∀ r ∈ history, r.carries S.request.input = false)
    (hbudget : ∀ id, estimateRecordsTokens (applyCompactionFilter id (w.messages S.sessionId)) ≤
      64000) :
    request.messages.countP (Message.carries S.request.input) =
      1 + copiesIn S.request.input as + if iteration = 1 then 1 else 0 := by
  obtain ⟨id, fragments, tools, hfragments, rfl⟩ := h.built iteration request hbuilt
  obtain ⟨more, hmessages, hordinary, hcount⟩ := h.stored
  have hcount := hcount 0 (by rw [hbuilt]; rfl)
  have hbudget := hbudget id
  have hold : (applyCompactionFilter id history).countP (MessageRecord.carries S.request.input) =
      0 := by
    apply List.countP_eq_zero.mpr
    intro r hr
    rcases mem_applyCompactionFilter hr with ⟨marker, summary, text, rfl⟩ | hr
    · exact Bool.false_ne_true
    · rw [hnew r hr]
      exact Bool.false_ne_true
  rw [hdefault] at hfragments ⊢
  rw [hmessages, applyCompactionFilter_append_ordinary id _ _ hordinary] at hbudget
  have hvisible : ContextPipeline.new.history id (w.messages S.sessionId) =
      applyCompactionFilter id history ++ more := by
    have hdefined : ContextPipeline.new.history id (w.messages S.sessionId) =
      trimByTokens (applyCompactionFilter id (w.messages S.sessionId)) 64000 := rfl
    rw [hdefined, hmessages, applyCompactionFilter_append_ordinary id _ _ hordinary]
    exact trimByTokens_of_le hbudget
  rw [countP_assemble Message.isUser_of_carries, hfragments rfl, hvisible, List.countP_nil,
    List.countP_map, List.countP_append]
  have hcarries : Message.carries S.request.input ∘ recordToMessage =
    MessageRecord.carries S.request.input := rfl
  rw [hcarries, hold]
  split <;> simp <;> omega

end Setting

/-! ### Whole runs -/

/-- A run that is created leads through the world of its creation. -/
theorem Setting.Creates.eq_after {S : Setting} {w w₁ : World} {before : List Action}
    {record : RunRecord} (h : S.Creates w w₁)
    (htrace : w₁.trace = w.trace ++ before ++ [.run (.createRun record) none]) :
    w₁ = w.after (before ++ [.run (.createRun record) none]) := by
  obtain ⟨w₀, now, hr, rfl⟩ := h.created
  have happlied : w₀.trace ++ [.run (.createRun (.new S.runId S.sessionId S.request now)) none] =
      w.trace ++ before ++ [.run (.createRun record) none] := htrace
  obtain ⟨hbefore, hrecord⟩ := List.append_inj' happlied rfl
  rw [World.after_append, ← eq_after_of_reaches hr hbefore, ← hrecord]
  rfl

/-- **A model call carries the input once if and only if it is not the first and nothing has
repeated the input since**: in every run with the default pipeline, at every call before
which nothing was compacted and at which the visible history is within the token budget. -/
theorem input_once_iff (host : Host) (rt : AgentRuntime) (fuel : Nat) (request : RunRequest)
    (w w' : World) (record : RunRecord) (before calls rest : List Action) (iteration : Nat)
    (chatRequest : ChatRequest) (answer : Except RuntimeError ModelAnswer)
    (hdefault : rt.context = .new) (hends : Ends (rt.run host fuel request) w w')
    (htrace : w'.trace = w.trace ++ before ++ .run (.createRun record) none ::
      (calls ++ .modelAnswered iteration chatRequest answer :: rest))
    (hnew : ∀ r ∈ (w.after before).messages record.sessionId, r.carries request.input = false)
    (hcompaction : ∀ a ∈ calls, a.compacts = false)
    (hbudget : ∀ id, estimateRecordsTokens (applyCompactionFilter id
      ((w.after (before ++ .run (.createRun record) none :: calls)).messages record.sessionId)) ≤
        64000) :
    chatRequest.messages.countP (Message.carries request.input) = 1 ↔
      iteration ≠ 1 ∧ ∀ a ∈ calls, a.copies request.input = 0 := by
  rcases Setting.follows_of_run hends with hr | ⟨runId, sessionId, w₁, st, hcreates, bs, htrail⟩
  · exact (trace_ne_of_reaches hr htrace).elim
  · obtain ⟨-, ⟨now, rfl⟩, hcreated, rfl⟩ := hcreates.split htrail htrace
    let S : Setting := ⟨host, rt, runId, sessionId, request⟩
    have hw₁ := hcreates.eq_after hcreated
    obtain ⟨t, q, q', hbefore, hasked, -⟩ := htrail.split
    have ht : t = w.after (before ++ .run (.createRun (.new runId sessionId request now)) none ::
        calls) := by
      rw [List.append_cons, World.after_append, ← hw₁]
      exact hbefore.foldl_eq.symm
    have hhistory : w₁.messages sessionId = (w.after before).messages sessionId := by
      rw [hw₁, World.after_append]
      exact World.messages_apply _ _ _ nofun
    have hcopied := Setting.copied_of_trail hbefore (Setting.copied_opened (S := S) w₁) hcompaction
    rw [hcopied.request hdefault (Setting.Step.built_of_modelAnswered hasked)
      (fun r hr => hnew r (hhistory ▸ hr)) (ht ▸ hbudget)]
    rw [← copiesIn_eq_zero]
    change 1 + copiesIn request.input calls + _ = 1 ↔ _
    by_cases hfirst : iteration = 1
    · rw [if_pos hfirst]
      constructor
      · intro h
        omega
      · exact fun h => absurd hfirst h.1
    · rw [if_neg hfirst]
      constructor
      · intro h
        exact ⟨hfirst, by omega⟩
      · intro h
        have hzero := h.2
        omega

/-! ### A run that asks twice -/

/-- A provider for which every request is too long. -/
def crowded : ChatProvider where
  id := "p"
  capabilities := ⟨false, none, none⟩
  complete _ _ := .error (.badRequest "p" "token limit")
  stream _ _ := .error (.overloaded "p")

/-- A runtime that asks this provider twice, and compacts nothing in between. -/
def retrying : AgentRuntime :=
  .new ⟨[crowded]⟩ ⟨[]⟩ { maxIterations := 2, compaction := { auto := false } } false

/-- The action is a model call of such an iteration with such a request. -/
def Action.callsWith (p : Nat → ChatRequest → Bool) : Action → Bool
  | .modelAnswered iteration chatRequest _ => p iteration chatRequest
  | _ => false

/-- The first model call of a run in an empty session carries the input twice. -/
theorem askPing_carried_twice :
    ∃ w' iteration chatRequest answer,
      Ends (retrying.run .benign 3 askPing) (.ofSession 7 []) w' ∧
      .modelAnswered iteration chatRequest answer ∈ w'.trace ∧
      (∀ a ∈ w'.trace, a.compacts = false) ∧ estimateRecordsTokens (w'.messages 7) ≤ 64000 ∧
      chatRequest.messages.countP (Message.carries "ping") = 2 := by
  have hasked : (final (retrying.run .benign 3 askPing (.ofSession 7 []))).trace.any
      (Action.callsWith fun _ chatRequest =>
        chatRequest.messages.countP (Message.carries "ping") == 2) = true := by decide +kernel
  have hkept : (final (retrying.run .benign 3 askPing (.ofSession 7 []))).trace.all
      (fun a => !a.compacts) = true := by decide +kernel
  obtain ⟨a, ha, hcount⟩ := List.any_eq_true.mp hasked
  unfold Action.callsWith at hcount
  split at hcount
  · next iteration chatRequest answer =>
    refine ⟨_, iteration, chatRequest, answer, ends_final _ _, ha, ?_, by decide +kernel,
      by simpa using hcount⟩
    intro a ha
    simpa using List.all_eq_true.mp hkept a ha
  · cases hcount

/-- A list cut at one of its elements. -/
theorem exists_split {α : Type} {p : α → Bool} {l : List α} {i : Nat} (h : l[i]?.any p = true) :
    ∃ a, p a = true ∧ l.take (i + 1) = l.take i ++ [a] ∧ l = l.take i ++ a :: l.drop (i + 1) := by
  obtain ⟨a, ha, hp⟩ := (Option.any_eq_true _ _).mp h
  obtain ⟨hlt, rfl⟩ := List.getElem?_eq_some_iff.mp ha
  exact ⟨_, hp, by simp, by simp⟩

/-- Where a list of actions creates a run of the session. -/
theorem exists_createRun {as : List Action} {sessionId : Uuid} {i : Nat}
    (h : as[i]?.any (Action.createsWith (·.sessionId == sessionId)) = true) :
    ∃ record, record.sessionId = sessionId ∧
      as.take (i + 1) = as.take i ++ [.run (.createRun record) none] ∧
      as = as.take i ++ .run (.createRun record) none :: as.drop (i + 1) := by
  obtain ⟨create, hcreates, htake, hsplit⟩ := exists_split h
  unfold Action.createsWith at hcreates
  split at hcreates
  · next record => exact ⟨record, by simpa using hcreates, htake, hsplit⟩
  · cases hcreates

/-- Where a list of actions calls the model in the iteration. -/
theorem exists_modelAnswered {as : List Action} {iteration i : Nat}
    (h : as[i]?.any (Action.callsWith fun n _ => n == iteration) = true) :
    ∃ chatRequest answer,
      as = as.take i ++ .modelAnswered iteration chatRequest answer :: as.drop (i + 1) := by
  obtain ⟨asked, hcalls, -, hsplit⟩ := exists_split h
  unfold Action.callsWith at hcalls
  split at hcalls
  · next n chatRequest answer =>
    obtain rfl : n = iteration := by simpa using hcalls
    exact ⟨chatRequest, answer, hsplit⟩
  · cases hcalls

/-- Without markers and summaries, the whole history is visible. -/
theorem applyCompactionFilter_of_ordinary (id : Uuid) {records : List MessageRecord}
    (h : ∀ r ∈ records, r.isOrdinary = true) : applyCompactionFilter id records = records :=
  applyCompactionFilter_append_ordinary id [] records h

/-- Its second model call carries the input once. -/
theorem askPing_carried_once :
    ∃ w' chatRequest answer, .modelAnswered 2 chatRequest answer ∈ w'.trace ∧
      Ends (retrying.run .benign 3 askPing) (.ofSession 7 []) w' ∧
      chatRequest.messages.countP (Message.carries "ping") = 1 := by
  have hends := ends_final (retrying.run .benign 3 askPing) (.ofSession 7 [])
  have hcreated : (final (retrying.run .benign 3 askPing (.ofSession 7 []))).trace[5]?.any
      (Action.createsWith (·.sessionId == 7)) = true := by decide +kernel
  have hasked : ((final (retrying.run .benign 3 askPing (.ofSession 7 []))).trace.drop 6)[23]?.any
      (Action.callsWith fun iteration _ => iteration == 2) = true := by decide +kernel
  have hnew : ((World.ofSession 7 []).after ((final (retrying.run .benign 3 askPing
      (.ofSession 7 []))).trace.take 5)).messages 7 = [] := by decide +kernel
  have hkept : (((final (retrying.run .benign 3 askPing (.ofSession 7 []))).trace.drop 6).take
      23).all (fun a => !a.compacts && a.copies "ping" == 0) = true := by decide +kernel
  have hvisible : (((World.ofSession 7 []).after
      ((final (retrying.run .benign 3 askPing (.ofSession 7 []))).trace.take 6 ++
        ((final (retrying.run .benign 3 askPing (.ofSession 7 []))).trace.drop 6).take 23)).messages
          7).all MessageRecord.isOrdinary = true := by decide +kernel
  have hbudget : estimateRecordsTokens (((World.ofSession 7 []).after
      ((final (retrying.run .benign 3 askPing (.ofSession 7 []))).trace.take 6 ++
        ((final (retrying.run .benign 3 askPing (.ofSession 7 []))).trace.drop 6).take 23)).messages
          7) ≤ 64000 := by decide +kernel
  generalize final (retrying.run .benign 3 askPing (.ofSession 7 [])) = w' at *
  obtain ⟨record, hsession, htake, htrace⟩ := exists_createRun hcreated
  obtain ⟨chatRequest, answer, hsplit⟩ := exists_modelAnswered hasked
  have hcalls : ∀ a ∈ (w'.trace.drop 6).take 23, a.compacts = false ∧ a.copies "ping" = 0 := by
    simpa using hkept
  have hcut : (w'.trace.take 5 ++ .run (.createRun record) none :: (w'.trace.drop 6).take 23) =
      w'.trace.take 6 ++ (w'.trace.drop 6).take 23 := by
    rw [List.append_cons, ← htake]
  refine ⟨w', chatRequest, answer, ?_, hends, ?_⟩
  · rw [htrace, hsplit]
    simp
  · apply (input_once_iff .benign retrying 3 askPing (.ofSession 7 []) w' record
      (w'.trace.take 5) ((w'.trace.drop 6).take 23) _ 2 chatRequest answer rfl hends
      (htrace.trans (by rw [← hsplit]; rfl)) ?_ (fun a ha => (hcalls a ha).1) ?_).mpr
      ⟨by decide, fun a ha => (hcalls a ha).2⟩
    · rw [hsession, hnew]
      simp
    · intro id
      rw [hsession, hcut, applyCompactionFilter_of_ordinary id (by simpa using hvisible)]
      exact hbudget

end Behest
