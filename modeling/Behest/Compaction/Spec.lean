import Behest.Compaction.Service
import Behest.Runtime.Calls

/-!
# What a compaction leaves behind

A compaction that returns has either found an empty head and changed nothing, or asked the
model about the selected head and appended a marker and a summary that name the boundary.
-/

namespace Behest.Compaction

open Effect CompactionService

/-- The identifier recorded as the boundary of a selection. -/
def SelectionResult.boundary (selection : SelectionResult) : Uuid :=
  selection.tailStartId.getD Uuid.nil

/-- A pair for the selection was appended, after a request that summarises its head. -/
def PairAppended (provider : ChatProvider) (model : String) (sessionId : Uuid)
    (selection : SelectionResult) (w w' : World) : Prop :=
  (∃ markerId markerTime summaryId summaryTime text,
    w'.messages sessionId = w.messages sessionId ++
      [compactionMarker markerId markerTime sessionId selection.boundary,
        compactionSummary summaryId summaryTime sessionId selection.boundary text]) ∧
  ∃ previousSummary before after, w'.trace = w.trace ++ before ++
    .requested provider.id false
      (compactionRequest model (buildPrompt selection.head previousSummary)) :: after

/-- The transcript ends with a summary that the store did not take. -/
def SummaryRefused (w : World) : Prop :=
  ∃ summary fault, summary.isSummary = true ∧
    w.trace.getLast? = some (.session (.appendMessage summary) (some fault))

/-- How a compaction that fails leaves its session: with the marker alone where the summary was
refused, and as it was otherwise. -/
def Incomplete (sessionId tailStartId : Uuid) (w w' : World) : Prop :=
  (¬ SummaryRefused w' ∧ w'.messages sessionId = w.messages sessionId) ∨
  (SummaryRefused w' ∧ ∃ markerId markerTime, w'.messages sessionId =
    w.messages sessionId ++ [compactionMarker markerId markerTime sessionId tailStartId])

/-- After any other action than a summary and no change of the messages. -/
theorem Incomplete.of_apply {sessionId tailStartId : Uuid} {w w' : World} {a : Action}
    (ha : ∀ summary fault, a = .session (.appendMessage summary) (some fault) →
      summary.isSummary = false)
    (htouches : ¬ a.touchesMessages) (h : w'.messages sessionId = w.messages sessionId) :
    Incomplete sessionId tailStartId w (w'.apply a) := by
  left
  constructor
  · rintro ⟨summary, fault, hsummary, hlast⟩
    rw [World.apply_trace, List.getLast?_append, List.getLast?_singleton, Option.some_or,
      Option.some.injEq] at hlast
    rw [ha summary fault hlast] at hsummary
    cases hsummary
  · rw [World.messages_apply _ _ _ htouches, h]

variable {host : Host} {P : RuntimeError → World → Prop}

private theorem wp_runCompactionLlm {provider : ChatProvider} {model prompt : String} {w : World}
    {Q : String → World → Prop}
    (hok : ∀ text, Q text (w.apply (.requested provider.id false (compactionRequest model prompt))))
    (hfail : ∀ e, P e (w.apply (.requested provider.id false (compactionRequest model prompt)))) :
    wp (runCompactionLlm host provider model prompt) Q (Fails P) w := by
  unfold runCompactionLlm
  rw [wp_bind]
  apply wp_complete
  cases provider.complete w (compactionRequest model prompt) with
  | error e => exact hfail _
  | ok response =>
    simp only
    split
    · exact hfail _
    · exact hok _

private theorem wp_appendPair {sessionId tailStartId : Uuid} {text : String} {w : World}
    {Q : Uuid × Uuid → World → Prop}
    (hok : ∀ markerId markerTime summaryId summaryTime w',
      w'.messages sessionId = w.messages sessionId ++
        [compactionMarker markerId markerTime sessionId tailStartId,
          compactionSummary summaryId summaryTime sessionId tailStartId text] →
      (∃ more, (∀ a ∈ more, a.asked = none) ∧ w'.trace = w.trace ++ more) →
      Q (markerId, summaryId) w') :
    wp (appendPair host sessionId tailStartId text) Q
      (Fails fun _ => Incomplete sessionId tailStartId w) w := by
  unfold appendPair
  simp only [wp_bind]
  apply wp_newId
  intro markerId
  apply wp_readClock
  intro markerTime
  have hmid : (compactionMarker markerId markerTime sessionId tailStartId).sessionId =
      sessionId := rfl
  apply wp_onSession
  · intro e
    apply Incomplete.of_apply
    · rintro summary fault ⟨⟩
      rfl
    · simp
    · simp
  intro hmarker
  apply wp_newId
  intro summaryId
  apply wp_readClock
  intro summaryTime
  apply wp_onSession
  · intro e
    -- the marker is there already
    refine .inr ⟨⟨compactionSummary summaryId summaryTime sessionId tailStartId text, e, rfl, ?_⟩,
      markerId, markerTime, ?_⟩
    · simp
    · simp [World.messages_append hmid hmarker]
  intro hsummary
  apply hok markerId markerTime summaryId summaryTime
  · have hsid : (compactionSummary summaryId summaryTime sessionId tailStartId text).sessionId =
        sessionId := rfl
    simp [World.messages_append hsid hsummary, World.messages_append hmid hmarker]
  · refine ⟨_, ?_, by simp only [World.apply_trace, List.append_assoc]; rfl⟩
    simp [Action.asked]

/-- The summary that `compact_impl` reads back before it asks for a new one. -/
def previousSummary (messages : List MessageRecord) : Option String :=
  ((latestCompaction messages).bind MessageRecord.compactionMeta).bind CompactionMeta.summaryText

/-- The request of a compaction is about its head and the summary found in the store. -/
def summaryRequest (model : String) (selection : SelectionResult)
    (messages : List MessageRecord) : ChatRequest :=
  compactionRequest model (buildPrompt selection.head (previousSummary messages))

/-- One request was made, and the pair appended carries the summary. -/
def Summarised (provider : ChatProvider) (model : String) (sessionId : Uuid)
    (selection : SelectionResult) (summaryText : String) (w w' : World) : Prop :=
  (∃ markerId markerTime summaryId summaryTime,
    w'.messages sessionId = w.messages sessionId ++
      [compactionMarker markerId markerTime sessionId selection.boundary,
        compactionSummary summaryId summaryTime sessionId selection.boundary summaryText]) ∧
  ∃ before after, (∀ a ∈ before ++ after, a.asked = none) ∧ w'.trace = w.trace ++ before ++
    .requested provider.id false (summaryRequest model selection (w.messages sessionId)) :: after

/-- A compaction that returns has found an empty head and changed nothing, or has summarised
its head; one that fails has appended the marker at most. -/
theorem wp_compactImpl_summarised (host : Host) (service : CompactionService)
    (messages : List MessageRecord) (provider : ChatProvider) (model : String) (sessionId : Uuid)
    (keep : Option Nat) (w : World) :
    wp (compactImpl host service messages provider model sessionId keep)
      (fun result w' =>
        let selection := select messages service.config.tailTurns
          (keep.getD service.config.keepTokens)
        (selection.head = [] ∧ w' = w) ∨
          Summarised provider model sessionId selection result.summaryText w w')
      (Fails fun _ => Incomplete sessionId (select messages service.config.tailTurns
        (keep.getD service.config.keepTokens)).boundary w) w := by
  unfold compactImpl
  simp only
  split
  · next h => exact .inl ⟨List.isEmpty_iff.mp h, rfl⟩
  · simp only [wp_bind]
    apply wp_onSession
    · intro e
      exact .of_apply (by rintro _ _ ⟨⟩) (by simp) rfl
    intro _
    rw [wp_get]
    apply wp_runCompactionLlm
    swap
    · intro e
      exact .of_apply (by rintro _ _ ⟨⟩) (by simp) (by simp)
    intro text
    apply wp_mono (wp_appendPair ?_) (fun _ _ h => h)
    · rintro e w' h
      cases e with
      | failed e => simpa [Incomplete, SelectionResult.boundary] using h
      | _ => trivial
    rintro markerId markerTime summaryId summaryTime w' hmessages ⟨more, hquiet, htrace⟩
    apply Or.inr
    constructor
    · refine ⟨markerId, markerTime, summaryId, summaryTime, ?_⟩
      simpa [SelectionResult.boundary] using hmessages
    · rw [World.apply_trace, World.apply_trace, List.append_assoc _ _ more,
        World.messages_apply _ _ _ (by simp)] at htrace
      refine ⟨[.session (.getLatestCompaction sessionId) none], more, ?_, htrace⟩
      simpa [Action.asked] using hquiet

/-- A compaction that returns has changed nothing or appended its pair. -/
theorem wp_compactImpl (host : Host) (service : CompactionService) (messages : List MessageRecord)
    (provider : ChatProvider) (model : String) (sessionId : Uuid) (keep : Option Nat) (w : World) :
    wp (compactImpl host service messages provider model sessionId keep)
      (fun _ w' => w' = w ∨
        PairAppended provider model sessionId
          (select messages service.config.tailTurns (keep.getD service.config.keepTokens)) w w')
      (Fails fun _ _ => True) w := by
  apply wp_mono (wp_compactImpl_summarised host service messages provider model sessionId keep w)
  · rintro result w' (⟨_, rfl⟩ | ⟨⟨markerId, markerTime, summaryId, summaryTime, hpair⟩,
      before, after, _, htrace⟩)
    · exact .inl rfl
    · exact .inr ⟨⟨markerId, markerTime, summaryId, summaryTime, _, hpair⟩,
        _, before, after, htrace⟩
  · intro e _ _
    cases e <;> trivial

/-! ### What a compaction performs -/

section Performs

variable {K : Action → Prop} {sessionId : Uuid}

/-- A record written by a compaction. -/
structure CompactionRecord (sessionId : Uuid) (r : MessageRecord) : Prop where
  session : r.sessionId = sessionId
  flagged : r.isOrdinary = false
  noCalls : r.toolCalls = []
  spoken : r.role = .user ∨ r.role = .assistant

/-- The actions of a compaction of the session. -/
structure CompactionActions (sessionId : Uuid) (K : Action → Prop) : Prop where
  drew : K .drew
  latest (fault : Option StorageError) : K (.session (.getLatestCompaction sessionId) fault)
  requested (provider : String) (request : ChatRequest) : K (.requested provider false request)
  written (r : MessageRecord) (fault : Option StorageError) (h : CompactionRecord sessionId r) :
    K (.session (.appendMessage r) fault)

theorem performs_appendPair (hK : CompactionActions sessionId K) (tailStartId : Uuid)
    (text : String) : Performs K (appendPair host sessionId tailStartId text) := by
  apply performs_bind (performs_newId hK.drew)
  intro markerId
  apply performs_bind (performs_readClock hK.drew)
  intro markerTime
  apply performs_bind (performs_onSession fun fault => hK.written _ fault ⟨rfl, rfl, rfl, .inl rfl⟩)
  intro _
  apply performs_bind (performs_newId hK.drew)
  intro summaryId
  apply performs_bind (performs_readClock hK.drew)
  intro summaryTime
  apply performs_bind (performs_onSession fun fault => hK.written _ fault ⟨rfl, rfl, rfl, .inr rfl⟩)
  exact fun _ => performs_pure _

theorem performs_runCompactionLlm (hK : CompactionActions sessionId K) (provider : ChatProvider)
    (model prompt : String) : Performs K (runCompactionLlm host provider model prompt) := by
  apply performs_bind (performs_complete (hK.requested _ _))
  intro reply
  cases reply with
  | error e => exact performs_fail _
  | ok response => exact performs_ite (performs_fail _) (performs_pure _)

theorem performs_compactImpl (hK : CompactionActions sessionId K) (service : CompactionService)
    (messages : List MessageRecord) (provider : ChatProvider) (model : String)
    (keep : Option Nat) :
    Performs K (compactImpl host service messages provider model sessionId keep) := by
  unfold compactImpl
  apply performs_ite (performs_pure _)
  apply performs_bind (performs_onSession hK.latest)
  intro _
  apply performs_bind performs_get
  intro w
  apply performs_bind (performs_runCompactionLlm hK provider model _)
  intro text
  exact performs_bind (performs_appendPair hK _ text) fun _ => performs_pure _

theorem performs_compactIfNeeded (hK : CompactionActions sessionId K) (service : CompactionService)
    (messages : List MessageRecord) (modelContext maxOutput : Nat) :
    Performs K (service.compactIfNeeded host messages modelContext maxOutput sessionId) := by
  unfold compactIfNeeded
  apply performs_ite (performs_pure _)
  cases service.resolveCompactionProvider with
  | error e => exact performs_fail e
  | ok resolved =>
    exact performs_bind (performs_compactImpl hK service messages _ _ _) fun _ => performs_pure _

theorem performs_compactAfterOverflow (hK : CompactionActions sessionId K)
    (service : CompactionService) (messages : List MessageRecord) (modelContext : Nat) :
    Performs K (service.compactAfterOverflow host messages modelContext sessionId) := by
  unfold compactAfterOverflow
  cases service.resolveCompactionProvider with
  | error e => exact performs_fail e
  | ok resolved => exact performs_compactImpl hK service messages _ _ _

end Performs

end Behest.Compaction
