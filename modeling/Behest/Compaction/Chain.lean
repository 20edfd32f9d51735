import Mathlib.Data.List.Chain
import Behest.Compaction.Conservation

/-!
# Chains of compactions

The life of a session: any number of compactions with any records appended between them.
Compaction is meant to be incremental, each prompt carrying the summary of the compaction
before, so that a record is covered by the head it was summarised in and by the summaries
that follow. The service reads the previous summary back from the newest marker.
-/

namespace Behest.Compaction

open Effect CompactionService

/-- A compaction in the life of a session: the records appended since the compaction before,
the head it summarised, the requests it made and the summary it was given. -/
structure Compacted where
  since : List MessageRecord
  head : List MessageRecord
  requests : List ChatRequest
  summary : String

/-- The life of a session, newest compaction first, with the records appended since. Between
two compactions any records are appended; the histories compacted are whatever the callers
pass. -/
inductive Life (sessionId : Uuid) : List Compacted → List MessageRecord → World → Prop
  | opened (w : World) : Life sessionId [] (w.messages sessionId) w
  | later {cs : List Compacted} {since : List MessageRecord} {w : World}
      (h : Life sessionId cs since w) (more : List MessageRecord) (w' : World)
      (hmore : w'.messages sessionId = w.messages sessionId ++ more) :
      Life sessionId cs (since ++ more) w'
  | compacted {cs : List Compacted} {since : List MessageRecord} {w : World}
      (h : Life sessionId cs since w) {host : Host} {service : CompactionService}
      {messages : List MessageRecord} {provider : ChatProvider} {model : String}
      {keep : Option Nat} {result : CompactionResult} {w' : World} {as : List Action}
      (hrun : compactImpl host service messages provider model sessionId keep w = .ok result w')
      (hhead : (select messages service.config.tailTurns
        (keep.getD service.config.keepTokens)).head ≠ [])
      (htrace : w'.trace = w.trace ++ as) :
      Life sessionId
        (⟨since, (select messages service.config.tailTurns
          (keep.getD service.config.keepTokens)).head, as.filterMap Action.asked,
          result.summaryText⟩ :: cs) [] w'

/-- The compaction asked once, about its head and the summary of the earlier one. -/
def Resumes (later earlier : Compacted) : Prop :=
  ∃ model, later.requests =
    [compactionRequest model (buildPrompt later.head (some earlier.summary))]

/-- The newest record flagged as a compaction since the earlier one carries its summary. -/
def Annotated (later earlier : Compacted) : Prop :=
  previousSummary later.since = some earlier.summary

/-- A record is in the head of the newest compaction, or that compaction resumes from one that
covers it. -/
def Covers (r : MessageRecord) : List Compacted → Prop
  | [] => False
  | [c] => r ∈ c.head
  | c :: e :: earlier => r ∈ c.head ∨ Resumes c e ∧ Covers r (e :: earlier)

/-- Every compaction resumes from the one before, and everything compacted is covered. -/
def Incremental (cs : List Compacted) : Prop :=
  cs.IsChain Resumes ∧ ∀ c ∈ cs, ∀ r ∈ c.head, Covers r cs

/-! ### The chain covers -/

theorem covers_of_head {c : Compacted} {r : MessageRecord} (h : r ∈ c.head)
    (earlier : List Compacted) : Covers r (c :: earlier) := by
  cases earlier with
  | nil => exact h
  | cons e earlier => exact .inl h

theorem covers_of_chain {cs : List Compacted} (h : cs.IsChain Resumes) :
    ∀ c ∈ cs, ∀ r ∈ c.head, Covers r cs := by
  induction cs with
  | nil => simp
  | cons c earlier ih =>
    intro d hd r hr
    rcases List.mem_cons.mp hd with rfl | hd
    · exact covers_of_head hr earlier
    · cases earlier with
      | nil => cases hd
      | cons e earlier =>
        rw [List.isChain_cons_cons] at h
        exact .inr ⟨h.1, ih h.2 d hd r hr⟩

/-! ### The prompt and the marker -/

theorem previousInstruction_none :
    previousInstruction none = "Create a new anchored summary from the conversation below." := rfl

theorem previousInstruction_some : ∃ more, ∀ prev, previousInstruction (some prev) =
    "You are updating an existing summary. " ++ (more ++ prev ++ "\n```") := by
  refine ⟨"Below is the previous summary — keep what is still relevant, " ++
    "update what has changed, and add new information since the last compaction.\n\n" ++
    "## Previous Summary\n```\n", ?_⟩
  intro prev
  rw [← String.append_assoc, ← String.append_assoc, ← String.append_assoc]
  rfl

theorem previousInstruction_inj {previous : Option String} {text : String}
    (h : previousInstruction previous = previousInstruction (some text)) :
    previous = some text := by
  obtain ⟨more, hmore⟩ := previousInstruction_some
  rw [hmore] at h
  cases previous with
  | none =>
    -- the two instructions begin with different letters
    rw [previousInstruction_none] at h
    have hfirst := congrArg (fun s => s.toList.head?) h
    rw [String.toList_append, List.head?_append] at hfirst
    have hnone : ("Create a new anchored summary from the conversation below.").toList.head? =
        some 'C' := by decide +kernel
    have hsome : ("You are updating an existing summary. ").toList.head? = some 'Y' := by
      decide +kernel
    rw [hnone, hsome] at hfirst
    simp at hfirst
  | some prev =>
    rw [hmore, String.append_right_inj, String.append_left_inj, String.append_right_inj] at h
    rw [h]

/-- Prompts about one head differ where the previous summaries do. -/
theorem buildPrompt_inj {head : List MessageRecord} {previous : Option String} {text : String} :
    buildPrompt head previous = buildPrompt head (some text) ↔ previous = some text := by
  constructor
  · intro h
    unfold buildPrompt at h
    rw [String.append_left_inj, String.append_left_inj, String.append_left_inj,
      String.append_right_inj] at h
    exact previousInstruction_inj h
  · rintro rfl
    rfl
theorem compactionRequest_inj {model model' prompt prompt' : String}
    (h : compactionRequest model prompt = compactionRequest model' prompt') : prompt = prompt' := by
  unfold compactionRequest Message.userText ContentPart.ofText at h
  injection h with _ hmessages
  injection hmessages with hmessage
  injection hmessage with hcontent
  injection hcontent with hpart
  injection hpart

/-- Past a pair, the summary read back is what later records carry; the pair's own marker
carries none. -/
theorem previousSummary_pair (before since : List MessageRecord) (markerId markerTime summaryId
    summaryTime : Nat) (sessionId tailStartId : Uuid) (text : String) :
    previousSummary (before ++ [compactionMarker markerId markerTime sessionId tailStartId,
      compactionSummary summaryId summaryTime sessionId tailStartId text] ++ since) =
      previousSummary since := by
  unfold previousSummary latestCompaction
  rw [List.reverse_append, List.find?_append]
  cases hfound : since.reverse.find? MessageRecord.isCompaction with
  | some r => simp
  | none => simp [compactionSummary, compactionMarker, MessageRecord.new, CompactionMeta.new]

/-! ### Lives -/

namespace Life

variable {sessionId : Uuid} {cs : List Compacted} {since : List MessageRecord} {w : World}

/-- The history ends in the pair of the newest compaction and the records appended since. -/
theorem messages_eq {c : Compacted} {earlier : List Compacted}
    (h : Life sessionId (c :: earlier) since w) :
    ∃ before markerId markerTime summaryId summaryTime tailStartId,
      w.messages sessionId = before ++
        [compactionMarker markerId markerTime sessionId tailStartId,
          compactionSummary summaryId summaryTime sessionId tailStartId c.summary] ++ since := by
  generalize hcs : c :: earlier = cs at h
  induction h with
  | opened w => cases hcs
  | later h more w' hmore ih =>
    obtain ⟨before, markerId, markerTime, summaryId, summaryTime, tailStartId, heq⟩ := ih hcs
    exact ⟨before, markerId, markerTime, summaryId, summaryTime, tailStartId,
      by rw [hmore, heq, List.append_assoc]⟩
  | compacted h hrun hhead htrace ih =>
    cases hcs
    rcases wp_ok (wp_compactImpl_summarised ..) hrun with ⟨hempty, _⟩ | ⟨hpair, _⟩
    · exact absurd hempty hhead
    · obtain ⟨markerId, markerTime, summaryId, summaryTime, heq⟩ := hpair
      exact ⟨_, markerId, markerTime, summaryId, summaryTime, _,
        by rw [heq, List.append_nil]⟩

/-- A compaction resumes from the one before exactly when a record appended between them hands
its summary over. -/
theorem resumes_iff {c e : Compacted} {earlier : List Compacted}
    (h : Life sessionId (c :: e :: earlier) since w) : Resumes c e ↔ Annotated c e := by
  generalize hcs : c :: e :: earlier = cs at h
  induction h with
  | opened w => cases hcs
  | later h more w' hmore ih => exact ih hcs
  | @compacted cs since w h host service messages provider model keep result w' as hrun hhead
      htrace ih =>
    cases hcs
    rcases wp_ok (wp_compactImpl_summarised ..) hrun with ⟨hempty, _⟩ | ⟨_, hasked⟩
    · exact absurd hempty hhead
    · obtain ⟨before, after, hquiet, htrace'⟩ := hasked
      have has : as = before ++ .requested provider.id false (summaryRequest model
          (select messages service.config.tailTurns (keep.getD service.config.keepTokens))
          (w.messages sessionId)) :: after := by
        rw [htrace, List.append_assoc] at htrace'
        exact List.append_cancel_left htrace'
      have hnone : ∀ bs : List Action, (∀ a ∈ bs, a.asked = none) →
          bs.filterMap Action.asked = [] := fun bs hbs => List.filterMap_eq_nil_iff.mpr hbs
      obtain ⟨older, markerId, markerTime, summaryId, summaryTime, tailStartId, heq⟩ :=
        h.messages_eq
      have hprevious : previousSummary (w.messages sessionId) = previousSummary since := by
        rw [heq, previousSummary_pair]
      unfold Resumes Annotated
      rw [has, List.filterMap_append, List.filterMap_cons,
        hnone before fun a ha => hquiet a (List.mem_append_left _ ha),
        hnone after fun a ha => hquiet a (List.mem_append_right _ ha)]
      simp only [Action.asked, List.nil_append, summaryRequest, hprevious]
      constructor
      · rintro ⟨model', hmodel⟩
        exact buildPrompt_inj.mp (compactionRequest_inj (List.cons.inj hmodel).1)
      · intro hannotated
        exact ⟨model, by rw [hannotated]⟩

theorem chain_iff (h : Life sessionId cs since w) :
    cs.IsChain Resumes ↔ cs.IsChain Annotated := by
  induction h with
  | opened w => simp
  | later h more w' hmore ih => exact ih
  | @compacted cs since w h host service messages provider model keep result w' as hrun hhead
      htrace ih =>
    cases cs with
    | nil => simp
    | cons e earlier =>
      rw [List.isChain_cons_cons, List.isChain_cons_cons, ih,
        (Life.compacted h hrun hhead htrace).resumes_iff]

/-- **However many compactions a session has seen, each resumes from the summary of the one
before, so that everything compacted is covered, exactly when a record appended between them
hands that summary over**; the marker that the service writes does not. -/
theorem incremental_iff (h : Life sessionId cs since w) :
    Incremental cs ↔ cs.IsChain Annotated := by
  rw [← h.chain_iff]
  constructor
  · exact fun hincremental => hincremental.1
  · exact fun hchain => ⟨hchain, covers_of_chain hchain⟩

/-- Where nothing appended since is flagged as a compaction, the next one does not resume. -/
theorem not_resumes_of_unflagged {c e : Compacted} {earlier : List Compacted}
    (h : Life sessionId (c :: e :: earlier) since w)
    (hunflagged : ∀ r ∈ c.since, ¬ r.isCompaction = true) : ¬ Resumes c e := by
  rw [h.resumes_iff]
  intro hannotated
  have hnone : latestCompaction c.since = none := by
    simpa [latestCompaction, List.find?_eq_none] using hunflagged
  simp [Annotated, previousSummary, hnone] at hannotated

end Life

/-- The three exchanges after their compaction. -/
def exchangesCompacted : List MessageRecord :=
  threeExchanges ++ [compactionMarker 1002 3 7 3, compactionSummary 1005 6 7 3 "done"]

/-- One more exchange. -/
def exchangeAfter : List MessageRecord :=
  [.new 7 7 7 .user [.ofText "ping"], .new 8 8 7 .assistant [.ofText "pong"]]

theorem exchanges_compacted :
    ∃ result w',
      compactImpl .benign ⟨⟨[tersely]⟩, { keepTokens := 36 }⟩ threeExchanges tersely "m" 7 none
        (.ofSession 7 threeExchanges) = .ok result w' ∧
      w'.messages 7 = exchangesCompacted ∧ result.summaryText = "done" :=
  ⟨_, _, rfl, rfl, rfl⟩

/-- The second compaction of a session that has gone on for one exchange is asked to start
over. -/
theorem exchanges_startOver :
    ∃ c e w, Life 7 [c, e] [] w ∧ e.summary = "done" ∧ c.since = exchangeAfter ∧
      ¬ Incremental [c, e] := by
  obtain ⟨result, w, hrun, hmessages, hsummary⟩ := exchanges_compacted
  have hagain : ∃ result w', compactImpl .benign ⟨⟨[tersely]⟩, { keepTokens := 36 }⟩
      (exchangesCompacted ++ exchangeAfter) tersely "m" 7 none
      (.ofSession 7 (exchangesCompacted ++ exchangeAfter)) = .ok result w' := ⟨_, _, rfl⟩
  obtain ⟨result', w', hrun'⟩ := hagain
  have hfirst := Life.compacted (Life.opened (World.ofSession 7 threeExchanges)) hrun (by decide)
    (List.nil_append w.trace).symm
  have hlater :=
    hfirst.later exchangeAfter (World.ofSession 7 (exchangesCompacted ++ exchangeAfter))
    (by rw [hmessages]; rfl)
  have hboth := Life.compacted hlater hrun' (by decide) (List.nil_append w'.trace).symm
  refine ⟨_, _, w', hboth, hsummary, rfl, ?_⟩
  intro hincremental
  apply hboth.not_resumes_of_unflagged _ (List.isChain_cons_cons.mp hincremental.1).1
  simp [exchangeAfter, MessageRecord.new]

/-- A marker that carries the summary itself, which nothing in the repository writes. -/
def annotatedMarker : MessageRecord :=
  { compactionMarker 9 9 7 3 with
    compactionMeta := some ((CompactionMeta.new 3).withSummary "done") }

/-- After a record that hands the summary over, the second compaction resumes. -/
theorem exchanges_resume :
    ∃ c e w, Life 7 [c, e] [] w ∧ e.summary = "done" ∧ Incremental [c, e] := by
  obtain ⟨result, w, hrun, hmessages, hsummary⟩ := exchanges_compacted
  have hagain : ∃ result w', compactImpl .benign ⟨⟨[tersely]⟩, { keepTokens := 36 }⟩
      (exchangesCompacted ++ (annotatedMarker :: exchangeAfter)) tersely "m" 7 none
      (.ofSession 7 (exchangesCompacted ++ (annotatedMarker :: exchangeAfter))) =
        .ok result w' := ⟨_, _, rfl⟩
  obtain ⟨result', w', hrun'⟩ := hagain
  have hfirst := Life.compacted (Life.opened (World.ofSession 7 threeExchanges)) hrun (by decide)
    (List.nil_append w.trace).symm
  have hlater := hfirst.later (annotatedMarker :: exchangeAfter)
    (World.ofSession 7 (exchangesCompacted ++ (annotatedMarker :: exchangeAfter)))
    (by rw [hmessages]; rfl)
  have hboth := Life.compacted hlater hrun' (by decide) (List.nil_append w'.trace).symm
  refine ⟨_, _, w', hboth, hsummary, ?_⟩
  rw [Life.incremental_iff hboth, List.isChain_cons_cons]
  refine ⟨?_, List.isChain_singleton _⟩
  unfold Annotated
  rw [hsummary]
  rfl

end Behest.Compaction
