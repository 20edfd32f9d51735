import Behest.Context.Markers

/-!
# The limits of the history

Trimming keeps the longest suffix of the history that fits the token budget. The limit on the
number of messages plays no part in a request.
-/

namespace Behest.Context

open Effect

/-- The longest suffix within a budget, or a single record that exceeds it. -/
structure LongestSuffix (records : List MessageRecord) (maxTokens : Nat)
    (kept : List MessageRecord) : Prop where
  suffix : kept <:+ records
  nonempty : records ≠ [] → kept ≠ []
  fits : estimateRecordsTokens kept ≤ maxTokens ∨ kept.length = 1
  longest : ∀ r, (r :: kept) <:+ records → maxTokens < estimateRecordsTokens (r :: kept)

theorem IsCut.longestSuffix {records : List MessageRecord} {maxTokens n : Nat}
    (h : IsCut records maxTokens n) : LongestSuffix records maxTokens (records.drop n) := by
  have hlt := h.lt
  refine ⟨List.drop_suffix n records, fun _ => ?_, ?_, ?_⟩
  · rw [ne_eq, List.drop_eq_nil_iff]
    omega
  · apply h.fits.imp_right
    intro hlast
    rw [List.length_drop]
    omega
  · intro r hmore
    -- the suffix that is one record longer starts one record earlier
    have heq := List.suffix_iff_eq_drop.mp hmore
    have hle := hmore.length_le
    rw [List.length_cons, List.length_drop] at heq hle
    rw [heq]
    apply h.longest
    omega

/-- **Trimming keeps the longest suffix whose estimate is within the budget, and a last record
that exceeds it alone**. -/
theorem trimByTokens_longestSuffix (records : List MessageRecord) (maxTokens : Nat) :
    LongestSuffix records maxTokens (trimByTokens records maxTokens) := by
  rw [trimByTokens_eq_drop]
  by_cases hempty : records = []
  · subst hempty
    exact ⟨List.drop_suffix _ _, fun h => absurd rfl h, .inl (by simp), by simp⟩
  · exact (isCut_budgetCut hempty maxTokens).longestSuffix

/-- A suffix that fits is no longer than what trimming keeps. -/
theorem length_le_trimByTokens {records kept : List MessageRecord} {maxTokens : Nat}
    (hkept : kept <:+ records) (hfits : estimateRecordsTokens kept ≤ maxTokens) :
    kept.length ≤ (trimByTokens records maxTokens).length := by
  rw [trimByTokens_eq_drop]
  by_cases hempty : records = []
  · subst hempty
    simp [List.suffix_nil.mp hkept]
  have hcut := isCut_budgetCut hempty maxTokens
  rw [List.length_drop]
  by_contra hshort
  have hle := hkept.length_le
  have hover := hcut.longest (records.length - kept.length) (by omega)
  rw [← List.suffix_iff_eq_drop.mp hkept] at hover
  omega

namespace ContextPipeline

variable (pipeline : ContextPipeline)

/-- The stored history after the compaction filter. -/
def filtered (records : List MessageRecord) : List MessageRecord :=
  if pipeline.enableCompactionFilter then applyCompactionFilter Uuid.nil records else records

/-- The messages of a request between the adapters' and the user's. -/
def historyPart (fragments : List Message) (userMessage : Option String)
    (messages : List Message) : List Message :=
  (messages.drop fragments.length).take
    (messages.length - fragments.length - userMessage.toList.length)

/-- Both limits hold of a part of a request that is, up to cache markers, a suffix of the
filtered history. -/
structure HonoursLimits (records : List MessageRecord) (part : List Message) : Prop where
  count : part.length ≤ pipeline.maxHistoryMessages
  suffix : ∃ kept, kept <:+ pipeline.filtered records ∧
    List.Forall₂ Message.MarkedAs (kept.map recordToMessage) part ∧
    (estimateRecordsTokens kept ≤ pipeline.maxHistoryTokens ∨ kept.length = 1)

variable {pipeline}

/-- Between the adapters' messages and the user's stands the trimmed history. -/
theorem historyPart_markedAs {fragments : List Message} {records : List MessageRecord}
    {userMessage : Option String} {messages : List Message}
    (h : List.Forall₂ Message.MarkedAs (pipeline.composed fragments records userMessage)
      messages) :
    List.Forall₂ Message.MarkedAs ((pipeline.history Uuid.nil records).map recordToMessage)
      (historyPart fragments userMessage messages) := by
  have hlength := h.length_eq
  have huser : (userMessage.map Message.userText).toList.length = userMessage.toList.length := by
    cases userMessage <;> rfl
  unfold composed at h hlength
  simp only [List.length_append, huser] at hlength
  have hpart := List.forall₂_take (messages.length - fragments.length - userMessage.toList.length)
    (List.forall₂_drop fragments.length h)
  rwa [List.append_assoc, List.drop_left, List.take_left' (by omega)] at hpart

/-- **The part of a request that comes from the history honours the limits exactly when no
suffix of the filtered history with more messages than allowed fits the token budget: the
limit on the messages is stored and never read**. -/
theorem build_limits_iff (host : Host) (pipeline : ContextPipeline) (sessionId : Uuid)
    (model : String) (userMessage : Option String) (tools : Option (List ToolSpec)) (w w' : World)
    (fragments : List Message) (request : ChatRequest) (hmax : 1 ≤ pipeline.maxHistoryMessages)
    (hfragments : factoryBuild w ⟨userMessage, some (Uuid.display sessionId)⟩ pipeline.adapters =
      .ok fragments)
    (hrun : pipeline.build host sessionId model userMessage tools w = .ok request w') :
    pipeline.HonoursLimits (w.messages sessionId)
        (historyPart fragments userMessage request.messages) ↔
      ∀ kept, kept <:+ pipeline.filtered (w.messages sessionId) →
        pipeline.maxHistoryMessages < kept.length →
        pipeline.maxHistoryTokens < estimateRecordsTokens kept := by
  obtain ⟨fragments', id, hfactory, rfl⟩ := build_ok hrun
  obtain rfl : fragments = fragments' := Except.ok.inj (hfragments.symm.trans hfactory)
  generalize w.messages sessionId = records
  have hpart := historyPart_markedAs
    (pipeline.markedAs_assemble id model fragments records userMessage tools)
  have hlength := hpart.length_eq
  rw [List.length_map] at hlength
  have hlongest := trimByTokens_longestSuffix (pipeline.filtered records) pipeline.maxHistoryTokens
  change LongestSuffix _ _ (pipeline.history Uuid.nil records) at hlongest
  constructor
  · intro hhonours kept hkept hmany
    by_contra hfits
    have hshort := length_le_trimByTokens hkept (Nat.not_lt.mp hfits)
    change _ ≤ (pipeline.history Uuid.nil records).length at hshort
    have hcount := hhonours.count
    omega
  · intro hexceeds
    refine ⟨?_, _, hlongest.suffix, hpart, hlongest.fits⟩
    by_contra hmany
    rw [← hlength, Nat.not_le] at hmany
    have hover := hexceeds _ hlongest.suffix hmany
    rcases hlongest.fits with hfits | hone
    · omega
    · omega

/-- A short history is within the default limits. -/
theorem lookup_within_limits :
    ∃ request w', build .benign .new 7 "m" none none (.ofSession 7 lookup) = .ok request w' ∧
      HonoursLimits .new ((World.ofSession 7 lookup).messages 7)
        (historyPart [] none request.messages) := by
  have hcheck : okAnd (fun _ _ => true) (build .benign .new 7 "m" none none
      (.ofSession 7 lookup)) = true := by decide +kernel
  obtain ⟨request, w', hrun, -⟩ := exists_of_okAnd hcheck
  refine ⟨request, w', hrun, ?_⟩
  apply (build_limits_iff .benign .new 7 "m" none none (.ofSession 7 lookup) w' [] request
    (by decide) rfl hrun).mpr
  intro kept hkept hmany
  have hle := hkept.length_le
  have hfour : (filtered .new ((World.ofSession 7 lookup).messages 7)).length = 4 := by
    decide +kernel
  have hfifty : ContextPipeline.new.maxHistoryMessages = 50 := rfl
  omega

/-- With a limit of one message the request holds the four stored ones. -/
theorem lookup_over_limit :
    ∃ request w', build .benign (withMaxHistory .new 1) 7 "m" none none (.ofSession 7 lookup) =
        .ok request w' ∧
      ¬ HonoursLimits (withMaxHistory .new 1) ((World.ofSession 7 lookup).messages 7)
        (historyPart [] none request.messages) := by
  have hcheck : okAnd (fun request _ => (historyPart [] none request.messages).length == 4)
      (build .benign (withMaxHistory .new 1) 7 "m" none none (.ofSession 7 lookup)) = true := by
    decide +kernel
  obtain ⟨request, w', hrun, hfour⟩ := exists_of_okAnd hcheck
  refine ⟨request, w', hrun, ?_⟩
  intro hhonours
  have hcount := hhonours.count
  rw [beq_iff_eq.mp hfour] at hcount
  exact absurd hcount (by decide)

end ContextPipeline

end Behest.Context
