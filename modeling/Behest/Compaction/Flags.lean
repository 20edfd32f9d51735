import Behest.Compaction.Prune
import Behest.Context.Pairing
import Behest.Store.Pairing

/-!
# One flag, three scans

Pruning flags a tool output as if it were a summary, and three scans read the flag: the next
pruning pass, the search for the latest compaction pair, and the filter of the retained tail.
The first two are not misled on a well-paired history. The last one drops what was pruned
between the boundary of the latest pair and its marker.
-/

namespace Behest.Compaction

open Context

/-! ### A pass as a sweep -/

/-- A pass over the records themselves, last to first. -/
def sweep (stops : MessageRecord → Bool) (skips : Bool) (guarded : Nat) :
    List MessageRecord → List MessageRecord
  | [] => []
  | msg :: rest =>
      if stops msg then msg :: rest
      else if skips && decide (guarded < pruneProtect) then
        msg :: sweep stops skips (guarded + estimateRecordTokens msg) rest
      else if msg.role ≠ .tool then msg :: sweep stops skips guarded rest
      else if isProtectedTool msg then msg :: sweep stops skips guarded rest
      else if msg.isSummary then msg :: sweep stops skips guarded rest
      else if guarded < pruneProtect then
        msg :: sweep stops skips (guarded + estimateRecordTokens msg) rest
      else prunedForm msg :: sweep stops skips guarded rest

theorem zipIdx_reverse_append_singleton (records : List MessageRecord) (r : MessageRecord) :
    (records ++ [r]).zipIdx.reverse = (r, records.length) :: records.zipIdx.reverse := by
  rw [List.zipIdx_append, List.reverse_append]
  simp

theorem collectTargets_lt (stops : MessageRecord → Bool) (skips : Bool) (guarded n : Nat)
    (l : List (MessageRecord × Nat)) (hl : ∀ p ∈ l, p.2 < n) :
    ∀ i ∈ (collectTargets stops skips guarded l).1, i < n := by
  induction l generalizing guarded with
  | nil => simp [collectTargets]
  | cons p rest ih =>
    obtain ⟨msg, j⟩ := p
    have hj : j < n := hl (msg, j) (by simp)
    have hrest := fun guarded => ih guarded fun p hp => hl p (List.mem_cons_of_mem _ hp)
    simp only [collectTargets]
    repeat' split
    all_goals first | exact hrest _ | simp
    exact ⟨hj, hrest guarded⟩

theorem applyTargets_append (targets : List Nat) (records more : List MessageRecord)
    (h : ∀ i ∈ targets, i < records.length) :
    applyTargets targets (records ++ more) = applyTargets targets records ++ more := by
  induction targets generalizing records with
  | nil => rfl
  | cons i rest ih =>
    have hi : i < records.length := h i (by simp)
    have hmodify : (records ++ more).modify i prunedForm = records.modify i prunedForm ++ more := by
      rw [List.modify_eq_take_cons_drop (by rw [List.length_append]; omega),
        List.modify_eq_take_cons_drop hi, List.getElem_append_left hi,
        List.take_append_of_le_length (by omega), List.drop_append_of_le_length (by omega),
        List.append_assoc, List.cons_append]
    show applyTargets rest ((records ++ more).modify i prunedForm) =
      applyTargets rest (records.modify i prunedForm) ++ more
    rw [hmodify]
    apply ih
    intro j hj
    rw [List.length_modify]
    exact h j (List.mem_cons_of_mem i hj)

/-- Pruning the collected indices is the sweep. -/
theorem applyTargets_collectTargets (stops : MessageRecord → Bool) (skips : Bool) (guarded : Nat)
    (records : List MessageRecord) :
    (applyTargets (collectTargets stops skips guarded records.zipIdx.reverse).1 records).reverse =
      sweep stops skips guarded records.reverse := by
  induction records using List.reverseRecOn generalizing guarded with
  | nil => rfl
  | append_singleton records r ih =>
    have hlt : ∀ g, ∀ i ∈ (collectTargets stops skips g records.zipIdx.reverse).1,
        i < records.length := by
      intro g
      apply collectTargets_lt
      intro p hp
      simpa using List.snd_lt_of_mem_zipIdx (List.mem_reverse.mp hp)
    have hkeep : ∀ g, (applyTargets (collectTargets stops skips g records.zipIdx.reverse).1
        (records ++ [r])).reverse = r :: sweep stops skips g records.reverse := by
      intro g
      rw [applyTargets_append _ _ _ (hlt g), List.reverse_append, ih]
      rfl
    rw [zipIdx_reverse_append_singleton, List.reverse_append]
    simp only [collectTargets, List.reverse_singleton, List.singleton_append, sweep]
    split
    · simp [applyTargets]
    · split
      · exact hkeep _
      · split
        · exact hkeep _
        · split
          · exact hkeep _
          · split
            · exact hkeep _
            · split
              · exact hkeep _
              · have hmodify : (records ++ [r]).modify records.length prunedForm =
                    records ++ [prunedForm r] := by
                  rw [List.modify_eq_take_cons_drop (by simp)]
                  simp
                show (applyTargets _ ((records ++ [r]).modify records.length
                  prunedForm)).reverse = _
                rw [hmodify, applyTargets_append _ _ _ (hlt guarded), List.reverse_append, ih]
                rfl

/-! ### The next pass -/

/-- A tool output that has been pruned. -/
def isPruned (r : MessageRecord) : Bool := r.isSummary && decide (r.role = .tool)

/-- A summary that is not a pruned tool output. -/
def summarises (r : MessageRecord) : Bool := r.isSummary && !decide (r.role = .tool)

/-- A tool output that a pass may prune. -/
def isPrunable (r : MessageRecord) : Bool :=
  decide (r.role = .tool) && !isProtectedTool r && !r.isSummary

/-- Last to first, nothing prunable stands behind a pruned record with no summary in between;
`seen` says that a pruned record has been seen since the last summary. -/
def Shielded (seen : Bool) : List MessageRecord → Prop
  | [] => True
  | r :: rest =>
      if summarises r then Shielded false rest
      else if isPruned r then Shielded true rest
      else (seen = true → isPrunable r = false) ∧ Shielded seen rest

section Shielded

variable {seen : Bool} {r : MessageRecord} {rest : List MessageRecord}

theorem shielded_cons_summary (hs : summarises r = true) :
    Shielded seen (r :: rest) ↔ Shielded false rest := by
  simp [Shielded, hs]

theorem shielded_cons_pruned (hs : summarises r = false) (hp : isPruned r = true) :
    Shielded seen (r :: rest) ↔ Shielded true rest := by
  simp [Shielded, hs, hp]

theorem shielded_cons_plain (hplain : r.isSummary = false) :
    Shielded seen (r :: rest) ↔ (seen = true → isPrunable r = false) ∧ Shielded seen rest := by
  simp [Shielded, summarises, isPruned, hplain]

theorem summarises_or_isPruned (h : r.isSummary = true) :
    summarises r = true ∨ summarises r = false ∧ isPruned r = true := by
  by_cases hrole : r.role = .tool <;> simp [summarises, isPruned, h, hrole]

theorem Shielded.forget {l : List MessageRecord} (h : Shielded seen l) : Shielded false l := by
  induction l generalizing seen with
  | nil => trivial
  | cons r rest ih =>
    by_cases hsummary : r.isSummary = true
    · rcases summarises_or_isPruned hsummary with hs | ⟨hs, hp⟩
      · rwa [shielded_cons_summary hs] at h ⊢
      · rwa [shielded_cons_pruned hs hp] at h ⊢
    · rw [Bool.not_eq_true] at hsummary
      rw [shielded_cons_plain hsummary] at h ⊢
      exact ⟨by simp, ih h.2⟩

end Shielded

theorem isPruned_prunedForm {r : MessageRecord} (h : r.role = .tool) :
    isPruned (prunedForm r) = true := by
  simp [isPruned, prunedForm, h]

theorem summarises_prunedForm {r : MessageRecord} (h : r.role = .tool) :
    summarises (prunedForm r) = false := by
  simp [summarises, prunedForm, h]

/-- A pass leaves nothing prunable behind what it prunes. -/
theorem shielded_sweep {skips : Bool} {l : List MessageRecord} (guarded : Nat)
    (h : Shielded false l) :
    Shielded (decide (pruneProtect ≤ guarded)) (sweep MessageRecord.isSummary skips guarded l) := by
  induction l generalizing guarded with
  | nil => trivial
  | cons r rest ih =>
    by_cases hsummary : r.isSummary = true
    · rw [sweep, if_pos hsummary]
      rcases summarises_or_isPruned hsummary with hs | ⟨hs, hp⟩
      · rwa [shielded_cons_summary hs] at h ⊢
      · rwa [shielded_cons_pruned hs hp] at h ⊢
    · rw [Bool.not_eq_true] at hsummary
      have hrest : Shielded false rest := ((shielded_cons_plain hsummary).mp h).2
      -- a record that is kept may not be prunable once the guard is spent
      have hkeep : ∀ g, (pruneProtect ≤ guarded → isPrunable r = false ∧ g = guarded) →
          Shielded (decide (pruneProtect ≤ guarded))
            (r :: sweep MessageRecord.isSummary skips g rest) := by
        intro g hg
        rw [shielded_cons_plain hsummary]
        by_cases hspent : pruneProtect ≤ guarded
        · obtain ⟨hnot, rfl⟩ := hg hspent
          exact ⟨fun _ => hnot, ih _ hrest⟩
        · rw [decide_eq_false hspent]
          exact ⟨by simp, (ih g hrest).forget⟩
      rw [sweep, if_neg (by simp [hsummary])]
      split
      · next hskip =>
        apply hkeep
        simp at hskip
        omega
      · split
        · next hrole => exact hkeep _ fun _ => ⟨by simp [isPrunable, hrole], rfl⟩
        · next hrole =>
          rw [Decidable.not_not] at hrole
          split
          · next htool => exact hkeep _ fun _ => ⟨by simp [isPrunable, htool], rfl⟩
          · rw [if_neg (by simp [hsummary])]
            split
            · next hguard =>
              apply hkeep
              omega
            · next hguard =>
              rw [shielded_cons_pruned (summarises_prunedForm hrole) (isPruned_prunedForm hrole)]
              have := ih guarded hrest
              rwa [decide_eq_true (by omega)] at this

/-- Behind a pruned record a pass that goes on finds nothing more. -/
theorem collectTargets_of_shielded {skips : Bool} (guarded : Nat) (l : List (MessageRecord × Nat))
    (h : Shielded true (l.map Prod.fst)) :
    collectTargets summarises skips guarded l = ([], 0) := by
  induction l generalizing guarded with
  | nil => rfl
  | cons p rest ih =>
    obtain ⟨r, i⟩ := p
    rw [List.map_cons] at h
    by_cases hs : summarises r = true
    · rw [collectTargets, if_pos hs]
    · rw [Bool.not_eq_true] at hs
      rw [collectTargets, if_neg (by simp [hs])]
      by_cases hsummary : r.isSummary = true
      · have hp := (summarises_or_isPruned hsummary).resolve_left (by simp [hs])
        have hrest := (shielded_cons_pruned hs hp.2).mp h
        simp only [ih _ hrest, hsummary, if_true, ite_self]
      · rw [Bool.not_eq_true] at hsummary
        obtain ⟨hnot, hrest⟩ := (shielded_cons_plain hsummary).mp h
        have hnot := hnot rfl
        simp only [isPrunable, hsummary, Bool.not_false, Bool.and_true, Bool.and_eq_false_iff,
          decide_eq_false_iff_not, Bool.not_eq_false'] at hnot
        simp only [ih _ hrest, hsummary, Bool.false_eq_true, if_false]
        split
        · rfl
        · split
          · rfl
          · next hrole =>
            rw [if_pos (hnot.resolve_left hrole)]

/-- A pass stops at a pruned record only where going on would find nothing. -/
theorem collectTargets_eq {skips : Bool} (guarded : Nat) (l : List (MessageRecord × Nat))
    (h : Shielded false (l.map Prod.fst)) :
    collectTargets MessageRecord.isSummary skips guarded l =
      collectTargets summarises skips guarded l := by
  induction l generalizing guarded with
  | nil => rfl
  | cons p rest ih =>
    obtain ⟨r, i⟩ := p
    rw [List.map_cons] at h
    by_cases hsummary : r.isSummary = true
    · rcases summarises_or_isPruned hsummary with hs | ⟨hs, hp⟩
      · rw [collectTargets, collectTargets, if_pos hsummary, if_pos hs]
      · have hrest := (shielded_cons_pruned hs hp).mp h
        rw [collectTargets, if_pos hsummary]
        exact (collectTargets_of_shielded guarded ((r, i) :: rest)
          (by rwa [List.map_cons, shielded_cons_pruned hs hp])).symm
    · rw [Bool.not_eq_true] at hsummary
      have hs : summarises r = false := by simp [summarises, hsummary]
      have hrest := ((shielded_cons_plain hsummary).mp h).2
      simp only [collectTargets, hsummary, hs, Bool.false_eq_true, if_false, ih _ hrest]

/-- **A pass stops at a pruned record only where going on would find nothing**. -/
theorem pruneToolOutputs_eq {messages : List MessageRecord} (h : Shielded false messages.reverse)
    (skipTurns : Nat) : pruneToolOutputs messages skipTurns =
      prunePass summarises messages skipTurns := by
  have hcollect : ∀ skips, collectTargets MessageRecord.isSummary skips 0
      messages.zipIdx.reverse = collectTargets summarises skips 0 messages.zipIdx.reverse := by
    intro skips
    apply collectTargets_eq
    rwa [List.map_reverse, List.zipIdx_map_fst]
  unfold pruneToolOutputs prunePass
  simp only [hcollect]

theorem pruneToolOutputs_snd (messages : List MessageRecord) (skipTurns : Nat) :
    (pruneToolOutputs messages skipTurns).2 = messages ∨ ∃ skips,
      (pruneToolOutputs messages skipTurns).2.reverse =
        sweep MessageRecord.isSummary skips 0 messages.reverse := by
  unfold pruneToolOutputs prunePass
  split
  · exact .inl rfl
  · simp only
    split
    · exact .inl rfl
    · exact .inr ⟨_, applyTargets_collectTargets ..⟩

/-! ### Histories with pruned records -/

/-- A record or its pruned form. -/
def Cleared (r r' : MessageRecord) : Prop := r' = r ∨ r.role = .tool ∧ r' = prunedForm r

theorem cleared_sweep {skips : Bool} {guarded : Nat} {l l' : List MessageRecord}
    (h : List.Forall₂ Cleared l l') :
    List.Forall₂ Cleared l (sweep MessageRecord.isSummary skips guarded l') := by
  induction h generalizing guarded with
  | nil => exact .nil
  | @cons r r' rest rest' hr hrest ih =>
    have hkeep : ∀ g, List.Forall₂ Cleared (r :: rest)
        (r' :: sweep MessageRecord.isSummary skips g rest') := fun g => .cons hr ih
    rw [sweep]
    by_cases hsummary : r'.isSummary = true
    · rw [if_pos hsummary]
      exact .cons hr hrest
    · rw [if_neg hsummary, if_neg hsummary]
      split
      · exact hkeep _
      · split
        · exact hkeep _
        · next hrole =>
          split
          · exact hkeep _
          · split
            · exact hkeep _
            · rcases hr with rfl | ⟨htool, rfl⟩
              · exact .cons (.inr ⟨by simpa using hrole, rfl⟩) ih
              · exact absurd rfl hsummary

/-- The histories that messages, compaction pairs and pruning passes lead to, beside the same
histories without pruning. -/
inductive Reached : List MessageRecord → List MessageRecord → Prop
  | start : Reached [] []
  | message {original current : List MessageRecord} (h : Reached original current) {id : Uuid}
      (hid : id ∉ original.map MessageRecord.id) (hnil : id ≠ Uuid.nil) (createdAt : Nat)
      (sessionId : Uuid) (message : Message) :
      Reached (original ++ [messageToRecord id createdAt sessionId message])
        (current ++ [messageToRecord id createdAt sessionId message])
  | pair {original current : List MessageRecord} (h : Reached original current)
      (hne : original ≠ []) {markerId summaryId : Uuid}
      (hmarker : markerId ∉ original.map MessageRecord.id)
      (hsummary : summaryId ∉ original.map MessageRecord.id) (hdistinct : summaryId ≠ markerId)
      (hmarkerNil : markerId ≠ Uuid.nil) (hsummaryNil : summaryId ≠ Uuid.nil)
      (markerTime summaryTime : Nat) (sessionId tailStartId : Uuid) (text : String) :
      Reached (original ++ [compactionMarker markerId markerTime sessionId tailStartId,
          compactionSummary summaryId summaryTime sessionId tailStartId text])
        (current ++ [compactionMarker markerId markerTime sessionId tailStartId,
          compactionSummary summaryId summaryTime sessionId tailStartId text])
  | pruned {original current : List MessageRecord} (h : Reached original current)
      (skipTurns : Nat) : Reached original (pruneToolOutputs current skipTurns).2

namespace Reached

variable {original current : List MessageRecord}

theorem written (h : Reached original current) : Written original := by
  induction h with
  | start => exact .start
  | message h hid hnil createdAt sessionId message ih => exact .message ih hid hnil ..
  | pair h hne hmarker hsummary hdistinct hmarkerNil hsummaryNil _ _ _ _ _ ih =>
    exact .pair ih hne hmarker hsummary hdistinct hmarkerNil hsummaryNil ..
  | pruned h skipTurns ih => exact ih

/-- Record by record, the current history is the original one or its pruned form. -/
theorem cleared (h : Reached original current) : List.Forall₂ Cleared original current := by
  induction h with
  | start => exact .nil
  | message h hid hnil createdAt sessionId message ih =>
    exact List.rel_append ih (.cons (.inl rfl) .nil)
  | pair h hne hmarker hsummary hdistinct hmarkerNil hsummaryNil _ _ _ _ _ ih =>
    exact List.rel_append ih (.cons (.inl rfl) (.cons (.inl rfl) .nil))
  | @pruned original current h skipTurns ih =>
    rcases pruneToolOutputs_snd current skipTurns with heq | ⟨skips, heq⟩
    · rwa [heq]
    · rw [← List.forall₂_reverse_iff, heq]
      exact cleared_sweep (List.forall₂_reverse_iff.mpr ih)

/-- No prunable record stands behind a pruned one with no summary in between. -/
theorem shielded (h : Reached original current) : Shielded false current.reverse := by
  induction h with
  | start => trivial
  | message h hid hnil createdAt sessionId message ih =>
    rw [List.reverse_append, List.reverse_singleton, List.singleton_append, shielded_cons_plain]
    · exact ⟨by simp, ih⟩
    · cases message <;> rfl
  | pair h hne hmarker hsummary hdistinct hmarkerNil hsummaryNil _ _ _ _ _ ih =>
    rw [List.reverse_append]
    show Shielded false (compactionSummary .. :: compactionMarker .. :: _)
    rw [shielded_cons_summary rfl, shielded_cons_plain rfl]
    exact ⟨by simp, ih⟩
  | @pruned original current h skipTurns ih =>
    rcases pruneToolOutputs_snd current skipTurns with heq | ⟨skips, heq⟩
    · rwa [heq]
    · rw [heq]
      exact (shielded_sweep 0 ih).forget

end Reached

/-! ### The search for the latest pair -/

/-- After the latest pair everything is ordinary. -/
theorem Written.layout {records : List MessageRecord} (h : Written records) :
    (∀ r ∈ records, r.isOrdinary = true) ∨
      ∃ front markerId markerTime summaryId summaryTime sessionId tailStartId text back,
        records = front ++ [compactionMarker markerId markerTime sessionId tailStartId,
          compactionSummary summaryId summaryTime sessionId tailStartId text] ++ back ∧
        ∀ r ∈ back, r.isOrdinary = true := by
  induction h with
  | start => exact .inl (by simp)
  | @message messages _ id hid hnil createdAt sessionId message ih =>
    have hordinary := isOrdinary_messageToRecord id createdAt sessionId message
    rcases ih with hall | ⟨front, markerId, markerTime, summaryId, summaryTime, sessionId',
      tailStartId, text, back, rfl, hback⟩
    · left
      intro r hr
      rcases List.mem_append.mp hr with hr | hr
      · exact hall r hr
      · rwa [List.mem_singleton.mp hr]
    · refine .inr ⟨front, markerId, markerTime, summaryId, summaryTime, sessionId', tailStartId,
        text, back ++ [messageToRecord id createdAt sessionId message],
        List.append_assoc _ _ _, ?_⟩
      intro r hr
      rcases List.mem_append.mp hr with hr | hr
      · exact hback r hr
      · rwa [List.mem_singleton.mp hr]
  | pair => exact .inr ⟨_, _, _, _, _, _, _, _, [], (List.append_nil _).symm, by simp⟩

theorem forall₂_append {α β : Type} {R : α → β → Prop} {l₁ l₂ : List α} {l : List β}
    (h : List.Forall₂ R (l₁ ++ l₂) l) :
    ∃ l₁' l₂', l = l₁' ++ l₂' ∧ List.Forall₂ R l₁ l₁' ∧ List.Forall₂ R l₂ l₂' := by
  induction l₁ generalizing l with
  | nil => exact ⟨[], l, rfl, .nil, h⟩
  | cons a rest ih =>
    rw [List.cons_append, List.forall₂_cons_left_iff] at h
    obtain ⟨b, l', hab, hrest, rfl⟩ := h
    obtain ⟨l₁', l₂', rfl, h₁, h₂⟩ := ih hrest
    exact ⟨b :: l₁', l₂', rfl, .cons hab h₁, h₂⟩

/-- Well-paired records after a history do not change which pair is the latest, pruned or not:
the search forgets a pruned record when it comes to the calls it answers. -/
theorem latestPair_append_cleared (records : List MessageRecord) {back back' : List MessageRecord}
    {pending : List String} (hback : ∀ r ∈ back, r.isOrdinary = true)
    (hpaired : openCalls [] back = some pending) (hcleared : List.Forall₂ Cleared back back') :
    latestPair none (records ++ back').zipIdx.reverse = latestPair none records.zipIdx.reverse ∧
      (pending ≠ [] → ∀ s, latestPair (some s) (records ++ back').zipIdx.reverse =
        latestPair none records.zipIdx.reverse) := by
  induction back using List.reverseRecOn generalizing back' pending with
  | nil =>
    obtain rfl := List.forall₂_nil_left_iff.mp hcleared
    rw [List.append_nil]
    refine ⟨rfl, fun hpending => ?_⟩
    exact absurd (Option.some.inj hpaired).symm hpending
  | append_singleton back r ih =>
    obtain ⟨rest, last, rfl, hrest, hlast'⟩ := forall₂_append hcleared
    obtain ⟨r', hr, rfl⟩ : ∃ r', Cleared r r' ∧ last = [r'] := by
      obtain ⟨r', _, hr, hnil, rfl⟩ := List.forall₂_cons_left_iff.mp hlast'
      exact ⟨r', hr, by rw [List.forall₂_nil_left_iff.mp hnil]⟩
    rw [openCalls_append, Option.bind_eq_some_iff] at hpaired
    obtain ⟨before, hbefore, hlast⟩ := hpaired
    obtain ⟨hnone, hsome⟩ := ih (fun a ha => hback a (by simp [ha])) hbefore hrest
    have hordinary := hback r (by simp)
    simp only [MessageRecord.isOrdinary, Bool.and_eq_true, Bool.not_eq_true'] at hordinary
    rw [← List.append_assoc, zipIdx_reverse_append_singleton]
    rcases hr with rfl | ⟨htool, rfl⟩
    · simp [latestPair, hordinary.1, hordinary.2, hnone]
    · have hopen := ne_nil_of_openCalls_tool htool hlast
      simp [latestPair, prunedForm, hordinary.1, hsome hopen]

/-! ### The three scans together -/

/-- The index lies between the boundary of the latest pair and its marker. -/
def InTail (records : List MessageRecord) (i : Nat) : Prop :=
  ∃ c s tailStart t, latestRetention records = some (c, s, tailStart) ∧
    records.findIdx? (fun r => r.id == tailStart) = some t ∧ t ≤ i ∧ i < c

/-- The index lies in the retained part: in the tail of the latest pair or after the pair. -/
def IsRetained (records : List MessageRecord) (i : Nat) : Prop :=
  ∀ c s tailStart, latestRetention records = some (c, s, tailStart) → InTail records i ∨ s < i

/-- Pruning composes with what reads the history: each pruned output in the retained part
becomes one tool message under its own call and name, none is taken for the summary of a pair,
and none keeps a later pass from what it would prune. -/
structure Composes (checkpointId : Uuid) (original current : List MessageRecord) : Prop where
  kept : ∀ i r r', original[i]? = some r → current[i]? = some r' → isPruned r' = true →
    IsRetained original i →
    ((applyCompactionFilter checkpointId current).filter fun x =>
      decide (x.role = .tool) && x.id == r.id).map recordToMessage =
        [.tool (r.toolCallId.getD "") (r.toolName.getD "") [.ofText prunedPlaceholder]]
  notTaken : ∀ c s r', latestPair none current.zipIdx.reverse = some (c, s) →
    current[s]? = some r' → isPruned r' = false
  passed : ∀ skipTurns, pruneToolOutputs current skipTurns =
    prunePass summarises current skipTurns

theorem map_id_of_cleared {original current : List MessageRecord}
    (h : List.Forall₂ Cleared original current) :
    current.map MessageRecord.id = original.map MessageRecord.id := by
  induction h with
  | nil => rfl
  | cons hr _ ih =>
    rw [List.map_cons, List.map_cons, ih]
    rcases hr with rfl | ⟨_, rfl⟩ <;> rfl

/-- A tool record is found by its identifier. -/
theorem filter_tool {records : List MessageRecord} (hids : (records.map MessageRecord.id).Nodup)
    {r : MessageRecord} (hr : r ∈ records) (hrole : r.role = .tool) :
    records.filter (fun x => decide (x.role = .tool) && x.id == r.id) = [r] := by
  induction records with
  | nil => cases hr
  | cons a rest ih =>
    rw [List.map_cons, List.nodup_cons] at hids
    rcases List.mem_cons.mp hr with rfl | hr
    · have hnone : rest.filter (fun x => decide (x.role = .tool) && x.id == r.id) = [] := by
        rw [List.filter_eq_nil_iff]
        intro x hx
        have hne : x.id ≠ r.id := fun heq => hids.1 (heq ▸ List.mem_map_of_mem hx)
        simp [hne]
      simp [hrole, hnone]
    · have hne : a.id ≠ r.id := fun heq => hids.1 (heq ▸ List.mem_map_of_mem hr)
      rw [List.filter_cons_of_neg (by simp [hne]), ih hids.2 hr]

theorem retainedTail_eq (records : List MessageRecord) (tailStart : Uuid) (c : Nat) :
    retainedTail records tailStart c = [] ∨ ∃ t,
      records.findIdx? (fun r => r.id == tailStart) = some t ∧
      retainedTail records tailStart c =
        ((records.take c).drop t).filter MessageRecord.isOrdinary := by
  unfold retainedTail
  cases hfound : records.findIdx? fun r => r.id == tailStart with
  | none => exact .inl rfl
  | some t => exact .inr ⟨t, rfl, by rw [List.drop_take]⟩

theorem cleared_refl (records : List MessageRecord) : List.Forall₂ Cleared records records :=
  List.forall₂_same.mpr fun _ _ => .inl rfl

/-- Where the first record after a pair is ordinary, the filter keeps all that follows. -/
theorem compactEnd_eq {records back : List MessageRecord} {s : Nat}
    (hdrop : records.drop (s + 1) = back)
    (hfirst : ∀ r, back.head? = some r → r.isOrdinary = true) :
    records.drop (compactEnd records s) = back := by
  unfold compactEnd
  rw [hdrop]
  cases back with
  | nil => simp
  | cons r rest =>
    rw [List.findIdx?_cons, hfirst r rfl]
    simpa using hdrop

/-- What the scans make of a reached history: they find the pair of the unpruned history, or
none. -/
theorem Reached.view {original current : List MessageRecord} (h : Reached original current)
    (hpaired : Paired original) (checkpointId : Uuid) :
    (latestRetention original = none ∧ latestPair none current.zipIdx.reverse = none ∧
      applyCompactionFilter checkpointId current = current) ∨
    ∃ c tailStart marker summary, latestRetention original = some (c, c + 1, tailStart) ∧
      latestPair none current.zipIdx.reverse = some (c, c + 1) ∧
      current[c + 1]? = some summary ∧ summary.role = .assistant ∧
      applyCompactionFilter checkpointId current = checkpointOf checkpointId marker summary ++
        retainedTail current tailStart c ++ current.drop (c + 2) := by
  have hcleared := h.cleared
  rcases h.written.layout with hall | ⟨front, markerId, markerTime, summaryId, summaryTime,
    sessionId, tailStartId, text, back, rfl, hback⟩
  · left
    have horiginal := (latestPair_append_cleared [] hall hpaired (cleared_refl original)).1
    have hcurrent := (latestPair_append_cleared [] hall hpaired hcleared).1
    rw [List.nil_append] at horiginal hcurrent
    have hnone : latestPair none ([] : List MessageRecord).zipIdx.reverse = none := rfl
    refine ⟨by rw [latestRetention, horiginal, hnone]; rfl, by rw [hcurrent, hnone], ?_⟩
    rw [applyCompactionFilter, hcurrent, hnone]
  · right
    have hmarkerRole : ∀ r', Cleared (compactionMarker markerId markerTime sessionId tailStartId)
        r' → r' = compactionMarker markerId markerTime sessionId tailStartId := by
      rintro r' (rfl | ⟨⟨⟩, _⟩)
      rfl
    have hsummaryRole : ∀ r', Cleared (compactionSummary summaryId summaryTime sessionId
        tailStartId text) r' →
        r' = compactionSummary summaryId summaryTime sessionId tailStartId text := by
      rintro r' (rfl | ⟨⟨⟩, _⟩)
      rfl
    generalize hmarker : compactionMarker markerId markerTime sessionId tailStartId = marker at *
    generalize hsummary : compactionSummary summaryId summaryTime sessionId tailStartId text =
      summary at *
    have hc : marker.isCompaction = true := by rw [← hmarker]; rfl
    have hs : summary.isSummary = true := by rw [← hsummary]; rfl
    have hstart : marker.compactionMeta.bind CompactionMeta.tailStartId = some tailStartId := by
      rw [← hmarker]; rfl
    obtain ⟨others, back', rfl, hothers, hback'⟩ := forall₂_append hcleared
    obtain ⟨front', pair', rfl, hfront, hpair⟩ := forall₂_append hothers
    obtain rfl : pair' = [marker, summary] := by
      obtain ⟨m', more, hm, hmore, rfl⟩ := List.forall₂_cons_left_iff.mp hpair
      obtain ⟨s', rest, hs', hrest, rfl⟩ := List.forall₂_cons_left_iff.mp hmore
      rw [hmarkerRole m' hm, hsummaryRole s' hs', List.forall₂_nil_left_iff.mp hrest]
    have hopen : openCalls [] back = some [] := by
      unfold Paired at hpaired
      rw [openCalls_append, openCalls_append, Option.bind_eq_some_iff] at hpaired
      obtain ⟨between, hbetween, hlast⟩ := hpaired
      rw [Option.bind_eq_some_iff] at hbetween
      obtain ⟨before, -, hscan⟩ := hbetween
      have hmarkerRole : marker.role = .user := by rw [← hmarker]; rfl
      have hsummaryRole : summary.role = .assistant := by rw [← hsummary]; rfl
      have hcalls : summary.toolCalls = [] := by rw [← hsummary]; rfl
      by_cases hbefore : before = []
      · simp only [openCalls, hmarkerRole, hsummaryRole, hcalls, hbefore, if_true,
          List.map_nil, Option.some.injEq] at hscan
        rwa [← hscan] at hlast
      · simp [openCalls, hmarkerRole, hbefore] at hscan
    have horiginal := (latestPair_append_cleared (front ++ [marker, summary]) hback hopen
      (cleared_refl back)).1
    have hcurrent := (latestPair_append_cleared (front' ++ [marker, summary]) hback hopen hback').1
    rw [latestPair_append_pair _ hc hs] at horiginal hcurrent
    have hlength : front'.length = front.length := hfront.length_eq.symm
    rw [hlength] at hcurrent
    refine ⟨front.length, tailStartId, marker, summary, ?_, hcurrent, ?_, ?_, ?_⟩
    · have hat : (front ++ [marker, summary] ++ back)[front.length]? = some marker := by simp
      simp only [latestRetention, horiginal, Option.bind_some, hat, hstart, Option.map_some]
    · rw [← hlength]
      simp
    · rw [← hsummary]
      rfl
    · have hat : (front' ++ [marker, summary] ++ back')[front.length]? = some marker := by
        rw [← hlength]
        simp
      have hat' : (front' ++ [marker, summary] ++ back')[front.length + 1]? = some summary := by
        rw [← hlength]
        simp
      have hdrop : (front' ++ [marker, summary] ++ back').drop (front.length + 2) = back' := by
        rw [← hlength]
        simp
      rw [applyCompactionFilter, hcurrent]
      simp only [filterAt, hat, hat', hstart]
      rw [hdrop, compactEnd_eq hdrop]
      -- no call is open after the summary, so the next record is no tool output
      intro r' hr'
      cases hback' with
      | nil => cases hr'
      | @cons r _ rest _ hr _ =>
        obtain rfl := Option.some.inj hr'
        rcases hr with rfl | ⟨htool, -⟩
        · exact hback _ (by simp)
        · exact absurd rfl (ne_nil_of_openCalls_tool htool hopen)

theorem getElem?_of_cleared {original current : List MessageRecord}
    (h : List.Forall₂ Cleared original current) {i : Nat} {r' : MessageRecord}
    (hr' : current[i]? = some r') : ∃ r, original[i]? = some r ∧ Cleared r r' := by
  induction h generalizing i with
  | nil => simp at hr'
  | @cons r _ _ _ hr _ ih =>
    cases i with
    | zero => exact ⟨r, rfl, by simpa [← Option.some.inj hr'] using hr⟩
    | succ i => exact ih hr'

section View

variable {original current : List MessageRecord} (h : Reached original current)
include h

theorem nodup_current : (current.map MessageRecord.id).Nodup := by
  rw [map_id_of_cleared h.cleared]
  exact h.written.stored.ids

/-- A pruned record is the pruned form of a tool record that is no summary. -/
theorem eq_prunedForm {i : Nat} {r r' : MessageRecord} (hr : original[i]? = some r)
    (hr' : current[i]? = some r') (hpruned : isPruned r' = true) :
    r.role = .tool ∧ r' = prunedForm r := by
  obtain ⟨r₀, hr₀, hcleared⟩ := getElem?_of_cleared h.cleared hr'
  obtain rfl : r₀ = r := Option.some.inj (hr₀.symm.trans hr)
  rcases hcleared with rfl | hform
  · simp only [isPruned, Bool.and_eq_true, decide_eq_true_eq] at hpruned
    have := h.written.stored.summaries _ (List.mem_of_getElem? hr) hpruned.1
    rw [hpruned.2] at this
    cases this
  · exact hform

end View

section Composition

variable {original current : List MessageRecord} (h : Reached original current)
  (hpaired : Paired original) {checkpointId : Uuid}
include h hpaired

/-- What was pruned in the tail of the latest pair is dropped. -/
theorem not_inTail_of_composes (hcomposes : Composes checkpointId original current) {i : Nat}
    {r' : MessageRecord} (hr' : current[i]? = some r') (hpruned : isPruned r' = true) :
    ¬ InTail original i := by
  have hids := nodup_current h
  have hview := h.view hpaired checkpointId
  intro htail
  obtain ⟨r, hr, -⟩ := getElem?_of_cleared h.cleared hr'
  obtain ⟨htool, rfl⟩ := eq_prunedForm h hr hr' hpruned
  have hkept := hcomposes.kept i r _ hr hr' hpruned fun _ _ _ _ => .inl htail
  obtain ⟨c, s, tailStart, t, hlatest, -, -, hlt⟩ := htail
  rcases hview with ⟨hnone, -⟩ | ⟨c', tailStart', marker, summary, hlatest', -, -, -, hfilter⟩
  · rw [hnone] at hlatest
    cases hlatest
  · obtain ⟨rfl, -⟩ := Prod.mk.inj (Option.some.inj (hlatest'.symm.trans hlatest))
    have hmessage := List.mem_singleton_self (Message.tool (r.toolCallId.getD "")
      (r.toolName.getD "") [.ofText prunedPlaceholder])
    rw [← hkept] at hmessage
    obtain ⟨x, hx, -⟩ := List.mem_map.mp hmessage
    rw [List.mem_filter, hfilter] at hx
    simp only [Bool.and_eq_true, decide_eq_true_eq, beq_iff_eq] at hx
    obtain ⟨hx, hrole, hid⟩ := hx
    have hindex : ∀ j, current[j]? = some x → j = i := fun j hj => index_unique hids hj hr' hid
    rw [List.mem_append, List.mem_append] at hx
    rcases hx with (hx | hx) | hx
    · unfold checkpointOf at hx
      split at hx
      · rw [List.mem_singleton.mp hx] at hrole
        cases hrole
      · cases hx
    · -- the tail holds ordinary records only
      rcases retainedTail_eq current tailStart' c' with htail | ⟨t', -, htail⟩
      · rw [htail] at hx
        cases hx
      · rw [htail, List.mem_filter] at hx
        obtain ⟨j, hj⟩ := List.mem_iff_getElem?.mp
          (List.mem_of_mem_take (List.mem_of_mem_drop hx.1))
        obtain rfl := hindex j hj
        obtain rfl : prunedForm r = x := Option.some.inj (hr'.symm.trans hj)
        simp [MessageRecord.isOrdinary, prunedForm] at hx
    · obtain ⟨k, hk⟩ := List.mem_iff_getElem?.mp hx
      rw [List.getElem?_drop] at hk
      have := hindex _ hk
      omega

theorem composes_of_clear (hclear : ∀ i r', current[i]? = some r' → isPruned r' = true →
    ¬ InTail original i) : Composes checkpointId original current := by
  have hids := nodup_current h
  have hview := h.view hpaired checkpointId
  constructor
  · intro i r r' hr hr' hpruned hretained
    obtain ⟨htool, rfl⟩ := eq_prunedForm h hr hr' hpruned
    have hmessage : recordToMessage (prunedForm r) =
        .tool (r.toolCallId.getD "") (r.toolName.getD "") [.ofText prunedPlaceholder] := by
      simp [recordToMessage, prunedForm, htool]
    have hone : ∀ l : List MessageRecord, (l.map MessageRecord.id).Nodup → prunedForm r ∈ l →
        l.filter (fun x => decide (x.role = .tool) && x.id == r.id) = [prunedForm r] :=
      fun l hl hmem => filter_tool hl hmem htool
    rcases hview with ⟨-, -, hfilter⟩ | ⟨c, tailStart, marker, summary, hlatest, -, -, -, hfilter⟩
    · rw [hfilter, hone current hids (List.mem_of_getElem? hr'), List.map_singleton, hmessage]
    · have hlt := (hretained c (c + 1) tailStart hlatest).resolve_left (hclear i _ hr' hpruned)
      have hmem : prunedForm r ∈ current.drop (c + 2) := by
        rw [List.mem_iff_getElem?]
        exact ⟨i - (c + 2), by rw [List.getElem?_drop, Nat.add_sub_cancel' hlt]; exact hr'⟩
      have hsub : (retainedTail current tailStart c ++ current.drop (c + 2)).Sublist current := by
        have htail : (retainedTail current tailStart c).Sublist (current.take c) := by
          rcases retainedTail_eq current tailStart c with heq | ⟨t, -, heq⟩
          · rw [heq]
            exact List.nil_sublist _
          · rw [heq]
            exact List.filter_sublist.trans (List.drop_sublist _ _)
        have hdrop : (current.drop (c + 2)).Sublist (current.drop c) :=
          List.drop_sublist_drop_left current (by omega)
        simpa using htail.append hdrop
      have hcheckpoint : (checkpointOf checkpointId marker summary).filter (fun x =>
          decide (x.role = .tool) && x.id == r.id) = [] := by
        unfold checkpointOf
        split <;> simp [checkpoint, MessageRecord.new]
      rw [hfilter, List.append_assoc, List.filter_append, hcheckpoint, List.nil_append,
        hone _ ((hsub.map _).nodup hids) (List.mem_append_right _ hmem), List.map_singleton,
        hmessage]
  · intro c s r' hpair hr'
    rcases hview with ⟨-, hnone, -⟩ | ⟨c', tailStart, marker, summary, -, hpair', hs, hrole, -⟩
    · rw [hnone] at hpair
      cases hpair
    · rw [hpair'] at hpair
      obtain ⟨rfl, rfl⟩ := Prod.mk.inj (Option.some.inj hpair)
      obtain rfl := Option.some.inj (hs.symm.trans hr')
      simp [isPruned, hrole]
  · exact pruneToolOutputs_eq h.shielded

/-- **Pruning composes with the filter, the search for a pair and later passes exactly when no
pruned record lies between the boundary of the latest compaction pair and its marker**. -/
theorem composes_iff : Composes checkpointId original current ↔
    ∀ i r', current[i]? = some r' → isPruned r' = true → ¬ InTail original i := by
  constructor
  · exact fun hcomposes _ _ hr' hpruned => not_inTail_of_composes h hpaired hcomposes hr' hpruned
  · exact composes_of_clear h hpaired

end Composition

/-! ### A long tool output -/

/-- Records of session 7 with identifiers from `k` on. -/
def recordsFrom (k : Nat) : List Message → List MessageRecord
  | [] => []
  | message :: rest => messageToRecord k k 7 message :: recordsFrom (k + 1) rest

theorem id_messageToRecord (id createdAt : Nat) (sessionId : Uuid) (message : Message) :
    (messageToRecord id createdAt sessionId message).id = id := by
  cases message <;> rfl

theorem Reached.messages {original current : List MessageRecord} (h : Reached original current)
    (k : Nat) (hk : 0 < k) (hids : ∀ r ∈ original, r.id < k) (ms : List Message) :
    Reached (original ++ recordsFrom k ms) (current ++ recordsFrom k ms) := by
  induction ms generalizing original current k with
  | nil => simpa [recordsFrom] using h
  | cons message rest ih =>
    have hfresh : k ∉ original.map MessageRecord.id := by
      intro hmem
      obtain ⟨r, hr, hid⟩ := List.mem_map.mp hmem
      exact absurd hid (Nat.ne_of_lt (hids r hr))
    have hnext := ih (h.message hfresh (Nat.ne_of_gt hk) k 7 message) (k + 1) (by omega) (by
      intro r hr
      rcases List.mem_append.mp hr with hr | hr
      · exact Nat.lt_succ_of_lt (hids r hr)
      · rw [List.mem_singleton.mp hr, id_messageToRecord]
        exact Nat.lt_succ_self k)
    simpa [recordsFrom] using hnext

/-- A text of four tokens, many times over. -/
def bulk (n : Nat) : List ContentPart := List.replicate n (.ofText "sixteen letters.")

/-- A greeting, and a turn with two long tool outputs. -/
def longTurnMessages : List Message :=
  [.userText "hello", .assistantText "hello", .userText "look",
    .assistant [] [⟨"a", "read", .null⟩], .tool "a" "read" (bulk 6250),
    .assistant [] [⟨"b", "read", .null⟩], .tool "b" "read" (bulk 11250), .assistantText "done"]

def longTurn : List MessageRecord := recordsFrom 1 longTurnMessages

theorem estimate_bulk (id createdAt : Nat) (callId : String) (n : Nat) :
    estimateRecordTokens (messageToRecord id createdAt 7 (.tool callId "read" (bulk n))) =
      n * 4 + (estimateTokens callId + 1) + 10 := by
  have hpart : estimateContentPartTokens (.ofText "sixteen letters.") = 4 := by decide +kernel
  have hname : estimateTokens "read" = 1 := by decide +kernel
  simp [estimateRecordTokens, messageToRecord, MessageRecord.new, bulk, hpart, hname]

theorem isSummary_messageToRecord (id createdAt : Nat) (sessionId : Uuid) (message : Message) :
    (messageToRecord id createdAt sessionId message).isSummary = false := by
  cases message <;> rfl

theorem longTurn_targets :
    collectTargets MessageRecord.isSummary true 0 longTurn.zipIdx.reverse = ([4], 25012) := by
  have hdone : estimateRecordTokens (messageToRecord 8 8 7 (.assistantText "done")) = 9 := by
    decide +kernel
  have hone : estimateTokens "a" = 1 ∧ estimateTokens "b" = 1 := by decide +kernel
  have ha := estimate_bulk 5 5 "a" 6250
  have hb := estimate_bulk 7 7 "b" 11250
  rw [hone.1] at ha
  rw [hone.2] at hb
  have hprotected :
      isProtectedTool (messageToRecord 5 5 7 (.tool "a" "read" (bulk 6250))) = false := by
    decide +kernel
  have htool : (messageToRecord 5 5 7 (.tool "a" "read" (bulk 6250))).role = .tool := rfl
  have hcall : (messageToRecord 6 6 7 (.assistant [] [⟨"b", "read", .null⟩])).role = .assistant :=
    rfl
  have hcall' : (messageToRecord 4 4 7 (.assistant [] [⟨"a", "read", .null⟩])).role = .assistant :=
    rfl
  have hlook : (messageToRecord 3 3 7 (.userText "look")).role = .user := rfl
  have hhello : (messageToRecord 2 2 7 (.assistantText "hello")).role = .assistant := rfl
  have hhello' : (messageToRecord 1 1 7 (.userText "hello")).role = .user := rfl
  show collectTargets MessageRecord.isSummary true 0
    [(messageToRecord 8 8 7 (.assistantText "done"), 7),
      (messageToRecord 7 7 7 (.tool "b" "read" (bulk 11250)), 6),
      (messageToRecord 6 6 7 (.assistant [] [⟨"b", "read", .null⟩]), 5),
      (messageToRecord 5 5 7 (.tool "a" "read" (bulk 6250)), 4),
      (messageToRecord 4 4 7 (.assistant [] [⟨"a", "read", .null⟩]), 3),
      (messageToRecord 3 3 7 (.userText "look"), 2),
      (messageToRecord 2 2 7 (.assistantText "hello"), 1),
      (messageToRecord 1 1 7 (.userText "hello"), 0)] = _
  simp only [collectTargets, isSummary_messageToRecord, hdone, ha, hb, hprotected, htool, hcall,
    hcall', hlook, hhello, hhello', pruneProtect]
  decide

/-- The older of the two outputs is pruned. -/
theorem longTurn_pruned : (pruneToolOutputs longTurn 1).2 = applyTargets [4] longTurn := by
  have hskip : skipUntil 1 0 longTurn.zipIdx.reverse = some 2 := by decide +kernel
  unfold pruneToolOutputs prunePass
  rw [if_neg (by simp [longTurn, longTurnMessages, recordsFrom])]
  simp only [hskip, Option.isSome_some, longTurn_targets]
  rfl

theorem reached_longTurn : Reached longTurn (applyTargets [4] longTurn) := by
  have hmessages := Reached.start.messages 1 (by decide) (by simp) longTurnMessages
  rw [List.nil_append] at hmessages
  rw [← longTurn_pruned]
  exact hmessages.pruned 1

/-- Right after the pass, pruning composes with the rest. -/
theorem longTurn_composes : (∃ r ∈ applyTargets [4] longTurn, isPruned r = true) ∧
    Composes 99 longTurn (applyTargets [4] longTurn) := by
  constructor
  · exact ⟨prunedForm (messageToRecord 5 5 7 (.tool "a" "read" (bulk 6250))),
      List.mem_of_getElem? (i := 4) rfl, rfl⟩
  · apply (composes_iff reached_longTurn (by unfold Paired; decide +kernel)).mpr
    rintro i r' - - ⟨c, s, tailStart, t, hlatest, -⟩
    have hnone : latestRetention longTurn = none := by decide +kernel
    rw [hnone] at hlatest
    cases hlatest

/-- One more exchange, and a compaction that keeps the last two turns. -/
def compactedAfter (records : List MessageRecord) : List MessageRecord :=
  records ++ recordsFrom 9 [.userText "and now?", .assistantText "fine"] ++
    [compactionMarker 11 11 7 3, compactionSummary 12 12 7 3 "greeted"]

theorem reached_compactedAfter :
    Reached (compactedAfter longTurn) (compactedAfter (applyTargets [4] longTurn)) := by
  have hmessages := reached_longTurn.messages 9 (by decide) (by decide +kernel)
    [.userText "and now?", .assistantText "fine"]
  exact hmessages.pair (by simp [longTurn, longTurnMessages, recordsFrom]) (by decide +kernel)
    (by decide +kernel)
    (by decide) (by decide) (by decide) 11 12 7 3 "greeted"

/-- After the next compaction the pruned output is in the retained tail, and the filter drops
it. -/
theorem compactedAfter_drops :
    Reached (compactedAfter longTurn) (compactedAfter (applyTargets [4] longTurn)) ∧
      Paired (compactedAfter longTurn) ∧
      ¬ Composes 99 (compactedAfter longTurn) (compactedAfter (applyTargets [4] longTurn)) := by
  have hpaired : Paired (compactedAfter longTurn) := by
    unfold Paired
    decide +kernel
  refine ⟨reached_compactedAfter, hpaired, ?_⟩
  intro hcomposes
  have hat : (compactedAfter (applyTargets [4] longTurn))[4]? =
      some (prunedForm (messageToRecord 5 5 7 (.tool "a" "read" (bulk 6250)))) := rfl
  apply not_inTail_of_composes reached_compactedAfter hpaired hcomposes hat rfl
  have hlatest : latestRetention (compactedAfter longTurn) = some (10, 11, 3) := by decide +kernel
  have hfound : (compactedAfter longTurn).findIdx? (fun r => r.id == 3) = some 2 := by
    decide +kernel
  exact ⟨10, 11, 3, 2, hlatest, hfound, by decide, by decide⟩

end Behest.Compaction
