import Behest.Compaction.Conservation

/-!
# Compaction never settles

The overflow check reads the stored records, and a compaction only adds to them. So a
history that called for a compaction calls for another one right after it, however little
of it the filter still shows.
-/

namespace Behest.Compaction

open Effect

variable {host : Host} {service : CompactionService} {sessionId : Uuid} {w : World}

/-- A compaction does not shorten the stored history. -/
theorem estimate_le_of_compacted {provider : ChatProvider} {model : String}
    {selection : SelectionResult} {w' : World}
    (h : w' = w ∨ PairAppended provider model sessionId selection w w') :
    estimateRecordsTokens (w.messages sessionId) ≤
      estimateRecordsTokens (w'.messages sessionId) := by
  rcases h with rfl | ⟨⟨_, _, _, _, _, hmessages⟩, -⟩
  · exact Nat.le_refl _
  · rw [hmessages, estimateRecordsTokens_append]
    exact Nat.le_add_right _ _

/-- More tokens overflow as well. -/
theorem isOverflow_mono {total total' modelContext maxOutput : Nat} {auto : Bool}
    (hle : total ≤ total') (h : isOverflow total modelContext maxOutput auto = true) :
    isOverflow total' modelContext maxOutput auto = true := by
  unfold isOverflow at h ⊢
  split
  · next hoff => simp [hoff] at h
  · next hoff =>
    rw [if_neg hoff, decide_eq_true_eq] at h
    exact decide_eq_true (by omega)

/-- A compaction that was needed leaves a history that needs one. -/
theorem wp_compactIfNeeded (host : Host) (service : CompactionService)
    (modelContext maxOutput : Nat) (sessionId : Uuid) (w : World) :
    wp (service.compactIfNeeded host (w.messages sessionId) modelContext maxOutput sessionId)
      (fun result w' => result.isSome = true →
        isOverflow (estimateRecordsTokens (w'.messages sessionId)) modelContext maxOutput
          service.config.auto = true)
      (Fails fun _ _ => True) w := by
  unfold CompactionService.compactIfNeeded
  split
  · intro h
    cases h
  · next hover =>
    have hover : isOverflow (estimateRecordsTokens (w.messages sessionId)) modelContext maxOutput
        service.config.auto = true := by simpa using hover
    cases service.resolveCompactionProvider with
    | error e => trivial
    | ok resolved =>
      simp only [wp_bind, wp_pure]
      apply wp_mono (wp_compactImpl host service _ _ _ sessionId none w)
      · intro result w' h _
        exact isOverflow_mono (estimate_le_of_compacted h) hover
      · exact fun _ _ h => h

/-- A history that needs a compaction is not passed over. -/
theorem compactIfNeeded_ne_none {messages : List MessageRecord} {modelContext maxOutput : Nat}
    (h : isOverflow (estimateRecordsTokens messages) modelContext maxOutput
      service.config.auto = true) (w' : World) :
    service.compactIfNeeded host messages modelContext maxOutput sessionId w ≠ .ok none w' := by
  have hwp : wp (service.compactIfNeeded host messages modelContext maxOutput sessionId)
      (fun result _ => result.isSome = true) (fun _ _ => True) w := by
    unfold CompactionService.compactIfNeeded
    simp only [h, Bool.not_true, Bool.false_eq_true, if_false]
    cases service.resolveCompactionProvider with
    | error e => trivial
    | ok resolved =>
      simp only [wp_bind, wp_pure, Option.isSome_some]
      exact wp_trivial
  intro hrun
  exact absurd (wp_ok hwp hrun) (by simp)

/-- **No compaction settles a history**: whatever the filter shows of the history after a
compaction, the next check of the same history does not find it short enough. -/
theorem compactIfNeeded_never_settles (host host' : Host) (service : CompactionService)
    (modelContext maxOutput : Nat) (sessionId : Uuid) (w w' later w'' : World)
    (result : CompactionResult)
    (hrun : service.compactIfNeeded host (w.messages sessionId) modelContext maxOutput sessionId w =
      .ok (some result) w')
    (hsame : later.messages sessionId = w'.messages sessionId) :
    service.compactIfNeeded host' (later.messages sessionId) modelContext maxOutput sessionId
      later ≠ .ok none w'' := by
  have hover := wp_ok (wp_compactIfNeeded host service modelContext maxOutput sessionId w) hrun rfl
  rw [← hsame] at hover
  exact compactIfNeeded_ne_none hover w''

/-- One exchange with seven replies before two short ones; every record is estimated at 9
tokens. -/
def longOpening : List MessageRecord :=
  .new 1 0 7 .user [.ofText "ping"] ::
    (List.range' 2 7).map (fun id => .new id 0 7 .assistant [.ofText "pong"]) ++
    [.new 9 1 7 .user [.ofText "ping"], .new 10 2 7 .assistant [.ofText "pong"],
      .new 11 3 7 .user [.ofText "ping"], .new 12 4 7 .assistant [.ofText "pong"]]

/-- How many messages a check that compacted leaves; zero for any other check. -/
def lengthAfter (sessionId : Uuid) :
    EStateM.Result Stop World (Option CompactionResult) → Nat
  | .ok (some _) w => (w.messages sessionId).length
  | _ => 0

theorem exists_of_lengthAfter {run : EStateM.Result Stop World (Option CompactionResult)} {n : Nat}
    (h : lengthAfter sessionId run = n + 1) :
    ∃ result w, run = .ok (some result) w ∧ (w.messages sessionId).length = n + 1 := by
  unfold lengthAfter at h
  split at h
  · next result w => exact ⟨result, w, rfl, h⟩
  · cases h

/-- A compaction brings the visible history below the threshold of 70 tokens, and the next
check compacts the same history again. -/
theorem compactIfNeeded_repeats :
    let w := World.ofSession 7 longOpening
    let service : CompactionService := ⟨⟨[tersely]⟩, {}⟩
    ∃ result w',
      service.compactIfNeeded .benign (w.messages 7) 80 5 7 w = .ok (some result) w' ∧
      usableTokens 80 5 none = 70 ∧
      estimateRecordsTokens (Context.applyCompactionFilter 13 (w'.messages 7)) < 70 ∧
      (w'.messages 7).length = 14 ∧
      ∃ result' w'',
        service.compactIfNeeded .benign (w'.messages 7) 80 5 7 w' = .ok (some result') w'' ∧
        (w''.messages 7).length = 16 := by
  intro w service
  refine ⟨_, _, rfl, by decide, by decide, by decide, ?_⟩
  apply exists_of_lengthAfter
  decide +kernel

/-- The check after the first compaction of the longer history. -/
theorem longOpening_never_settles :
    ∃ result w', CompactionService.compactIfNeeded .benign ⟨⟨[tersely]⟩, {}⟩ longOpening 80 5 7
        (World.ofSession 7 longOpening) = .ok (some result) w' ∧
      ∀ w'', CompactionService.compactIfNeeded .benign ⟨⟨[tersely]⟩, {}⟩ (w'.messages 7) 80 5 7 w' ≠
        .ok none w'' := by
  refine ⟨_, _, rfl, ?_⟩
  intro w''
  exact compactIfNeeded_never_settles .benign .benign ⟨⟨[tersely]⟩, {}⟩ 80 5 7
    (World.ofSession 7 longOpening) _ _ w'' _ rfl rfl

end Behest.Compaction
