import Behest.Compaction.Conservation

/-!
# A compaction that fails

The session store takes one message at a time and has no way to take one back, so a summary
that is refused leaves its marker behind. No other failure leaves anything.
-/

namespace Behest.Compaction

open Effect CompactionService

/-- **A compaction that fails leaves the stored messages as they were, except that a refused
summary leaves exactly its marker at their end**. -/
theorem compactImpl_failed (host : Host) (service : CompactionService)
    (messages : List MessageRecord) (provider : ChatProvider) (model : String) (sessionId : Uuid)
    (keep : Option Nat) (w w' : World) (e : RuntimeError)
    (hrun : compactImpl host service messages provider model sessionId keep w =
      .error (.failed e) w') :
    Incomplete sessionId (select messages service.config.tailTurns
      (keep.getD service.config.keepTokens)).boundary w w' :=
  wp_error (wp_compactImpl_summarised ..) hrun

/-- A provider that cannot be reached. -/
def unreachable : ChatProvider where
  id := "p"
  capabilities := ⟨false, none, none⟩
  complete _ _ := .error (.decode "p" "no answer")
  stream _ _ := .ok []

/-- A model that does not answer leaves nothing behind. -/
theorem unreachable_incomplete :
    ∃ e w', compactImpl .benign ⟨⟨[unreachable]⟩, { keepTokens := 36 }⟩ threeExchanges unreachable
        "m" 7 none (.ofSession 7 threeExchanges) = .error (.failed e) w' ∧
      Incomplete 7 3 (.ofSession 7 threeExchanges) w' ∧ w'.messages 7 = threeExchanges := by
  have hrun : ∃ e w', compactImpl .benign ⟨⟨[unreachable]⟩, { keepTokens := 36 }⟩ threeExchanges
      unreachable "m" 7 none (.ofSession 7 threeExchanges) = .error (.failed e) w' ∧
      w'.messages 7 = threeExchanges := ⟨_, _, rfl, rfl⟩
  obtain ⟨e, w', hrun, hmessages⟩ := hrun
  exact ⟨e, w', hrun, compactImpl_failed .benign ⟨⟨[unreachable]⟩, { keepTokens := 36 }⟩
    threeExchanges unreachable "m" 7 none _ w' e hrun, hmessages⟩

/-- A store that is lost when the summary arrives. -/
def losesSummary : Host :=
  { Host.benign with
    sessionFault := fun _ op =>
      match op with
      | .appendMessage record =>
          if record.isSummary then some (.connectionFailed "postgres" "closed") else none
      | _ => none }

/-- The marker of a refused summary stays in the session. -/
theorem lost_summary_leaves_marker :
    ∃ e w', compactImpl losesSummary ⟨⟨[tersely]⟩, { keepTokens := 36 }⟩ threeExchanges
        tersely "m" 7 none (.ofSession 7 threeExchanges) = .error (.failed e) w' ∧
      w'.messages 7 ≠ (World.ofSession 7 threeExchanges).messages 7 := by
  have hrun : ∃ e w', compactImpl losesSummary ⟨⟨[tersely]⟩, { keepTokens := 36 }⟩
      threeExchanges tersely "m" 7 none (.ofSession 7 threeExchanges) = .error (.failed e) w' ∧
      (w'.messages 7).length = 7 := ⟨_, _, rfl, rfl⟩
  obtain ⟨e, w', hrun, hlength⟩ := hrun
  refine ⟨e, w', hrun, fun hsame => ?_⟩
  rw [hsame] at hlength
  exact absurd hlength (by decide)

end Behest.Compaction
