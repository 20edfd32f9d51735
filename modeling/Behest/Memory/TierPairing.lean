import Behest.Context.Pairing
import Behest.Memory.Autocompact
import Behest.Memory.FullCompact
import Behest.Memory.Microcompact

/-!
# Tool calls and their answers in compacted messages

What the three tiers of `behest-memory/src/compaction.rs` leave of well-paired messages. The first
gives the outputs that it rewrites new identifiers; the other two cut the list, at a user message
and at a fixed number of messages.
-/

namespace Behest

open Autocompact Effect FullCompact Microcompact

/-- Every tool message follows the call that it answers, and every call is answered. -/
structure ToolPaired (messages : List Message) : Prop where
  called : Exchange.Called (exchanges messages)
  answered : Exchange.Answered (exchanges messages)

/-- The pairing is kept: what is left is paired, with the calls and answers, under their
identifiers, that the messages ended in. -/
structure KeepsPairing (messages left : List Message) : Prop where
  paired : ToolPaired left
  ids : exchanges left <:+ exchanges messages

/-! ### Rewriting in place -/

/-- Messages that are replaced in place, each by one with as many calls and answers. -/
theorem exchanges_mapIdx_iff (messages : List Message) (f : Nat → Message → Message)
    (hf : ∀ i m, (f i m).exchanges.length = m.exchanges.length) :
    exchanges (messages.mapIdx f) = exchanges messages ↔
      ∀ (i : Nat) (m : Message), messages[i]? = some m → (f i m).exchanges = m.exchanges := by
  induction messages generalizing f with
  | nil => simp
  | cons m rest ih =>
    rw [List.mapIdx_cons, exchanges_cons, exchanges_cons]
    constructor
    · intro h i m' hi
      obtain ⟨hhead, hrest⟩ := List.append_inj h (hf 0 m)
      cases i with
      | zero => rwa [← Option.some.inj hi]
      | succ i => exact (ih (fun i => f (i + 1)) fun i => hf (i + 1)).mp hrest i m' hi
    · intro h
      rw [h 0 m rfl, (ih (fun i => f (i + 1)) fun i => hf (i + 1)).mpr fun i m' hi =>
        h (i + 1) m' hi]

theorem length_exchanges_mapIdx (messages : List Message) (f : Nat → Message → Message)
    (hf : ∀ i m, (f i m).exchanges.length = m.exchanges.length) :
    (exchanges (messages.mapIdx f)).length = (exchanges messages).length := by
  induction messages generalizing f with
  | nil => rfl
  | cons m rest ih =>
    rw [List.mapIdx_cons, exchanges_cons, exchanges_cons, List.length_append, List.length_append,
      hf 0 m, ih (fun i => f (i + 1)) fun i => hf (i + 1)]

variable (isAlphanumeric : Char → Bool) {messages : List Message}

theorem length_exchanges_rewriteAt (messages : List Message) (config : MicrocompactConfig) (i : Nat)
    (m : Message) :
    (rewriteAt isAlphanumeric messages config i m).exchanges.length = m.exchanges.length := by
  cases m with
  | system content | user content | assistant content toolCalls => rfl
  | tool id name content =>
    rw [rewriteAt]
    split <;> rfl

/-- The old tool outputs have the identifiers already that they are given. -/
def AlreadyCompacted (messages : List Message) (config : MicrocompactConfig) : Prop :=
  ∀ (i : Nat) (id name : String) (content : List ContentPart),
    messages[i]? = some (.tool id name content) → isOld messages config i = true →
      id = "compacted-" ++ toString i

theorem keepsPairing_microcompact_iff (h : ToolPaired messages) (config : MicrocompactConfig) :
    KeepsPairing messages (microcompact isAlphanumeric messages config).1 ↔
      AlreadyCompacted messages config := by
  have hlength := length_exchanges_rewriteAt isAlphanumeric messages config
  have hsame : exchanges (microcompact isAlphanumeric messages config).1 = exchanges messages ↔
      AlreadyCompacted messages config := by
    rw [microcompact_fst, exchanges_mapIdx_iff _ _ hlength]
    constructor
    · intro hall i id name content hi hold
      have hids := hall i _ hi
      rw [rewriteAt, if_pos hold] at hids
      exact (Exchange.answer.inj (List.cons.inj hids).1).symm
    · intro hids i m hi
      cases m with
      | system content | user content | assistant content toolCalls => rfl
      | tool id name content =>
        rw [rewriteAt]
        split
        · next hold => rw [hids i id name content hi hold]; rfl
        · rfl
  rw [← hsame]
  constructor
  · intro hkeeps
    refine hkeeps.ids.eq_of_length ?_
    rw [microcompact_fst, length_exchanges_mapIdx _ _ hlength]
  · intro heq
    exact ⟨⟨heq ▸ h.called, heq ▸ h.answered⟩, heq ▸ List.suffix_refl _⟩

/-! ### Cutting -/

/-- What is left behind a cut is paired exactly when the cut stands between no call and its
answer. -/
theorem keepsPairing_suffix_iff {before after left : List Message}
    (h : ToolPaired (before ++ after))
    (hleft : exchanges left = exchanges after) :
    KeepsPairing (before ++ after) left ↔
      ¬ Exchange.Straddled (exchanges before) (exchanges after) := by
  obtain ⟨hcalled, hanswered⟩ := h
  rw [exchanges_append] at hcalled hanswered
  rw [← Exchange.called_suffix_iff hcalled]
  constructor
  · intro hkeeps
    exact hleft ▸ hkeeps.paired.called
  · intro hafter
    refine ⟨⟨hleft ▸ hafter, hleft ▸ hanswered.suffix⟩, ?_⟩
    rw [hleft, exchanges_append]
    exact List.suffix_append _ _

/-- The groups that fit start between no call and its answer. -/
def FitsSeamlessly (messages : List Message) (limit : Nat) : Prop :=
  ∀ k, LargestFit (turns messages) limit k →
    ¬ Exchange.Straddled (exchanges (oldGroups (turns messages) k))
      (exchanges (lastGroups (turns messages) k))

theorem keepsPairing_autocompact_iff (h : ToolPaired messages) (budget : TokenBudget) :
    KeepsPairing messages (autocompact messages budget).1 ↔
      FitsSeamlessly messages budget.thresholds.compactThreshold := by
  obtain ⟨k, hfit, hleft⟩ : ∃ k, LargestFit (turns messages) budget.thresholds.compactThreshold k ∧
      (autocompact messages budget).1 = lastGroups (turns messages) k := by
    rcases Nat.lt_or_ge budget.thresholds.compactThreshold (estimateMessagesTokens messages)
      with hover | hfits
    · obtain ⟨k, hfit, heq⟩ := autocompact_of_exceeds hover
      exact ⟨k, hfit, by rw [heq]⟩
    · refine ⟨_, largestFit_all (by rwa [flatten_turns]), ?_⟩
      rw [autocompact_of_fits hfits, lastGroups_length, flatten_turns]
  have hsplit := old_append_last (turns messages) k
  rw [flatten_turns] at hsplit
  have hcut := keepsPairing_suffix_iff (hsplit.symm ▸ h) (congrArg exchanges hleft)
  rw [hsplit] at hcut
  rw [hcut]
  exact ⟨fun hseam k' hk' => hk'.eq hfit ▸ hseam, fun hall => hall k hfit⟩

theorem keepsPairing_applySummary_iff (h : ToolPaired messages) (summary : List Char)
    (keepRecent : Nat) :
    KeepsPairing messages (applySummary messages summary keepRecent).1 ↔
      ¬ Exchange.Straddled (exchanges (messages.take (messages.length - keepRecent)))
        (exchanges (messages.drop (messages.length - keepRecent))) := by
  have hleft : exchanges (applySummary messages summary keepRecent).1 =
      exchanges (messages.drop (messages.length - keepRecent)) := by
    rw [applySummary]
    split
    · next hshort => rw [Nat.sub_eq_zero_of_le hshort, List.drop_zero]
    · -- the message that is inserted neither calls nor answers
      rw [exchanges_cons]
      rfl
  have hcut := keepsPairing_suffix_iff
    ((List.take_append_drop (messages.length - keepRecent) messages).symm ▸ h) hleft
  rwa [List.take_append_drop] at hcut

/-! ### All tiers -/

/-- All tiers keep the pairing exactly when the outputs that are rewritten have their identifiers
already and neither cut stands between a call and its answer. -/
theorem tiers_keepPairing_iff (h : ToolPaired messages) (config : MicrocompactConfig)
    (budget : TokenBudget) (summary : List Char) (keepRecent : Nat) :
    (KeepsPairing messages (microcompact isAlphanumeric messages config).1 ∧
        KeepsPairing messages (autocompact messages budget).1 ∧
        KeepsPairing messages (applySummary messages summary keepRecent).1) ↔
      AlreadyCompacted messages config ∧
        FitsSeamlessly messages budget.thresholds.compactThreshold ∧
        ¬ Exchange.Straddled (exchanges (messages.take (messages.length - keepRecent)))
          (exchanges (messages.drop (messages.length - keepRecent))) := by
  rw [keepsPairing_microcompact_iff isAlphanumeric h, keepsPairing_autocompact_iff h,
    keepsPairing_applySummary_iff h]

/-- A call with its answer. -/
def echoed : List Message := [.assistant [] [⟨"1", "echo", .null⟩], .toolText "1" "echo" "ok"]

theorem toolPaired_echoed : ToolPaired echoed :=
  ⟨Exchange.called_pair "1", Exchange.answered_pair "1"⟩

/-- The pair is kept as it is when nothing is old. -/
theorem echoed_kept :
    KeepsPairing echoed (microcompact Char.isAlphanum echoed {}).1 ∧
      KeepsPairing echoed (autocompact echoed {}).1 ∧
      KeepsPairing echoed (applySummary echoed [] 2).1 := by
  refine (tiers_keepPairing_iff Char.isAlphanum toolPaired_echoed {} {} [] 2).mpr
    ⟨fun i id name content _ hold => ?_, fun k hfit => ?_, fun hcut => ?_⟩
  · have hnone : ∀ i, isOld echoed {} i = false := fun i => by
      rw [isOld, decide_eq_false (by simp [echoed]), Bool.false_and]
    rw [hnone i] at hold
    cases hold
  · have hone : LargestFit (turns echoed) (TokenBudget.thresholds {}).compactThreshold 1 :=
      largestFit_one _ rfl
    rw [hfit.eq hone]
    rintro ⟨id, first, rest, -, hcall, -⟩
    cases hcall
  · obtain ⟨id, first, rest, -, hcall, -⟩ := hcut
    cases hcall

/-- The answer is given another identifier, and its call is left without an answer. -/
theorem echoed_orphaned :
    ToolPaired echoed ∧
      ¬ (KeepsPairing echoed (microcompact Char.isAlphanum echoed ⟨0, 0⟩).1 ∧
        KeepsPairing echoed (autocompact echoed {}).1 ∧
        KeepsPairing echoed (applySummary echoed [] 2).1) := by
  refine ⟨toolPaired_echoed, fun h => ?_⟩
  have hcall := h.1.paired.called [.call "1"] ("compacted-" ++ toString 1) [] rfl
  have hid := Exchange.call.inj (List.mem_singleton.mp hcall)
  exact absurd hid (by decide)

end Behest
