import Mathlib.Data.Nat.Find
import Behest.Core.Message
import Behest.Runtime.Input
import Behest.Text.Find
import Behest.Text.Trim

/-!
# Full compaction

The third tier of `behest-memory/src/compaction.rs`: the caller takes the candidates, has them
summarised, and applies the summary. The summary is taken from its first block of tags, unless
the block is blank; then the whole text is taken, whatever blocks follow.
-/

namespace Behest

open Text

/-- Source: `behest-memory/src/compaction.rs:368–377`. -/
structure FullCompactReport where
  messagesReplaced : Nat := 0
  tokensBefore : Nat := 0
  tokensAfter : Nat := 0
  summaryExtracted : Bool := false
deriving DecidableEq

namespace FullCompact

/-- Source: `behest-memory/src/compaction.rs:313–318`. -/
def compactCandidates (messages : List Message) (keepRecent : Nat) : List Message :=
  if messages.length ≤ keepRecent then [] else messages.take (messages.length - keepRecent)

def openTag : List Char := ['<', 's', 'u', 'm', 'm', 'a', 'r', 'y', '>']

def closeTag : List Char := ['<', '/', 's', 'u', 'm', 'm', 'a', 'r', 'y', '>']

def trim (text : List Char) : List Char := trimBy isWhitespace text

/-- The text between the first opening tag and the first closing tag behind it. -/
def firstBlock (text : List Char) : Option (List Char) :=
  (cutAt openTag text).bind fun opened => (cutAt closeTag opened.2).map Prod.fst

/-- Source: `behest-memory/src/compaction.rs:424–435`. -/
def extractSummaryTag (text : List Char) : List Char × Bool :=
  match firstBlock text with
  | some body => if (trim body).isEmpty then (trim text, false) else (trim body, true)
  | none => (trim text, false)

/-- Source: `behest-memory/src/compaction.rs:438–450`. -/
def buildResumeMessage (summary : List Char) : Message :=
  .system [.ofText (
    "This session is being continued from an earlier conversation that ran out of context.\n\n" ++
    "Summary:\n" ++ String.ofList summary ++
    "\n\nContinue the conversation from where it left off without asking the user to repeat " ++
    "context. Resume directly, do not acknowledge the summary, and do not narrate that " ++
    "you are resuming.")]

/-- The messages after the call, and its report.
Source: `behest-memory/src/compaction.rs:387–419`. -/
def applySummary (messages : List Message) (summary : List Char) (keepRecent : Nat) :
    List Message × FullCompactReport :=
  if messages.length ≤ keepRecent then (messages, {})
  else
    let (text, extracted) := extractSummaryTag summary
    let replaced := messages.take (messages.length - keepRecent)
    let after := buildResumeMessage text :: messages.drop (messages.length - keepRecent)
    (after, ⟨replaced.length, estimateMessagesTokens messages, estimateMessagesTokens after,
      extracted⟩)

/-! ### Blocks -/

/-- A block of the text: an opening tag, and what stands between it and the next closing tag. -/
structure IsBlock (text before body after : List Char) : Prop where
  parts : text = before ++ openTag ++ (body ++ closeTag ++ after)
  closed : ∀ body' after', body ++ closeTag ++ after = body' ++ closeTag ++ after' →
    body.length ≤ body'.length

/-- The first block that is not blank. -/
def FirstFilled (text body : List Char) : Prop :=
  ∃ before after, IsBlock text before body after ∧ trim body ≠ [] ∧
    ∀ before' body' after', IsBlock text before' body' after' → trim body' ≠ [] →
      before.length ≤ before'.length

/-- The first block that is not blank, and the whole text when there is none. -/
def Extracted (text summary : List Char) : Prop :=
  (∃ body, FirstFilled text body ∧ summary = trim body) ∨
    ((∀ body, ¬ FirstFilled text body) ∧ summary = trim text)

variable {text before body after : List Char}

/-- When a block is not blank, there is a first one. -/
theorem exists_firstFilled (h : IsBlock text before body after) (hfilled : trim body ≠ []) :
    ∃ body, FirstFilled text body := by
  classical
  have hexists : ∃ n before body after, IsBlock text before body after ∧ trim body ≠ [] ∧
      before.length = n := ⟨_, before, body, after, h, hfilled, rfl⟩
  obtain ⟨before', body', after', hblock, hbody, hlength⟩ := Nat.find_spec hexists
  refine ⟨body', before', after', hblock, hbody, fun other body'' after'' hother hbody'' => ?_⟩
  rw [hlength]
  exact Nat.find_min' hexists ⟨other, body'', after'', hother, hbody'', rfl⟩

theorem isBlock_iff : IsBlock text before body after ↔
    text = before ++ openTag ++ (body ++ closeTag ++ after) ∧
      cutAt closeTag (body ++ closeTag ++ after) = some (body, after) := by
  rw [cutAt_eq_some_iff]
  exact ⟨fun h => ⟨h.parts, rfl, h.closed⟩, fun h => ⟨h.1, h.2.2⟩⟩

/-- The block that the source looks at starts at the first opening tag that is closed. -/
theorem isBlock_of_firstBlock (h : firstBlock text = some body) :
    ∃ before after, IsBlock text before body after ∧
      ∀ before' body' after', IsBlock text before' body' after' →
        before.length ≤ before'.length := by
  obtain ⟨⟨before, rest⟩, hopen, hclose⟩ := Option.bind_eq_some_iff.mp h
  obtain ⟨⟨body', after⟩, hcut, rfl⟩ := Option.map_eq_some_iff.mp hclose
  obtain rfl := eq_of_cutAt hcut
  refine ⟨before, after, isBlock_iff.mpr ⟨eq_of_cutAt hopen, hcut⟩, fun _ _ _ hblock => ?_⟩
  exact length_le_of_cutAt hopen hblock.parts

theorem not_isBlock_of_firstBlock (h : firstBlock text = none) :
    ¬ IsBlock text before body after := by
  intro hblock
  obtain ⟨⟨first, rest⟩, hopen, hle⟩ :=
    cutAt_isSome_of_append openTag before (body ++ closeTag ++ after)
  rw [← hblock.parts] at hopen
  -- the closing tag of the block stands behind the first opening tag, too
  have hrest : rest <:+ text := ⟨first ++ openTag, (eq_of_cutAt hopen).symm⟩
  have hbehind : body ++ closeTag ++ after <:+ text := ⟨before ++ openTag, hblock.parts.symm⟩
  have hlength : (body ++ closeTag ++ after).length ≤ rest.length := by
    have hfirst := congrArg List.length (eq_of_cutAt hopen)
    have hparts := congrArg List.length hblock.parts
    rw [List.length_append, List.length_append] at hfirst hparts
    dsimp only at hle hfirst
    omega
  obtain ⟨more, hmore⟩ := List.suffix_of_suffix_length_le hbehind hrest hlength
  obtain ⟨cut, hcut, -⟩ :=
    cutAt_isSome_of_append closeTag (more ++ body) after
  rw [List.append_assoc, List.append_assoc, ← List.append_assoc body, hmore] at hcut
  rw [firstBlock, hopen, Option.bind_some, hcut] at h
  cases h

/-- The first block is not blank, or no block is. -/
def BlankTogether (text : List Char) : Prop :=
  ∀ body, firstBlock text = some body → trim body = [] →
    ∀ before' body' after', IsBlock text before' body' after' → trim body' = []

/-- The text has more in it than any of its blocks. -/
theorem trim_ne_of_isBlock {text before body after : List Char}
    (h : IsBlock text before body after) : trim text ≠ trim body := by
  intro hsame
  have hlong : ('<' :: ((['s', 'u', 'm', 'm', 'a', 'r', 'y', '>'] ++ body ++
      ['<', '/', 's', 'u', 'm', 'm', 'a', 'r', 'y']) ++ ['>'])).length ≤ (trim text).length := by
    rw [h.parts]
    have hinfix := infix_trimBy before
      (['s', 'u', 'm', 'm', 'a', 'r', 'y', '>'] ++ body ++
        ['<', '/', 's', 'u', 'm', 'm', 'a', 'r', 'y']) after
      (show isWhitespace '<' = false by decide) (show isWhitespace '>' = false by decide)
    simpa [openTag, closeTag, trim] using hinfix.length_le
  have hshort := length_trimBy_le (p := isWhitespace) body
  rw [hsame] at hlong
  simp only [List.length_cons, List.length_append, trim] at hlong
  omega

/-- What the source extracts is what is asked, unless the first block is blank and another is
not. -/
theorem extracted_iff (text : List Char) :
    Extracted text (extractSummaryTag text).1 ↔ BlankTogether text := by
  rw [extractSummaryTag]
  cases hfirst : firstBlock text with
  | none =>
    refine iff_of_true (.inr ⟨fun body hfilled => ?_, rfl⟩) fun body hbody => ?_
    · obtain ⟨before, after, hblock, -⟩ := hfilled
      exact not_isBlock_of_firstBlock hfirst hblock
    · rw [hfirst] at hbody
      cases hbody
  | some body =>
    obtain ⟨before, after, hblock, hearliest⟩ := isBlock_of_firstBlock hfirst
    dsimp only
    by_cases hblank : trim body = []
    · rw [if_pos (List.isEmpty_iff.mpr hblank)]
      constructor
      · rintro (⟨body', ⟨before', after', hblock', -⟩, hsame⟩ | ⟨hnone, -⟩)
        · exact absurd hsame (trim_ne_of_isBlock hblock')
        · intro _ _ _ _ _ _ hblock'
          by_contra hfilled
          obtain ⟨body', hbody'⟩ := exists_firstFilled hblock' hfilled
          exact hnone body' hbody'
      · intro h
        refine .inr ⟨fun body' hbody' => ?_, rfl⟩
        obtain ⟨before', after', hblock', hfilled, -⟩ := hbody'
        exact hfilled (h body hfirst hblank before' body' after' hblock')
    · rw [if_neg (by simpa using hblank)]
      refine iff_of_true (.inl ⟨body, ⟨before, after, hblock, hblank, ?_⟩, rfl⟩) ?_
      · exact fun before' body' after' hblock' _ => hearliest before' body' after' hblock'
      · intro body' hbody' hblank'
        rw [hfirst] at hbody'
        obtain rfl := Option.some.inj hbody'
        exact absurd hblank' hblank

/-! ### The whole -/

theorem buildResumeMessage_injective : Function.Injective buildResumeMessage := by
  intro a b h
  have hcontent := (List.cons.inj (Message.system.inj h)).1
  have htext := congrArg String.toList (ContentPart.text.inj hcontent).1
  simp only [String.toList_append, String.toList_ofList, List.append_assoc] at htext
  have hbehind := List.append_cancel_left (List.append_cancel_left htext)
  exact List.append_cancel_right hbehind

/-- The candidates and the messages behind the inserted one are the whole list, with the summary
in place of the candidates; nothing happens when there are none. -/
structure MakesWhole (messages : List Message) (summary : List Char) (keepRecent : Nat)
    (r : List Message × FullCompactReport) : Prop where
  replaced : keepRecent < messages.length → ∃ text kept, Extracted summary text ∧
    r.1 = buildResumeMessage text :: kept ∧ compactCandidates messages keepRecent ++ kept = messages
  otherwise : messages.length ≤ keepRecent →
    r.1 = messages ∧ compactCandidates messages keepRecent = []
  counted : r.2.messagesReplaced = (compactCandidates messages keepRecent).length

/-- The parts make up the whole, and the summary is the first block that is not blank, except when
the first block is blank and another is not. -/
theorem makesWhole_iff (messages : List Message) (summary : List Char) (keepRecent : Nat) :
    MakesWhole messages summary keepRecent (applySummary messages summary keepRecent) ↔
      messages.length ≤ keepRecent ∨ BlankTogether summary := by
  rcases Nat.lt_or_ge keepRecent messages.length with hlong | hshort
  · rw [or_iff_right (Nat.not_le.mpr hlong), ← extracted_iff, applySummary,
      if_neg (Nat.not_le.mpr hlong)]
    have hcandidates : compactCandidates messages keepRecent =
        messages.take (messages.length - keepRecent) := if_neg (Nat.not_le.mpr hlong)
    constructor
    · intro h
      obtain ⟨text, kept, hextracted, hsame, -⟩ := h.replaced hlong
      rwa [buildResumeMessage_injective (List.cons.inj hsame).1]
    · intro h
      refine ⟨fun _ => ⟨_, _, h, rfl, ?_⟩, fun hle => absurd hlong (Nat.not_lt.mpr hle), ?_⟩
      · rw [hcandidates, List.take_append_drop]
      · rw [hcandidates]
  · rw [applySummary, if_pos hshort]
    have hnone : compactCandidates messages keepRecent = [] := if_pos hshort
    refine iff_of_true ⟨fun hlt => absurd hlt (Nat.not_lt.mpr hshort), fun _ => ⟨rfl, hnone⟩, ?_⟩
      (.inl hshort)
    rw [hnone]
    rfl

/-- A blank block before the summary. -/
def blankFirst : List Char := openTag ++ closeTag ++ openTag ++ ['o', 'k'] ++ closeTag

/-- The tags and all are inserted. -/
theorem blank_block_first :
    ¬ MakesWhole [.userText "hello"] blankFirst 0
      (applySummary [.userText "hello"] blankFirst 0) := by
  intro h
  obtain ⟨text, kept, hextracted, hsame, -⟩ := h.replaced (by decide)
  have hsummary : (extractSummaryTag blankFirst).1 = text :=
    buildResumeMessage_injective (List.cons.inj hsame).1
  rw [← hsummary, extracted_iff] at hextracted
  have hblock : IsBlock blankFirst (openTag ++ closeTag) ['o', 'k'] [] :=
    isBlock_iff.mpr ⟨rfl, by decide⟩
  exact absurd (hextracted [] (by decide) rfl _ _ _ hblock) (by decide)

end FullCompact

end Behest
