import Mathlib.Data.List.Induction
import Mathlib.Data.List.Infix
import Behest.Runtime.Input
import Behest.Text.Find
import Behest.Text.Slice
import Behest.Text.Trim

/-!
# Fact extraction

`behest-memory/src/facts.rs`: the matches of the detection patterns are taken in the order of
their starts, each unless it overlaps one that was taken before. The regex engine, the case
mapping of Unicode and the confidence scores, which are floating point numbers, are parameters; a
span of the engine is a part of the text by its type.
-/

namespace Behest

open String (utf8Len)
open Text

/-- Source: `facts.rs:53–64`. -/
inductive FactCategory where
  | preference
  | environment
  | solution
  | pattern
  | other
deriving DecidableEq

/-- Source: `facts.rs:80–89`. -/
structure ExtractedFact (F : Type) where
  content : List Char
  category : FactCategory
  confidence : F
  matchedPattern : String

namespace Facts

/-- A part of the text at its place. -/
structure Span (text : List Char) where
  front : List Char
  body : List Char
  back : List Char
  eq : text = front ++ body ++ back

/-- What a regex captures: the whole match and the first group. -/
structure Captures (text : List Char) where
  whole : Option (Span text)
  group : Option (Span text)

/-- The engine, `str::to_lowercase`, and the score for a pattern and a content. -/
structure FactHost (F : Type) where
  capturesIter : String → (text : List Char) → List (Captures text)
  toLowercase : List Char → List Char
  confidenceFor : String → List Char → F

/-- Source: `facts.rs:92–93`. -/
def minFactLen : Nat := 8

def maxFactLen : Nat := 240

variable {F : Type} (host : FactHost F)

/-- A match of a pattern: where its group stands, and the text of the whole match. -/
structure Candidate (text : List Char) where
  span : Span text
  fullMatch : List Char
  patternName : String

namespace Candidate

variable {text : List Char} (c : Candidate text)

def start : Nat := utf8Len c.span.front

def stop : Nat := utf8Len c.span.front + utf8Len c.span.body

def bounds : Nat × Nat := (c.start, c.stop)

/-- `trim().trim_end_matches('.').trim()` of the group. Source: `facts.rs:140`. -/
def content : List Char :=
  trimBy isWhitespace ((trimBy isWhitespace c.span.body).reverse.dropWhile (· == '.')).reverse

/-- The length of the content is admissible. Source: `facts.rs:142–143`. -/
def admissible : Bool :=
  decide (minFactLen ≤ c.content.length) && decide (c.content.length ≤ maxFactLen)

end Candidate

/-- By the start, and the longer first. Source: `facts.rs:128`. -/
def before {text : List Char} (a b : Candidate text) : Bool :=
  decide (a.start < b.start) || (a.start == b.start && decide (b.stop ≤ a.stop))

/-- The spans and the facts that are accepted so far. -/
structure Accepted (F : Type) where
  spans : List (Nat × Nat)
  facts : List (ExtractedFact F)

/-- The spans have a position in common. -/
def Shares (s t : Nat × Nat) : Prop := ∃ x, s.1 ≤ x ∧ x < s.2 ∧ t.1 ≤ x ∧ x < t.2

variable {text : List Char}

/-- What has an admissible content has a first position. -/
theorem start_lt_stop {c : Candidate text} (h : c.admissible = true) : c.start < c.stop := by
  obtain ⟨hmin, -⟩ := Bool.and_eq_true_iff.mp h
  have hbody : c.span.body ≠ [] := by
    intro hnil
    simp [Candidate.content, hnil, minFactLen] at hmin
  have hpos : utf8Len c.span.body ≠ 0 := fun hzero => hbody (String.utf8Len_eq_zero.mp hzero)
  rw [Candidate.start, Candidate.stop]
  omega

/-- What holds of the accepted spans and facts when some candidates have been looked at. -/
structure Resolved (seen : List (Candidate text)) (x : Accepted F) : Prop where
  disjoint : x.spans.Pairwise fun s t => ¬ Shares s t
  stems : ∀ s ∈ x.spans, ∃ c ∈ seen, c.admissible = true ∧ s = c.bounds
  covers : ∀ c ∈ seen, c.admissible = true → ∃ s ∈ x.spans, Shares s c.bounds
  facts : ∀ f ∈ x.facts, ∃ c ∈ seen, c.admissible = true ∧ f.content = c.content ∧
    c.bounds ∈ x.spans

/-- A candidate that is passed over: if its length is admissible, it overlaps what is there. -/
theorem Resolved.skip {seen : List (Candidate text)} {x : Accepted F} (h : Resolved seen x)
    {c : Candidate text} (hc : c.admissible = true → ∃ s ∈ x.spans, Shares s c.bounds) :
    Resolved (seen ++ [c]) x := by
  refine ⟨h.disjoint, fun s hs => ?_, fun d hd hadmissible => ?_, fun f hf => ?_⟩
  · obtain ⟨d, hd, hrest⟩ := h.stems s hs
    exact ⟨d, List.mem_append_left _ hd, hrest⟩
  · rcases List.mem_append.mp hd with hseen | hnew
    · exact h.covers d hseen hadmissible
    · obtain rfl := List.mem_singleton.mp hnew
      exact hc hadmissible
  · obtain ⟨d, hd, hrest⟩ := h.facts f hf
    exact ⟨d, List.mem_append_left _ hd, hrest⟩

/-- A candidate that is taken: its length is admissible, and it overlaps nothing that is there. -/
theorem Resolved.take {seen : List (Candidate text)} {x : Accepted F} (h : Resolved seen x)
    {c : Candidate text} (hc : c.admissible = true) (hfree : ∀ s ∈ x.spans, ¬ Shares s c.bounds)
    {fact : ExtractedFact F} (hfact : fact.content = c.content) :
    Resolved (seen ++ [c]) ⟨x.spans ++ [c.bounds], x.facts ++ [fact]⟩ := by
  have hlast : c ∈ seen ++ [c] := List.mem_append_right _ List.mem_cons_self
  have hbounds : c.bounds ∈ x.spans ++ [c.bounds] := List.mem_append_right _ List.mem_cons_self
  refine ⟨?_, fun s hs => ?_, fun d hd hadmissible => ?_, fun f hf => ?_⟩
  · refine List.pairwise_append.mpr ⟨h.disjoint, List.pairwise_singleton _ _, fun s hs t ht => ?_⟩
    rw [List.mem_singleton.mp ht]
    exact hfree s hs
  · rcases List.mem_append.mp hs with hold | hnew
    · obtain ⟨d, hd, hrest⟩ := h.stems s hold
      exact ⟨d, List.mem_append_left _ hd, hrest⟩
    · exact ⟨c, hlast, hc, List.mem_singleton.mp hnew⟩
  · rcases List.mem_append.mp hd with hseen | hnew
    · obtain ⟨s, hs, hshares⟩ := h.covers d hseen hadmissible
      exact ⟨s, List.mem_append_left _ hs, hshares⟩
    · obtain rfl := List.mem_singleton.mp hnew
      have hlt := start_lt_stop hadmissible
      exact ⟨d.bounds, hbounds, d.start, Nat.le_refl _, hlt, Nat.le_refl _, hlt⟩
  · rcases List.mem_append.mp hf with hold | hnew
    · obtain ⟨d, hd, hadmissible, hcontent, hmem⟩ := h.facts f hold
      exact ⟨d, List.mem_append_left _ hd, hadmissible, hcontent, List.mem_append_left _ hmem⟩
    · rw [List.mem_singleton.mp hnew]
      exact ⟨c, hlast, hc, hfact, hbounds⟩

end Facts

end Behest
