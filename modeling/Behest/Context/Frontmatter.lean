import Behest.Adapter.Sse
import Behest.Json.Merge
import Behest.Text.Lines
import Behest.Text.Trim

/-!
# The frontmatter of a skill file

`behest-context/src/skills.rs`: a `SKILL.md` file is cut at its delimiters, and what is between them
is read line by line. The format has delimiters that are lines of their own; the code looks for
the first line that starts with three dashes.
-/

namespace Behest.SkillFile

open Text

/-- `str::trim`. -/
def trim (text : List Char) : List Char := trimBy Sse.isWhitespace text

/-- `trim_matches` of the double quote. -/
def unquote (text : List Char) : List Char := trimBy (fun c => decide (c = '"')) text

/-! ### The fields -/

/-- `serde_json::Map::insert`. -/
def setField (fields : List (String × Value)) (key : String) (value : Value) :
    List (String × Value) :=
  if (fields.lookup key).isSome then Value.put fields key value else fields ++ [(key, value)]

/-- The locals of `parse_minimal_yaml`. Source: `skills.rs:374–376`. -/
structure YamlState where
  map : List (String × Value)
  currentKey : Option String
  currentList : List Value

namespace YamlState

def init : YamlState := ⟨[], none, []⟩

/-- The pending list goes to its key. Source: `skills.rs:396–403` and `418–422`. -/
def flush (s : YamlState) : YamlState :=
  match s.currentKey with
  | none => s
  | some key =>
      if s.currentList.isEmpty then { s with currentKey := none }
      else ⟨setField s.map key (.array s.currentList), none, []⟩

/-- Source: `skills.rs:384–392`. -/
def push (s : YamlState) (item : List Char) : YamlState :=
  if s.currentKey.isSome then
    { s with currentList := s.currentList ++ [.string (String.ofList (unquote (trim item)))] }
  else s

/-- Source: `skills.rs:406–414`. -/
def assign (s : YamlState) (key value : List Char) : YamlState :=
  let key := String.ofList (trim key)
  let value := trim value
  if value.isEmpty then { s with currentKey := some key }
  else { s with map := setField s.map key (.string (String.ofList (unquote value))) }

/-- Source: `skills.rs:379–415`. -/
def step (s : YamlState) (line : List Char) : YamlState :=
  let trimmed := trim line
  if trimmed.isEmpty || ['#'].isPrefixOf trimmed then s
  else
    match Sse.stripPrefix ['-', ' '] trimmed with
    | some item => s.push item
    | none =>
        match cutAt [':'] trimmed with
        | some (key, value) => s.flush.assign key value
        | none => s.flush

end YamlState

/-- Source: `skills.rs:373–424`. -/
def parseMinimalYaml (text : List Char) : List (String × Value) :=
  ((Sse.linesFrom [] text).foldl YamlState.step .init).flush.map

/-! ### The delimiters -/

def byteOrderMark : Char := '\uFEFF'

def dashes : List Char := ['-', '-', '-']

/-- What is between the dashes, and what is behind them. Source: `skills.rs:344–362`. -/
def cutFrontmatter (text : List Char) : Option (List Char × List Char) :=
  if dashes.isPrefixOf text then cutAt ('\n' :: dashes) (text.drop dashes.length) else none

/-- The text without its byte order marks. Source: `skills.rs:343`. -/
def trimMarks (raw : List Char) : List Char := raw.dropWhile fun c => decide (c = byteOrderMark)

/-- Source: `skills.rs:342–369`. -/
def splitFrontmatter (raw : List Char) : List (String × Value) × List Char :=
  match cutFrontmatter (trimMarks raw) with
  | none => ([], trimMarks raw)
  | some (frontmatter, body) =>
      (parseMinimalYaml frontmatter, body.dropWhile fun c => decide (c = '\n'))

/-- What a line may have before its line feed. -/
def IsLineEnd (ending : List Char) : Prop := ending = [] ∨ ending = ['\r']

/-- A line that is three dashes. -/
def isDelimiter (line : List Char) : Bool := decide (line = dashes ∨ line = dashes ++ ['\r'])

/-- The text without the byte order mark that it may start with. -/
def withoutMark (raw : List Char) : List Char :=
  if raw.head? = some byteOrderMark then raw.tail else raw

/-- The frontmatter of the documented format: between the first line and the next line of
three dashes. -/
def documentedSplit (raw : List Char) : Option (Fenced Char) :=
  fenced '\n' isDelimiter (withoutMark raw)

/-- The text has these lines behind the rest of a delimiter line. -/
def HasLines (text : List Char) (lines : List (List Char)) : Prop :=
  ∃ ending, IsLineEnd ending ∧ text.splitOn '\n' = ending :: lines

/-- The code finds the frontmatter of the documented format, with its lines and its body. -/
def SplitAgrees (raw : List Char) : Prop :=
  match cutFrontmatter (trimMarks raw), documentedSplit raw with
  | none, none => True
  | some (frontmatter, body), some f =>
      HasLines frontmatter f.between ∧ HasLines body f.after
  | _, _ => False

/-- Where the first line and a later one start with three dashes, these and the later one
are lines of three dashes, and one byte order mark at most is in front of them. -/
def Delimited (raw : List Char) : Prop :=
  ∀ f ∈ fenced '\n' dashes.isPrefixOf (trimMarks raw),
    trimMarks raw = withoutMark raw ∧ isDelimiter f.opening = true ∧
      isDelimiter f.closing = true

theorem isDelimiter_iff {line : List Char} :
    isDelimiter line = true ↔
      dashes.isPrefixOf line = true ∧ IsLineEnd (line.drop dashes.length) := by
  rw [isDelimiter, decide_eq_true_iff, List.isPrefixOf_iff_prefix]
  constructor
  · rintro (rfl | rfl)
    · exact ⟨List.prefix_refl _, Or.inl rfl⟩
    · exact ⟨List.prefix_append _ _, Or.inr rfl⟩
  · rintro ⟨⟨ending, rfl⟩, hending⟩
    rw [List.drop_left] at hending
    rcases hending with rfl | rfl
    · exact Or.inl (List.append_nil _)
    · exact Or.inr rfl

/-- The code finds the lines between those that start with three dashes. -/
theorem cutFrontmatter_eq (text : List Char) :
    cutFrontmatter text = (fenced '\n' dashes.isPrefixOf text).map fun f =>
      (['\n'].intercalate (f.opening.drop dashes.length :: f.between),
        ['\n'].intercalate (f.closing.drop dashes.length :: f.after)) :=
  cutAt_fenced (by decide) text

/-- Behind a second byte order mark there is no line of three dashes at the start. -/
theorem documentedSplit_of_marks {raw : List Char} (h : trimMarks raw ≠ withoutMark raw) :
    documentedSplit raw = none := by
  cases raw with
  | nil => exact absurd rfl h
  | cons c rest =>
    by_cases hc : c = byteOrderMark
    · subst hc
      cases rest with
      | nil => exact absurd rfl h
      | cons d rest =>
        by_cases hd : d = byteOrderMark
        · subst hd
          rw [Option.eq_none_iff_forall_ne_some]
          intro f hf
          obtain ⟨hlines, hopening, -⟩ := fenced_eq_some_iff.mp hf
          have hmarked := (isDelimiter_iff.mp hopening).1
          rw [← isPrefixOf_splitOn (by decide) hlines] at hmarked
          cases hmarked
        · exact absurd (by simp [trimMarks, withoutMark, hd]) h
    · exact absurd (by simp [trimMarks, withoutMark, hc]) h

/-- Where the code finds nothing, there is nothing to be found. -/
theorem documentedSplit_eq_none {raw : List Char}
    (h : fenced '\n' dashes.isPrefixOf (trimMarks raw) = none) : documentedSplit raw = none := by
  by_cases hmarks : trimMarks raw = withoutMark raw
  · rw [documentedSplit, ← hmarks, ← Option.not_isSome_iff_eq_none]
    intro hsome
    have hfound := fenced_isSome_of_imp (fun _ h => (isDelimiter_iff.mp h).1) hsome
    rw [h] at hfound
    cases hfound
  · exact documentedSplit_of_marks hmarks

/-- Between delimiters of the format the code finds the lines that are to be found. -/
theorem documentedSplit_eq_some {raw : List Char} {f : Fenced Char}
    (h : fenced '\n' dashes.isPrefixOf (trimMarks raw) = some f)
    (hmarks : trimMarks raw = withoutMark raw) (hopening : isDelimiter f.opening = true)
    (hclosing : isDelimiter f.closing = true) : documentedSplit raw = some f := by
  obtain ⟨hlines, -, hbetween, -⟩ := fenced_eq_some_iff.mp h
  rw [documentedSplit, ← hmarks, fenced_eq_some_iff]
  refine ⟨hlines, hopening, fun line hline => ?_, hclosing⟩
  rw [Bool.eq_false_iff]
  intro hdelimiter
  have hdashes := (isDelimiter_iff.mp hdelimiter).1
  rw [hbetween line hline] at hdashes
  cases hdashes

/-- The two frontmatters are the same where the format is kept. -/
theorem splitAgrees_iff (raw : List Char) : SplitAgrees raw ↔ Delimited raw := by
  rw [SplitAgrees, cutFrontmatter_eq, Delimited]
  cases hcode : fenced '\n' dashes.isPrefixOf (trimMarks raw) with
  | none =>
    rw [documentedSplit_eq_none hcode]
    exact iff_of_true trivial fun _ h => absurd h (Option.not_mem_none _)
  | some f =>
    obtain ⟨hfront, hbody⟩ := splitOn_fenced hcode dashes.length
    obtain ⟨-, hopening, -, hclosing⟩ := fenced_eq_some_iff.mp hcode
    constructor
    · intro h g hg
      obtain rfl := Option.some.inj hg
      cases hdoc : documentedSplit raw with
      | none => simp [hdoc] at h
      | some d =>
        simp only [hdoc, Option.map_some] at h
        obtain ⟨⟨e, he, hsame⟩, e', he', hsame'⟩ := h
        rw [hfront] at hsame
        rw [hbody] at hsame'
        refine ⟨?_, isDelimiter_iff.mpr ⟨hopening, ?_⟩, isDelimiter_iff.mpr ⟨hclosing, ?_⟩⟩
        · by_contra hmarks
          rw [documentedSplit_of_marks hmarks] at hdoc
          cases hdoc
        · rwa [(List.cons.inj hsame).1]
        · rwa [(List.cons.inj hsame').1]
    · intro h
      obtain ⟨hmarks, hopen, hclose⟩ := h f rfl
      simp only [documentedSplit_eq_some hcode hmarks hopen hclose, Option.map_some]
      exact ⟨⟨_, (isDelimiter_iff.mp hopen).2, hfront⟩, _, (isDelimiter_iff.mp hclose).2, hbody⟩

/-! ### The lines of the fields -/

namespace YamlState

/-- A line that is trimmed to the same text does the same. -/
theorem step_congr (s : YamlState) {line line' : List Char} (h : trim line = trim line') :
    s.step line = s.step line' := by
  rw [step, step, h]

theorem step_lineEnd (s : YamlState) (line : List Char) {ending : List Char}
    (hending : IsLineEnd ending) : s.step (line ++ ending) = s.step line := by
  refine s.step_congr (trimBy_append_right (fun c hc => ?_) _)
  rcases hending with rfl | rfl
  · cases hc
  · rw [List.mem_singleton.mp hc]
    rfl

/-- `str::lines` leaves out an empty last line and carriage returns, which no step reads. -/
theorem foldl_linesFrom (s : YamlState) {line : List Char} (hline : '\n' ∉ line)
    (text : List Char) :
    (Sse.linesFrom line text).foldl step s = ((line ++ text).splitOn '\n').foldl step s := by
  induction text generalizing s line with
  | nil =>
    rw [List.append_nil, List.splitOn_eq_singleton hline, Sse.linesFrom]
    cases line with
    | nil => rfl
    | cons c rest => rfl
  | cons c text ih =>
    rw [Sse.linesFrom]
    split
    · next hc =>
      subst hc
      have hreturn : s.step (Sse.stripReturn line) = s.step line := by
        rw [Sse.stripReturn]
        split
        · next hlast =>
          obtain ⟨front, rfl⟩ := List.getLast?_eq_some_iff.mp hlast
          rw [List.dropLast_concat, s.step_lineEnd front (Or.inr rfl)]
        · rfl
      rw [List.splitOn_append_cons_self_of_not_mem hline, List.foldl_cons, List.foldl_cons,
        hreturn, ih _ List.not_mem_nil, List.nil_append]
    · next hc =>
      have hmem : '\n' ∉ line ++ [c] := by simpa using ⟨hline, Ne.symm hc⟩
      rw [ih _ hmem, List.append_assoc, List.singleton_append]

end YamlState

end Behest.SkillFile
