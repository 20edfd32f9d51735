import Mathlib.Data.List.TakeWhile
import Behest.Adapter.Sse
import Behest.Text.Trim

/-!
# The grammar of event streams

An event stream consists of lines, which end with a line feed, with a carriage return or with
both, the same throughout; a blank line ends a block. The parser
(`behest-adapter-anthropic/src/sse.rs`, and the same in `behest-adapter-openai/src/sse.rs`) looks
for the end of a block with all three line endings and for its lines with two of them, and takes
more from the values than the space that the grammar allows in front of them.
-/

namespace Behest

namespace Sse

/-! ### Lines -/

/-- What stands between two line ends. -/
structure Line where
  chars : List Char
  unbroken : ∀ c ∈ chars, isLineBreak c = false
deriving DecidableEq

namespace Line

def blank : Line := ⟨[], fun _ h => nomatch h⟩

def ofChars (chars : List Char) (h : chars.all (fun c => !isLineBreak c) = true) : Line where
  chars := chars
  unbroken := fun c hc => by simpa using List.all_eq_true.mp h c hc

end Line

/-- The line endings that the parser's documentation names. Source: `sse.rs:97–98`. -/
inductive LineEnding where
  | lf
  | crlf
  | cr
deriving DecidableEq

def LineEnding.chars : LineEnding → List Char
  | .lf => ['\n']
  | .crlf => ['\r', '\n']
  | .cr => ['\r']

/-- Lines, each with its end. -/
def text (e : LineEnding) (lines : List Line) : List Char :=
  lines.flatMap fun line => line.chars ++ e.chars

/-- The blocks of a list of lines, each up to the first blank line in it, and the lines behind the
last blank line. -/
def cutAtBlanks : List Line → List (List Line) × List Line
  | [] => ([], [])
  | line :: rest =>
      if line = .blank then ([line] :: (cutAtBlanks rest).1, (cutAtBlanks rest).2)
      else match cutAtBlanks rest with
        | ([], last) => ([], line :: last)
        | (block :: more, last) => ((line :: block) :: more, last)

variable {e : LineEnding} {line : Line} {lines front : List Line} {s : List Char}

@[simp] theorem text_nil : text e [] = [] := rfl

@[simp] theorem text_cons : text e (line :: lines) = line.chars ++ (e.chars ++ text e lines) := by
  rw [text, List.flatMap_cons, List.append_assoc]
  rfl

@[simp] theorem text_append (lines lines' : List Line) :
    text e (lines ++ lines') = text e lines ++ text e lines' := List.flatMap_append

/-- A text that does not start with a line end. -/
def StartsLine (s : List Char) : Prop := ∀ c ∈ s.head?, isLineBreak c = false

theorem Line.startsLine (h : line ≠ .blank) (s : List Char) : StartsLine (line.chars ++ s) := by
  obtain ⟨chars, hchars⟩ := line
  cases chars with
  | nil => exact absurd rfl h
  | cons c rest =>
    rintro _ ⟨⟩
    exact hchars c List.mem_cons_self

theorem startsLine_text (hlines : ∀ line ∈ lines, line ≠ .blank) (hs : StartsLine s) :
    StartsLine (text e lines ++ s) := by
  cases lines with
  | nil => exact hs
  | cons line rest =>
    rw [text_cons, List.append_assoc]
    exact Line.startsLine (hlines line List.mem_cons_self) _

/-- A block is lines that are not blank, and a blank line. -/
theorem of_mem_cutAtBlanks {block : List Line} (h : block ∈ (cutAtBlanks lines).1) :
    ∃ front, block = front ++ [.blank] ∧ ∀ line ∈ front, line ≠ .blank := by
  induction lines generalizing block with
  | nil => cases h
  | cons line rest ih =>
    rw [cutAtBlanks] at h
    split at h
    · next hblank =>
      rcases List.mem_cons.mp h with rfl | hrest
      · exact ⟨[], by rw [hblank]; rfl, fun _ h => nomatch h⟩
      · exact ih hrest
    · next hblank =>
      split at h
      · cases h
      · next first more last hcut =>
        rw [hcut] at ih
        rcases List.mem_cons.mp h with rfl | hmore
        · obtain ⟨front, rfl, hfront⟩ := ih List.mem_cons_self
          exact ⟨line :: front, rfl, List.forall_mem_cons.mpr ⟨hblank, hfront⟩⟩
        · exact ih (List.mem_cons_of_mem _ hmore)

/-- The blocks and the lines behind them are all lines, and no line behind them is blank. -/
theorem cutAtBlanks_spec (lines : List Line) :
    (cutAtBlanks lines).1.flatten ++ (cutAtBlanks lines).2 = lines ∧
      ∀ line ∈ (cutAtBlanks lines).2, line ≠ .blank := by
  induction lines with
  | nil => exact ⟨rfl, fun _ h => nomatch h⟩
  | cons line rest ih =>
    obtain ⟨hall, hlast⟩ := ih
    rw [cutAtBlanks]
    split
    · exact ⟨congrArg (line :: ·) hall, hlast⟩
    · next hblank =>
      split
      · next last hcut =>
        rw [hcut] at hall hlast
        exact ⟨congrArg (line :: ·) hall, List.forall_mem_cons.mpr ⟨hblank, hlast⟩⟩
      · next first more last hcut =>
        rw [hcut] at hall hlast
        exact ⟨congrArg (line :: ·) hall, hlast⟩

/-! ### Boundaries -/

theorem delimiter_of_startsLine (hs : StartsLine s) : delimiter s = none := by
  by_contra h
  obtain ⟨n, hn⟩ := Option.ne_none_iff_exists'.mp h
  obtain ⟨d, u, rfl, -, hd⟩ := delimiter_eq_some hn
  rcases hd with rfl | rfl | rfl <;> exact Bool.noConfusion (hs _ rfl)

/-- No boundary starts in a line. -/
theorem findEventBoundary_line (line : Line) (s : List Char) :
    findEventBoundary (line.chars ++ s) =
      (findEventBoundary s).map (· + line.chars.length) := by
  obtain ⟨chars, hchars⟩ := line
  induction chars with
  | nil => simp
  | cons c rest ih =>
    obtain ⟨hc, hrest⟩ := List.forall_mem_cons.mp hchars
    have hnone : delimiter (c :: (rest ++ s)) = none :=
      delimiter_of_startsLine (by rintro _ ⟨⟩; exact hc)
    rw [List.cons_append, findEventBoundary, hnone, ih hrest]
    simp only [Option.map_map, List.length_cons]
    rfl

/-- No boundary starts at the end of a line before a line that is not blank. -/
theorem findEventBoundary_ending (e : LineEnding) (hs : StartsLine s) :
    findEventBoundary (e.chars ++ s) = (findEventBoundary s).map (· + e.chars.length) := by
  cases s with
  | nil => cases e <;> rfl
  | cons c rest =>
    have hc : isLineBreak c = false := hs c rfl
    have hbreaks : ¬ '\n' = c ∧ ¬ '\r' = c := by
      constructor <;> rintro rfl <;> cases hc
    have hlf : delimiter ('\n' :: c :: rest) = none := by simp [delimiter, hbreaks]
    have hcr : delimiter ('\r' :: c :: rest) = none := by simp [delimiter, hbreaks]
    have hcrlf : delimiter ('\r' :: '\n' :: c :: rest) = none := by simp [delimiter, hbreaks]
    cases e with
    | lf =>
      change findEventBoundary ('\n' :: c :: rest) = _
      rw [findEventBoundary, hlf]
      rfl
    | crlf =>
      change findEventBoundary ('\r' :: '\n' :: c :: rest) = _
      rw [findEventBoundary, hcrlf, findEventBoundary, hlf]
      simp only [Option.map_map]
      rfl
    | cr =>
      change findEventBoundary ('\r' :: c :: rest) = _
      rw [findEventBoundary, hcr]
      rfl

/-- Two line ends are a boundary. -/
theorem findEventBoundary_blank (e : LineEnding) (s : List Char) :
    findEventBoundary (e.chars ++ (e.chars ++ s)) = some (e.chars.length + e.chars.length) := by
  cases e <;> rfl

/-- Lines that are not blank have no boundary in them. -/
theorem findEventBoundary_text (hlines : ∀ line ∈ lines, line ≠ .blank) (hs : StartsLine s) :
    findEventBoundary (text e lines ++ s) =
      (findEventBoundary s).map (· + (text e lines).length) := by
  induction lines with
  | nil => simp
  | cons line rest ih =>
    obtain ⟨-, hrest⟩ := List.forall_mem_cons.mp hlines
    rw [text_cons, List.append_assoc, List.append_assoc, findEventBoundary_line,
      findEventBoundary_ending e (startsLine_text hrest hs), ih hrest, Option.map_map,
      Option.map_map]
    congr 1
    funext n
    simp only [Function.comp_apply, List.length_append]
    omega

/-- The boundary of a block is at its end. -/
theorem findEventBoundary_block (hne : front ≠ []) (hfront : ∀ line ∈ front, line ≠ .blank)
    (more : List Char) :
    findEventBoundary (text e (front ++ [.blank]) ++ more) =
      some (text e (front ++ [.blank])).length := by
  obtain ⟨init, line, rfl⟩ := (List.eq_nil_or_concat' front).resolve_left hne
  obtain ⟨hinit, hline⟩ := List.forall_mem_append.mp hfront
  have hstarts := Line.startsLine (hline line List.mem_cons_self)
    (e.chars ++ (e.chars ++ more))
  have htext : text e (init ++ [line] ++ [.blank]) ++ more =
      text e init ++ (line.chars ++ (e.chars ++ (e.chars ++ more))) := by
    simp [Line.blank]
  rw [htext, findEventBoundary_text hinit hstarts, findEventBoundary_line,
    findEventBoundary_blank]
  simp only [Option.map_some, text_append, text_cons, text_nil, List.length_append,
    Line.blank, List.length_nil, Option.some.injEq]
  omega

/-- Behind the last block there is no boundary. -/
theorem findEventBoundary_last (hlines : ∀ line ∈ lines, line ≠ .blank) (tail : Line) :
    findEventBoundary (text e lines ++ tail.chars) = none := by
  have htail : findEventBoundary tail.chars = none := by
    rw [← List.append_nil tail.chars, findEventBoundary_line]
    rfl
  rw [findEventBoundary_text hlines, htail]
  · rfl
  · intro c hc
    exact tail.unbroken c (List.mem_of_mem_head? hc)

/-! ### Blocks -/

/-- The whole text: lines, and the start of one that is not ended yet. -/
def stream (e : LineEnding) (lines : List Line) (tail : Line) : List Char :=
  text e lines ++ tail.chars

/-- The text is cut behind the blank lines. -/
def CutAtBlanks (e : LineEnding) (lines : List Line) (tail : Line) : Prop :=
  blocks (stream e lines tail) =
    ((cutAtBlanks lines).1.map (text e), stream e (cutAtBlanks lines).2 tail)

theorem blocks_flatten {parts : List (List Line)} {s : List Char}
    (hparts : ∀ block ∈ parts, ∀ more,
      findEventBoundary (text e block ++ more) = some (text e block).length)
    (hs : findEventBoundary s = none) :
    blocks (text e parts.flatten ++ s) = (parts.map (text e), s) := by
  induction parts with
  | nil => exact blocks_of_none hs
  | cons block rest ih =>
    obtain ⟨hblock, hrest⟩ := List.forall_mem_cons.mp hparts
    rw [List.flatten_cons, text_append, List.append_assoc, blocks_of_some (hblock _),
      List.take_left, List.drop_left, ih hrest]
    rfl

/-- What is cut off ends with its first boundary. -/
theorem findEventBoundary_take {n : Nat} (h : findEventBoundary s = some n) :
    findEventBoundary (s.take n) = some n := by
  induction s generalizing n with
  | nil => cases h
  | cons c rest ih =>
    rcases findEventBoundary_cons_eq_some h with ⟨d, u, hd, rfl, hcases⟩ | ⟨hnone, m, hm, rfl⟩
    · rw [hd, List.take_left]
      rcases hcases with rfl | rfl | rfl <;> rfl
    · have hnone' : delimiter (c :: rest.take m) = none := by
        by_contra hsome
        obtain ⟨k, hk⟩ := Option.ne_none_iff_exists'.mp hsome
        obtain ⟨d, u, hd, -, hcases⟩ := delimiter_eq_some hk
        have hwhole : c :: rest = d ++ (u ++ rest.drop m) := by
          rw [← List.append_assoc, ← hd, List.cons_append, List.take_append_drop]
        rw [hwhole, delimiter_append_left hcases] at hnone
        cases hnone
      rw [List.take_succ_cons, findEventBoundary, hnone', ih hm]
      rfl

theorem findEventBoundary_of_mem_blocks {b : List Char} (h : b ∈ (blocks s).1) :
    findEventBoundary b = some b.length := by
  induction s using blocks.induct with
  | case1 s hnone =>
    rw [blocks_of_none hnone] at h
    cases h
  | case2 s n hsome ih =>
    rw [blocks_of_some hsome] at h
    rcases List.mem_cons.mp h with rfl | hrest
    · rw [findEventBoundary_take hsome,
        List.length_take_of_le (findEventBoundary_bounds hsome).2]
    · exact ih hrest

/-- Text is cut behind the blank lines exactly when each of them has a line in front of it that is
not blank. -/
theorem cutAtBlanks_iff (e : LineEnding) (lines : List Line) (tail : Line) :
    CutAtBlanks e lines tail ↔
      ∀ block ∈ (cutAtBlanks lines).1, ∀ line ∈ block.head?, line ≠ .blank := by
  obtain ⟨hall, hlast⟩ := cutAtBlanks_spec lines
  constructor
  · intro h block hblock line hline
    obtain ⟨front, rfl, hfront⟩ := of_mem_cutAtBlanks hblock
    cases front with
    | nil =>
      -- a line end alone is not a boundary
      have hmem : text e [.blank] ∈ (blocks (stream e lines tail)).1 := by
        rw [h]
        exact List.mem_map_of_mem hblock
      have hboundary := findEventBoundary_of_mem_blocks hmem
      cases e <;> cases hboundary
    | cons first rest =>
      cases hline
      exact hfront _ List.mem_cons_self
  · intro h
    have hparts : ∀ block ∈ (cutAtBlanks lines).1, ∀ more,
        findEventBoundary (text e block ++ more) = some (text e block).length := by
      intro block hblock
      obtain ⟨front, rfl, hfront⟩ := of_mem_cutAtBlanks hblock
      refine findEventBoundary_block ?_ hfront
      rintro rfl
      exact h _ hblock .blank rfl rfl
    have hblocks := blocks_flatten hparts (findEventBoundary_last (e := e) hlast tail)
    rw [← List.append_assoc, ← text_append, hall] at hblocks
    exact hblocks

/-! ### Fields -/

/-- The value of a field, which the grammar allows one space in front of. -/
def withoutSpace : List Char → List Char
  | ' ' :: value => value
  | value => value

/-- The value of a line that has the field. -/
def fieldValue (field : List Char) (line : Line) : Option (List Char) :=
  (stripPrefix field line.chars).map withoutSpace

def dataValues (block : List Line) : List (List Char) := block.filterMap (fieldValue dataField)

/-- The value of the last event field. -/
def eventName (block : List Line) : Option (List Char) :=
  (block.filterMap (fieldValue eventField)).getLast?

/-- The event that the grammar makes of a block. -/
def grammarEvent (block : List Line) : Option SseEvent :=
  if (dataValues block).isEmpty then none
  else some ⟨(eventName block).map String.ofList,
    String.ofList (List.intercalate ['\n'] (dataValues block))⟩

/-- The value does not start with white space. -/
def StartsClear (value : List Char) : Prop := ∀ c ∈ value.head?, isWhitespace c = false

/-- The value does not end with white space. -/
def EndsClear (value : List Char) : Prop := ∀ c ∈ value.getLast?, isWhitespace c = false

/-- What the parser reads like the grammar: a block without data; lines with line feeds whose
values are not trimmed any further; or lines with carriage returns only, when the first is a data
line without a value and there is nothing but white space behind it. -/
def Readable (e : LineEnding) (block : List Line) : Prop :=
  dataValues block = [] ∨
    match e with
    | .cr => ∃ line rest, block = line :: rest ∧ fieldValue dataField line = some [] ∧
        ∀ other ∈ rest, ∀ c ∈ other.chars, isWhitespace c = true
    | _ => (∀ value ∈ dataValues block, StartsClear value) ∧
        ∀ name ∈ eventName block, StartsClear name ∧ EndsClear name

variable {block : List Line} {value : List Char}

theorem trimStart_withoutSpace (value : List Char) :
    trimStart (withoutSpace value) = trimStart value := by
  unfold withoutSpace
  split
  · next value => exact (List.dropWhile_cons_of_pos rfl).symm
  · rfl

theorem trim_withoutSpace (value : List Char) : trim (withoutSpace value) = trim value := by
  rw [trim, trimStart_withoutSpace, trim]

theorem trimStart_eq_self_iff : trimStart value = value ↔ StartsClear value := by
  cases value with
  | nil => exact iff_of_true rfl fun _ h => nomatch h
  | cons c rest =>
    rw [trimStart, List.dropWhile_eq_self_iff]
    simp [StartsClear]

theorem trim_eq_self_iff : trim value = value ↔ StartsClear value ∧ EndsClear value := by
  refine ⟨fun h => ?_, fun h => Text.trimBy_eq_self h.1 h.2⟩
  have hends := Text.trimBy_ends (p := isWhitespace) value
  have htrim : Text.trimBy isWhitespace value = value := h
  rwa [htrim] at hends

theorem mem_trimStart {c : Char} (h : c ∈ trimStart value) : c ∈ value :=
  (List.dropWhile_suffix _).subset h

theorem stripPrefix_unbroken {field : List Char} {line : Line}
    (h : stripPrefix field line.chars = some value) : ∀ c ∈ value, isLineBreak c = false := by
  rw [stripPrefix] at h
  split at h
  · cases h
    exact fun c hc => line.unbroken c (List.mem_of_mem_drop hc)
  · cases h

/-- A line has one of the two fields only. -/
theorem stripPrefix_dataField_of_event {line : List Char}
    (h : stripPrefix eventField line = some value) : stripPrefix dataField line = none := by
  rw [stripPrefix] at h
  split at h
  · next hevent =>
    obtain ⟨u, rfl⟩ := List.isPrefixOf_iff_prefix.mp hevent
    rfl
  · cases h

/-- The fields that the parser collects over the lines. -/
theorem foldl_blockLine (lines : List (List Char)) (acc : Option String × List (List Char)) :
    lines.foldl blockLine acc =
      (((lines.filterMap (stripPrefix eventField)).getLast?.map fun value =>
          String.ofList (trim value)).or acc.1,
        acc.2 ++ (lines.filterMap (stripPrefix dataField)).map trimStart) := by
  induction lines generalizing acc with
  | nil => simp
  | cons line rest ih =>
    rw [List.foldl_cons, ih, blockLine, List.filterMap_cons, List.filterMap_cons]
    cases hevent : stripPrefix eventField line with
    | some value =>
      rw [stripPrefix_dataField_of_event hevent, List.getLast?_cons]
      cases (rest.filterMap (stripPrefix eventField)).getLast? <;> rfl
    | none =>
      cases hdata : stripPrefix dataField line with
      | some value => simp
      | none => simp

/-! ### Lines with line feeds -/

theorem linesFrom_append {front : List Char} (hfront : '\n' ∉ front) (line s : List Char) :
    linesFrom line (front ++ s) = linesFrom (line ++ front) s := by
  induction front generalizing line with
  | nil => rw [List.nil_append, List.append_nil]
  | cons c rest ih =>
    have hc : c ≠ '\n' := fun h => hfront (h ▸ List.mem_cons_self)
    rw [List.cons_append, linesFrom, if_neg hc, ih fun h => hfront (List.mem_cons_of_mem _ h),
      List.append_assoc, List.singleton_append]

theorem Line.not_mem (line : Line) {c : Char} (hc : isLineBreak c = true) : c ∉ line.chars :=
  fun h => absurd hc (by rw [line.unbroken c h]; exact Bool.false_ne_true)

theorem stripReturn_line (line : Line) :
    stripReturn line.chars = line.chars ∧ stripReturn (line.chars ++ ['\r']) = line.chars := by
  constructor
  · rw [stripReturn, if_neg]
    exact fun h => line.not_mem rfl (List.mem_of_getLast? h)
  · rw [stripReturn, List.getLast?_concat, if_pos rfl, List.dropLast_concat]

/-- The lines of a text with line feeds are those that it was made of. -/
theorem linesFrom_text (he : e ≠ .cr) (lines : List Line) :
    linesFrom [] (text e lines) = lines.map Line.chars := by
  induction lines with
  | nil => rfl
  | cons line rest ih =>
    rw [text_cons, linesFrom_append (line.not_mem rfl), List.nil_append, List.map_cons, ← ih]
    cases e with
    | lf =>
      change linesFrom line.chars ('\n' :: text .lf rest) = _
      rw [linesFrom, if_pos rfl, (stripReturn_line line).1]
    | crlf =>
      change linesFrom line.chars ('\r' :: '\n' :: text .crlf rest) = _
      rw [linesFrom, if_neg (by decide), linesFrom, if_pos rfl, (stripReturn_line line).2]
    | cr => exact absurd rfl he

/-- What the parser reads from lines: the values of the grammar, trimmed. -/
theorem parseEventBlock_text (he : e ≠ .cr) (block : List Line) :
    parseEventBlock (text e block) =
      if (dataValues block).isEmpty then none
      else some ⟨(eventName block).map fun name => String.ofList (trim name),
        String.ofList (List.intercalate ['\n'] ((dataValues block).map trimStart))⟩ := by
  have hdata : (dataValues block).map trimStart =
      ((block.map Line.chars).filterMap (stripPrefix dataField)).map trimStart := by
    rw [dataValues, List.filterMap_map, List.map_filterMap, List.map_filterMap]
    congr 1
    funext line
    simp [fieldValue, Function.comp_def, trimStart_withoutSpace]
  have hevent : ((eventName block).map fun name => String.ofList (trim name)) =
      ((block.map Line.chars).filterMap (stripPrefix eventField)).getLast?.map
        fun name => String.ofList (trim name) := by
    rw [eventName, List.filterMap_map, ← List.getLast?_map, ← List.getLast?_map,
      List.map_filterMap, List.map_filterMap]
    congr 2
    funext line
    simp [fieldValue, Function.comp_def, trim_withoutSpace]
  have hempty : (dataValues block).isEmpty = ((dataValues block).map trimStart).isEmpty :=
    List.isEmpty_map.symm
  rw [parseEventBlock, linesFrom_text he, foldl_blockLine, hempty, hdata, hevent]
  simp only [List.nil_append, Option.or_none]

/-- Joined lines are the same when the lines are. -/
theorem intercalate_injective {values values' : List (List Char)} (hne : values ≠ [])
    (hne' : values' ≠ []) (hvalues : ∀ value ∈ values, '\n' ∉ value)
    (hvalues' : ∀ value ∈ values', '\n' ∉ value)
    (h : List.intercalate ['\n'] values = List.intercalate ['\n'] values') :
    values = values' := by
  rw [← List.splitOn_intercalate '\n' hvalues hne, h,
    List.splitOn_intercalate '\n' hvalues' hne']

theorem dataValues_unbroken (hvalue : value ∈ dataValues block) :
    ∀ c ∈ value, isLineBreak c = false := by
  obtain ⟨line, -, hline⟩ := List.mem_filterMap.mp hvalue
  obtain ⟨whole, hwhole, rfl⟩ := Option.map_eq_some_iff.mp hline
  have hunbroken := stripPrefix_unbroken hwhole
  intro c hc
  refine hunbroken c ?_
  unfold withoutSpace at hc
  split at hc
  · exact List.mem_cons_of_mem _ hc
  · exact hc

theorem newline_not_mem_dataValues (hvalue : value ∈ dataValues block) : '\n' ∉ value :=
  fun h => Bool.noConfusion (dataValues_unbroken hvalue _ h)

/-- With line feeds, a block is read like the grammar exactly when it has no data, or values that
are not trimmed. -/
theorem parseEventBlock_eq_iff_of_ne_cr (he : e ≠ .cr) (block : List Line) :
    parseEventBlock (text e block) = grammarEvent block ↔ Readable e block := by
  have hreadable : Readable e block ↔ dataValues block = [] ∨
      (∀ value ∈ dataValues block, StartsClear value) ∧
        ∀ name ∈ eventName block, StartsClear name ∧ EndsClear name := by
    cases e with
    | cr => exact absurd rfl he
    | lf => exact Iff.rfl
    | crlf => exact Iff.rfl
  rw [parseEventBlock_text he, grammarEvent, hreadable]
  by_cases hempty : dataValues block = []
  · simp [hempty]
  rw [if_neg (by simpa using hempty), if_neg (by simpa using hempty), or_iff_right hempty,
    Option.some.injEq, SseEvent.mk.injEq, String.ofList_inj, and_comm]
  refine and_congr ?_ ?_
  · constructor
    · intro h value hvalue
      have hsame := intercalate_injective (by simpa using hempty) hempty
        (fun trimmed htrimmed hmem => by
          obtain ⟨value, hvalue, rfl⟩ := List.mem_map.mp htrimmed
          exact newline_not_mem_dataValues hvalue (mem_trimStart hmem))
        (fun _ => newline_not_mem_dataValues) h
      have hpoint := List.map_inj_left.mp (hsame.trans (List.map_id' _).symm) value hvalue
      exact trimStart_eq_self_iff.mp hpoint
    · intro h
      rw [List.map_congr_left fun value hvalue => trimStart_eq_self_iff.mpr (h value hvalue),
        List.map_id']
  · cases eventName block with
    | none => simp
    | some name => simp [String.ofList_inj, trim_eq_self_iff]

/-! ### Lines with carriage returns only -/

/-- To the parser, carriage returns alone make one line of everything. -/
theorem linesFrom_text_cr (block : List Line) :
    linesFrom [] (text .cr block) = if block.isEmpty then [] else [text .cr block] := by
  have hnewline : '\n' ∉ text .cr block := by
    intro h
    obtain ⟨line, -, hline⟩ := List.mem_flatMap.mp h
    rcases List.mem_append.mp hline with hchars | hend
    · exact line.not_mem rfl hchars
    · exact absurd hend (by decide)
  have hwhole := linesFrom_append hnewline [] []
  rw [List.append_nil, List.nil_append] at hwhole
  rw [hwhole, linesFrom]
  cases block with
  | nil => rfl
  | cons line rest =>
    rw [if_neg]
    · rfl
    · simp [LineEnding.chars]

/-- A field starts a text when it starts the first line. -/
theorem stripPrefix_append_cons {field : List Char} {c : Char} (hc : c ∉ field)
    (line rest : List Char) :
    stripPrefix field (line ++ c :: rest) =
      (stripPrefix field line).map (· ++ c :: rest) := by
  rw [stripPrefix, stripPrefix, Text.isPrefixOf_append_cons hc]
  split
  · next h =>
    have hle := (List.isPrefixOf_iff_prefix.mp h).length_le
    rw [List.drop_append_of_le_length hle]
    rfl
  · rfl

/-- What the parser reads then: the first line with all that is behind it. -/
theorem parseEventBlock_text_cr (line : Line) (rest : List Line) :
    parseEventBlock (text .cr (line :: rest)) =
      (stripPrefix dataField line.chars).map fun value =>
        ⟨none, String.ofList (trimStart (value ++ '\r' :: text .cr rest))⟩ := by
  have htext : text .cr (line :: rest) = line.chars ++ '\r' :: text .cr rest := text_cons
  rw [parseEventBlock, linesFrom_text_cr, List.isEmpty_cons, if_neg Bool.false_ne_true,
    List.foldl_cons, List.foldl_nil, blockLine, htext, stripPrefix_append_cons (by decide),
    stripPrefix_append_cons (by decide)]
  cases hevent : stripPrefix eventField line.chars with
  | some name =>
    rw [stripPrefix_dataField_of_event hevent]
    rfl
  | none =>
    cases stripPrefix dataField line.chars with
    | some value => simp
    | none => rfl

theorem trimStart_eq_nil_iff : trimStart value = [] ↔ ∀ c ∈ value, isWhitespace c = true :=
  List.dropWhile_eq_nil_iff

theorem getLast?_return_text (rest : List Line) :
    ('\r' :: text .cr rest).getLast? = some '\r' := by
  induction rest with
  | nil => rfl
  | cons line rest ih =>
    rw [text_cons]
    change ('\r' :: line.chars ++ '\r' :: text .cr rest).getLast? = _
    rw [List.getLast?_append, ih]
    rfl

/-- What is left of a text that is trimmed at its start has the end of the text. -/
theorem mem_trimStart_of_getLast? {c : Char} (hlast : value.getLast? = some c)
    (h : trimStart value ≠ []) : c ∈ trimStart value := by
  obtain ⟨removed, hremoved⟩ : trimStart value <:+ value := List.dropWhile_suffix _
  rw [← hremoved, List.getLast?_append_of_ne_nil _ h] at hlast
  exact List.mem_of_getLast? hlast

theorem isWhitespace_text_cr (rest : List Line) :
    (∀ c ∈ text .cr rest, isWhitespace c = true) ↔
      ∀ other ∈ rest, ∀ c ∈ other.chars, isWhitespace c = true := by
  constructor
  · intro h other hother c hc
    exact h c (List.mem_flatMap.mpr ⟨other, hother, List.mem_append_left _ hc⟩)
  · intro h c hc
    obtain ⟨other, hother, hmem⟩ := List.mem_flatMap.mp hc
    rcases List.mem_append.mp hmem with hchars | hend
    · exact h other hother c hchars
    · obtain rfl := List.mem_singleton.mp hend
      rfl

/-- A line of white space has no field. -/
theorem fieldValue_of_isWhitespace {field : List Char}
    (hfield : ∃ c ∈ field, isWhitespace c = false)
    {line : Line} (h : ∀ c ∈ line.chars, isWhitespace c = true) : fieldValue field line = none := by
  rw [fieldValue, stripPrefix, if_neg]
  · rfl
  · intro hprefix
    obtain ⟨c, hc, hclear⟩ := hfield
    have hmem := (List.isPrefixOf_iff_prefix.mp hprefix).subset hc
    exact Bool.false_ne_true (hclear.symm.trans (h c hmem))

theorem grammarEvent_eq_none_iff : grammarEvent block = none ↔ dataValues block = [] := by
  rw [grammarEvent]
  split
  · next h => exact iff_of_true rfl (List.isEmpty_iff.mp h)
  · next h => exact iff_of_false (Option.some_ne_none _) fun hempty => h (by rw [hempty]; rfl)

theorem return_not_mem_intercalate {values : List (List Char)}
    (h : ∀ value ∈ values, '\r' ∉ value) : '\r' ∉ List.intercalate ['\n'] values := by
  induction values with
  | nil => exact List.not_mem_nil
  | cons value rest ih =>
    obtain ⟨hvalue, hrest⟩ := List.forall_mem_cons.mp h
    cases rest with
    | nil => rwa [List.intercalate_singleton]
    | cons next more =>
      rw [List.intercalate_cons_cons, List.mem_append, List.mem_append]
      rintro ((hmem | hmem) | hmem)
      · exact hvalue hmem
      · exact absurd hmem (by decide)
      · exact ih hrest hmem

/-- A block whose first line has data, and white space behind it. -/
theorem grammarEvent_of_isWhitespace {line : Line} {rest : List Line}
    (hline : fieldValue dataField line = some value)
    (hrest : ∀ other ∈ rest, ∀ c ∈ other.chars, isWhitespace c = true) :
    grammarEvent (line :: rest) = some ⟨none, String.ofList value⟩ := by
  have hnone : ∀ field : List Char, (∃ c ∈ field, isWhitespace c = false) →
      rest.filterMap (fieldValue field) = [] := fun field hfield =>
    List.filterMap_eq_nil_iff.mpr fun other hother =>
      fieldValue_of_isWhitespace hfield (hrest other hother)
  have hevent : fieldValue eventField line = none := by
    obtain ⟨whole, hwhole, -⟩ := Option.map_eq_some_iff.mp hline
    rw [fieldValue]
    cases hname : stripPrefix eventField line.chars with
    | none => rfl
    | some name => cases (stripPrefix_dataField_of_event hname).symm.trans hwhole
  rw [grammarEvent, dataValues, eventName, List.filterMap_cons_some hline,
    List.filterMap_cons_none hevent, hnone dataField ⟨'d', List.mem_cons_self, rfl⟩,
    hnone eventField ⟨'e', List.mem_cons_self, rfl⟩]
  simp

/-- What is read of a data line and all behind it is nothing when all of it is white space. -/
theorem trimStart_read_eq_nil_iff (value : List Char) (rest : List Line) :
    trimStart (value ++ '\r' :: text .cr rest) = [] ↔
      trimStart value = [] ∧ ∀ other ∈ rest, ∀ c ∈ other.chars, isWhitespace c = true := by
  rw [trimStart_eq_nil_iff, List.forall_mem_append, List.forall_mem_cons, trimStart_eq_nil_iff,
    isWhitespace_text_cr]
  exact and_congr_right fun _ => and_iff_right rfl

/-- Otherwise it ends with a carriage return, which is in no value. -/
theorem trimStart_read_ne {rest : List Line} {values : List (List Char)}
    (hvalues : ∀ value ∈ values, '\r' ∉ value)
    (h : trimStart (value ++ '\r' :: text .cr rest) ≠ []) :
    trimStart (value ++ '\r' :: text .cr rest) ≠ List.intercalate ['\n'] values := by
  intro hjoined
  have hlast : (value ++ '\r' :: text .cr rest).getLast? = some '\r' := by
    rw [List.getLast?_append, getLast?_return_text]
    rfl
  exact return_not_mem_intercalate hvalues (hjoined ▸ mem_trimStart_of_getLast? hlast h)

/-- With carriage returns only, a block is read like the grammar exactly when it has no data, or a
data line without a value and nothing behind it. -/
theorem parseEventBlock_eq_iff_cr (block : List Line) :
    parseEventBlock (text .cr block) = grammarEvent block ↔ Readable .cr block := by
  cases block with
  | nil => exact iff_of_true rfl (.inl rfl)
  | cons line rest =>
    rw [parseEventBlock_text_cr]
    cases hdata : stripPrefix dataField line.chars with
    | none =>
      rw [Option.map_none, eq_comm, grammarEvent_eq_none_iff]
      refine ⟨.inl, fun h => h.resolve_right ?_⟩
      rintro ⟨_, _, heq, hvalue, -⟩
      obtain ⟨rfl, -⟩ := List.cons.inj heq
      rw [fieldValue, hdata] at hvalue
      cases hvalue
    | some whole =>
      have hvalue : fieldValue dataField line = some (withoutSpace whole) := by
        rw [fieldValue, hdata, Option.map_some]
      have hne : dataValues (line :: rest) ≠ [] := by
        rw [dataValues, List.filterMap_cons_some hvalue]
        exact List.cons_ne_nil _ _
      rw [Option.map_some, Readable, or_iff_right hne]
      constructor
      · intro h
        have hnil : trimStart (whole ++ '\r' :: text .cr rest) = [] := by
          by_contra hsome
          rw [grammarEvent, if_neg (by simpa using hne)] at h
          exact trimStart_read_ne
            (fun value hvalue hr => Bool.noConfusion (dataValues_unbroken hvalue _ hr)) hsome
            (String.ofList_inj.mp (SseEvent.mk.inj (Option.some.inj h)).2)
        have hrest := ((trimStart_read_eq_nil_iff whole rest).mp hnil).2
        rw [grammarEvent_of_isWhitespace hvalue hrest, hnil] at h
        have hempty := String.ofList_inj.mp (SseEvent.mk.inj (Option.some.inj h)).2
        exact ⟨line, rest, rfl, hvalue.trans (congrArg some hempty.symm), hrest⟩
      · rintro ⟨_, _, heq, hempty, hrest⟩
        obtain ⟨rfl, rfl⟩ := List.cons.inj heq
        have hwhole : trimStart whole = [] := by
          rw [← trimStart_withoutSpace, Option.some.inj (hvalue.symm.trans hempty)]
          rfl
        rw [grammarEvent_of_isWhitespace hempty hrest,
          (trimStart_read_eq_nil_iff whole rest).mpr ⟨hwhole, hrest⟩]

theorem parseEventBlock_eq_iff (e : LineEnding) (block : List Line) :
    parseEventBlock (text e block) = grammarEvent block ↔ Readable e block := by
  by_cases he : e = .cr
  · rw [he]
    exact parseEventBlock_eq_iff_cr block
  · exact parseEventBlock_eq_iff_of_ne_cr he block

/-! ### Events -/

/-- An event that can be written: its name is a line, and so are the parts of its data. -/
structure PlainEvent where
  name : Option Line
  data : List Line
  hasData : data ≠ []

namespace PlainEvent

def eventStart : Line := .ofChars eventField (by decide)

def dataStart : Line := .ofChars dataField (by decide)

/-- The line of a field. -/
def fieldLine (field : Line) (value : Line) : Line where
  chars := field.chars ++ ' ' :: value.chars
  unbroken := List.forall_mem_append.mpr
    ⟨field.unbroken, List.forall_mem_cons.mpr ⟨rfl, value.unbroken⟩⟩

/-- The lines of an event, without the blank line. -/
def fieldLines (event : PlainEvent) : List Line :=
  (event.name.map (fieldLine eventStart)).toList ++ event.data.map (fieldLine dataStart)

/-- The block of an event. -/
def rendered (event : PlainEvent) : List Line := event.fieldLines ++ [.blank]

def toSseEvent (event : PlainEvent) : SseEvent :=
  ⟨event.name.map fun name => String.ofList name.chars,
    String.ofList (List.intercalate ['\n'] (event.data.map Line.chars))⟩

variable (event : PlainEvent)

theorem fieldLines_ne_nil : event.fieldLines ≠ [] := fun h =>
  event.hasData (List.map_eq_nil_iff.mp (List.append_eq_nil_iff.mp h).2)

theorem ne_blank_of_mem_fieldLines : ∀ line ∈ event.fieldLines, line ≠ .blank := by
  have hfield : ∀ field value : Line, fieldLine field value ≠ .blank := by
    intro field value h
    have hchars : field.chars ++ ' ' :: value.chars = [] := congrArg Line.chars h
    exact List.cons_ne_nil _ _ (List.append_eq_nil_iff.mp hchars).2
  refine List.forall_mem_append.mpr ⟨fun line hline => ?_, fun line hline => ?_⟩
  · obtain ⟨name, -, rfl⟩ := Option.map_eq_some_iff.mp (Option.mem_toList.mp hline)
    exact hfield _ _
  · obtain ⟨value, -, rfl⟩ := List.mem_map.mp hline
    exact hfield _ _

/-- The value of a field that was written. -/
theorem fieldValue_fieldLine (field value : Line) :
    fieldValue field.chars (fieldLine field value) = some value.chars := by
  have hprefix : field.chars.isPrefixOf (field.chars ++ ' ' :: value.chars) = true :=
    List.isPrefixOf_iff_prefix.mpr (List.prefix_append _ _)
  have hstrip : stripPrefix field.chars (fieldLine field value).chars =
      some (' ' :: value.chars) := by
    rw [stripPrefix, fieldLine, if_pos hprefix, List.drop_left]
  rw [fieldValue, hstrip]
  rfl

theorem dataValues_rendered : dataValues event.rendered = event.data.map Line.chars := by
  have hname : (event.name.map (fieldLine eventStart)).toList.filterMap
      (fieldValue dataField) = [] := by
    cases event.name <;> rfl
  have hdata : (event.data.map (fieldLine dataStart)).filterMap
      (fieldValue dataField) = event.data.map Line.chars := by
    rw [List.filterMap_map, ← List.filterMap_eq_map]
    exact List.filterMap_congr fun value _ => fieldValue_fieldLine dataStart value
  rw [dataValues, rendered, fieldLines, List.filterMap_append, List.filterMap_append, hname, hdata]
  exact List.append_nil _

theorem eventName_rendered : eventName event.rendered = event.name.map Line.chars := by
  have hdata : (event.data.map (fieldLine dataStart)).filterMap
      (fieldValue eventField) = [] := by
    rw [List.filterMap_map]
    exact List.filterMap_eq_nil_iff.mpr fun value _ => rfl
  rw [eventName, rendered, fieldLines, List.filterMap_append, List.filterMap_append, hdata]
  cases event.name with
  | none => rfl
  | some name =>
    have hname : fieldValue eventField (fieldLine eventStart name) = some name.chars :=
      fieldValue_fieldLine eventStart name
    rw [Option.map_some, Option.toList_some, List.filterMap_cons_some hname]
    rfl

/-- An event that is written is, to the grammar, the same event. -/
theorem grammarEvent_rendered : grammarEvent event.rendered = some event.toSseEvent := by
  have hdata : ¬ (dataValues event.rendered).isEmpty = true := by
    rw [dataValues_rendered, List.isEmpty_map, List.isEmpty_iff]
    exact event.hasData
  rw [grammarEvent, if_neg hdata, dataValues_rendered, eventName_rendered, Option.map_map]
  rfl

/-- The first event of a buffer is the one that was written exactly when its block is readable. -/
theorem extractEvent_iff (e : LineEnding) (more : List Char) :
    extractEvent (text e event.rendered ++ more) = (some event.toSseEvent, more) ↔
      Readable e event.rendered := by
  have hboundary : findEventBoundary (text e event.rendered ++ more) =
      some (text e event.rendered).length :=
    findEventBoundary_block event.fieldLines_ne_nil event.ne_blank_of_mem_fieldLines more
  rw [← parseEventBlock_eq_iff, grammarEvent_rendered, extractEvent_of_some hboundary,
    List.take_left, List.drop_left, Prod.mk.injEq, and_iff_left rfl]

end PlainEvent

/-! ### The grammar -/

/-- A text is read like the grammar says: it is cut behind the blank lines, and each block gives
its event. -/
structure ReadsGrammar (e : LineEnding) (lines : List Line) (tail : Line) : Prop where
  cut : CutAtBlanks e lines tail
  parsed : ∀ block ∈ (cutAtBlanks lines).1, parseEventBlock (text e block) = grammarEvent block

/-- A text is read like the grammar says exactly when all its blocks start with a line that is not
blank and are readable; what is written as an event is that event when it is read exactly when its
block is readable. -/
theorem readsGrammar_iff (e : LineEnding) :
    (∀ (lines : List Line) (tail : Line), ReadsGrammar e lines tail ↔
      ∀ block ∈ (cutAtBlanks lines).1,
        (∀ line ∈ block.head?, line ≠ .blank) ∧ Readable e block) ∧
    ∀ (event : PlainEvent) (more : List Char),
      extractEvent (text e event.rendered ++ more) = (some event.toSseEvent, more) ↔
        Readable e event.rendered := by
  refine ⟨fun lines tail => ?_, fun event more => event.extractEvent_iff e more⟩
  constructor
  · intro h block hblock
    exact ⟨(cutAtBlanks_iff e lines tail).mp h.cut block hblock,
      (parseEventBlock_eq_iff e block).mp (h.parsed block hblock)⟩
  · intro h
    exact ⟨(cutAtBlanks_iff e lines tail).mpr fun block hblock => (h block hblock).1,
      fun block hblock => (parseEventBlock_eq_iff e block).mpr (h block hblock).2⟩

/-- The line `data: hello`. -/
def helloLine : Line := .ofChars "data: hello".toList (by decide)

/-- A data line whose value starts with a space of its own. -/
def indentedLine : Line := .ofChars "data:  hello".toList (by decide)

/-- With carriage returns the value has the line ends; with line feeds it has no indentation. -/
theorem hello_misread :
    ¬ ReadsGrammar .cr [helloLine, .blank] .blank ∧
      ¬ ReadsGrammar .lf [indentedLine, .blank] .blank := by
  refine ⟨fun h => ?_, fun h => ?_⟩
  · exact absurd (h.parsed [helloLine, .blank] (by decide)) (by decide)
  · exact absurd (h.parsed [indentedLine, .blank] (by decide)) (by decide)

end Sse

end Behest
