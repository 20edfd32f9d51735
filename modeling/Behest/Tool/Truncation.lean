import Mathlib.Data.String.Basic
import Behest.Tool.Output

/-!
# What truncation keeps

The truncated text of an output (`behest-runtime/src/tool_output.rs:63–206`) as a sequence of
pieces, those kept of the output and the markers between them, and when it is what it is meant to
be: within the limits but for the markers, a front and a back of the output, and markers that
count the lines left out.
-/

namespace Behest.ToolOutput

/-- A piece of a truncated text: kept text with the lines it counts for, or a marker with the
number of omitted lines that it states, if it does. -/
inductive Piece where
  | kept (text : String) (lines : Nat)
  | marker (text : String) (omitted : Option Nat)

namespace Piece

def text : Piece → String
  | kept text _ | marker text _ => text

def keptText? : Piece → Option String
  | kept text _ => some text
  | marker .. => none

def keptLines : Piece → Nat
  | kept _ lines => lines
  | marker .. => 0

def stated? : Piece → Option (Option Nat)
  | kept .. => none
  | marker _ omitted => some omitted

/-- A piece with a part of its characters. -/
def part (f : List Char → List Char) : Piece → Piece
  | kept text _ =>
      kept (String.ofList (f text.toList)) (lines (String.ofList (f text.toList))).length
  | marker text omitted => marker (String.ofList (f text.toList)) omitted

end Piece

def render (pieces : List Piece) : String := String.join (pieces.map Piece.text)

/-- The first characters. -/
def takeChars : Nat → List Piece → List Piece
  | _, [] => []
  | k, piece :: rest =>
      piece.part (List.take k) :: takeChars (k - piece.text.length) rest

/-- All but the first characters. -/
def dropChars : Nat → List Piece → List Piece
  | _, [] => []
  | k, piece :: rest =>
      piece.part (List.drop k) :: dropChars (k - piece.text.length) rest

/-- The number of lines that a marker says are omitted. Source: `tool_output.rs:187–191`. -/
def statedOmitted (totalLines : Nat) : Nat :=
  totalLines -
    if totalLines > 4 then halfUp (min totalLines defaultMaxLines) * 2 else min totalLines 1

/-- The limits of a configuration, and the file that a marker may name. -/
structure Limits where
  maxLines : Nat
  maxBytes : Nat
  outputDir : Option String
  identifier : Option String

namespace Limits

variable (limits : Limits) (output : String)

def config : ToolOutputConfig :=
  ⟨some limits.maxLines, some limits.maxBytes, limits.outputDir⟩

def truncated : String := truncateOutput output limits.config limits.identifier

def within : Prop :=
  (lines output).length ≤ limits.maxLines ∧ output.utf8ByteSize ≤ limits.maxBytes

instance : Decidable (limits.within output) := inferInstanceAs (Decidable (_ ∧ _))

/-- The lines that are kept at most. -/
def budget : Nat := min limits.maxLines (lines output).length

/-- The first lines, and the last ones. -/
def front : String := String.intercalate "\n" ((lines output).take (halfUp (limits.budget output)))

def back : String :=
  String.intercalate "\n"
    ((lines output).drop ((lines output).length - limits.budget output / 2))

def marker : String :=
  truncationMarker (lines output).length output.utf8ByteSize limits.identifier limits.outputDir

/-- The pieces of `sample`. -/
def sampledPieces : List Piece :=
  if limits.budget output > 4 then
    [.kept (limits.front output) (halfUp (limits.budget output)),
      .marker ("\n" ++ limits.marker output ++ "\n") (some (statedOmitted (lines output).length)),
      .kept (limits.back output) (limits.budget output / 2)]
  else
    let front := String.ofList (output.toList.take limits.maxBytes)
    [.kept front (lines front).length,
      .marker ("\n" ++ limits.marker output) (some (statedOmitted (lines output).length)),
      .kept "" 0]

/-- The pieces of `limitBytes`. Its marker states totals, not what is omitted. -/
def limitedPieces (pieces : List Piece) : List Piece :=
  if (render pieces).utf8ByteSize > limits.maxBytes then
    let headBytes := limits.maxBytes * 3 / 4
    let tailBytes := limits.maxBytes - headBytes
    takeChars headBytes pieces ++
      .marker ("\n... output truncated (" ++ toString (lines output).length ++ " lines, "
        ++ toString output.utf8ByteSize ++ " bytes total) ...\n") none ::
      dropChars ((render pieces).length - tailBytes) pieces
  else pieces

def pieces : List Piece := limits.limitedPieces output (limits.sampledPieces output)

end Limits

/-! ### The pieces are those of the text -/

@[simp] theorem render_nil : render [] = "" := rfl

@[simp] theorem render_cons (piece : Piece) (rest : List Piece) :
    render (piece :: rest) = piece.text ++ render rest := String.join_cons

@[simp] theorem render_append (pieces rest : List Piece) :
    render (pieces ++ rest) = render pieces ++ render rest := by
  rw [render, List.map_append, String.join_append]
  rfl

@[simp] theorem Piece.text_part (f : List Char → List Char) (piece : Piece) :
    (piece.part f).text = String.ofList (f piece.text.toList) := by
  cases piece <;> rfl

theorem render_takeChars (k : Nat) (pieces : List Piece) :
    render (takeChars k pieces) = String.ofList ((render pieces).toList.take k) := by
  induction pieces generalizing k with
  | nil => simp [takeChars]
  | cons piece rest ih =>
    rw [takeChars, render_cons, Piece.text_part, ih, render_cons, String.toList_append,
      List.take_append, String.ofList_append, String.length_toList]

theorem render_dropChars (k : Nat) (pieces : List Piece) :
    render (dropChars k pieces) = String.ofList ((render pieces).toList.drop k) := by
  induction pieces generalizing k with
  | nil => simp [dropChars]
  | cons piece rest ih =>
    rw [dropChars, render_cons, Piece.text_part, ih, render_cons, String.toList_append,
      List.drop_append, String.ofList_append, String.length_toList]

namespace Limits

variable (limits : Limits) (output : String)

theorem render_sampledPieces :
    render (limits.sampledPieces output) = sample output limits.config limits.identifier := by
  have hbudget : (limits.config.maxLines.getD (lines output).length).min (lines output).length =
      limits.budget output := rfl
  unfold sampledPieces sample
  dsimp only
  rw [hbudget]
  split
  · next h =>
    have hle : limits.budget output ≤ (lines output).length := Nat.min_le_right ..
    have htail : ((lines output).drop
        ((lines output).length - limits.budget output / 2)).isEmpty = false := by
      rw [List.isEmpty_eq_false_iff, ne_eq, List.drop_eq_nil_iff]
      omega
    simp [htail, Piece.text, front, back, marker, config, String.append_assoc]
  · simp [Piece.text, marker, config, String.append_assoc]

theorem render_limitedPieces (pieces : List Piece) : render (limits.limitedPieces output pieces) =
    limitBytes (render pieces) limits.maxBytes (lines output).length output.utf8ByteSize := by
  unfold limitedPieces limitBytes
  split
  · simp [render_takeChars, render_dropChars, Piece.text, String.append_assoc, String.length_toList]
  · rfl

/-- Together the pieces make up the truncated text. -/
theorem truncated_eq : limits.truncated output =
    if limits.within output then output else render (limits.pieces output) := by
  rw [pieces, render_limitedPieces, render_sampledPieces]
  have hwithin : (decide ((lines output).length ≤ limits.maxLines) &&
      decide (output.utf8ByteSize ≤ limits.maxBytes)) = true ↔ limits.within output := by
    rw [Bool.and_eq_true, decide_eq_true_eq, decide_eq_true_eq]
    rfl
  exact if_congr hwithin rfl rfl

/-! ### What truncation promises -/

/-- The promise about an output that exceeds the limits. -/
structure Bounded : Prop where
  bytes : (limits.truncated output).utf8ByteSize ≤
    limits.maxBytes + (((limits.pieces output).filter fun piece => piece.stated?.isSome).map
      fun piece => piece.text.utf8ByteSize).sum
  lines : ((limits.pieces output).map Piece.keptLines).sum ≤ limits.maxLines
  parts : ∃ front back, (limits.pieces output).filterMap Piece.keptText? = [front, back] ∧
    front.toList <+: output.toList ∧ back.toList <:+ output.toList
  states : (limits.pieces output).filterMap Piece.stated? =
    [some ((ToolOutput.lines output).length - ((limits.pieces output).map Piece.keptLines).sum)]

/-- An output is changed only if it exceeds the limits, and then as promised. -/
structure Respects : Prop where
  unchanged : limits.truncated output = output ↔ limits.within output
  bounded : ¬ limits.within output → limits.Bounded output

/-- The first and the last lines around the marker. -/
def sampledText : String :=
  limits.front output ++ "\n" ++ limits.marker output ++ "\n" ++ limits.back output

/-- The lines can be sampled: there are enough of them and they fit with the marker, which is the
default number of lines if lines are left out; and the samples are a front and a back of the
output as they stand, while what is left out is not the marker itself. -/
structure Samples : Prop where
  enough : 4 < limits.budget output
  fits : (limits.sampledText output).utf8ByteSize ≤ limits.maxBytes
  count : if limits.maxLines < (ToolOutput.lines output).length
    then limits.maxLines = defaultMaxLines
    else (ToolOutput.lines output).length ≤ defaultMaxLines
  front : (limits.front output).toList <+: output.toList
  back : (limits.back output).toList <:+ output.toList
  differs : limits.sampledText output ≠ output

/-- A number of characters has at least as many bytes. -/
theorem min_le_utf8Len_take (k : Nat) (chars : List Char) :
    min k (String.utf8Len chars) ≤ String.utf8Len (chars.take k) := by
  induction chars generalizing k with
  | nil => simp
  | cons c rest ih =>
    cases k with
    | zero => simp
    | succ k =>
      have hpos := c.utf8Size_pos
      have hrest := ih k
      rw [List.take_succ_cons, String.utf8Len_cons, String.utf8Len_cons]
      omega

theorem length_le_utf8ByteSize (text : String) : text.toList.length ≤ text.utf8ByteSize := by
  rw [← String.utf8Len_toList]
  induction text.toList with
  | nil => simp
  | cons c rest ih =>
    have hpos := c.utf8Size_pos
    rw [List.length_cons, String.utf8Len_cons]
    omega

/-- What is left out of the lines, and what the marker says. -/
theorem statedOmitted_eq_iff (h : 4 < limits.budget output) :
    statedOmitted (ToolOutput.lines output).length =
        (ToolOutput.lines output).length - limits.budget output ↔
      if limits.maxLines < (ToolOutput.lines output).length
      then limits.maxLines = defaultMaxLines
      else (ToolOutput.lines output).length ≤ defaultMaxLines := by
  unfold budget at h ⊢
  generalize (ToolOutput.lines output).length = total at h ⊢
  have htotal : total > 4 := by omega
  unfold statedOmitted halfUp defaultMaxLines
  rw [if_pos htotal]
  rcases Nat.lt_or_ge limits.maxLines total with hcut | hall
  · rw [if_pos hcut, Nat.min_eq_left hcut.le]
    rcases Nat.le_total total 2000 with hle | hle
    · rw [Nat.min_eq_left hle]
      omega
    · rw [Nat.min_eq_right hle]
      omega
  · rw [if_neg hall.not_gt, Nat.min_eq_right hall]
    rcases Nat.le_total total 2000 with hle | hle
    · rw [Nat.min_eq_left hle]
      omega
    · rw [Nat.min_eq_right hle]
      omega

variable {limits output}

theorem render_sampledPieces_of_enough (h : 4 < limits.budget output) :
    render (limits.sampledPieces output) = limits.sampledText output := by
  rw [sampledPieces, if_pos h]
  simp [Piece.text, sampledText, String.append_assoc]

/-- Nothing is cut by the byte limit, or a marker tells totals. -/
theorem Bounded.uncut (h : limits.Bounded output) :
    (render (limits.sampledPieces output)).utf8ByteSize ≤ limits.maxBytes := by
  by_contra hlong
  have hnone : none ∈ (limits.pieces output).filterMap Piece.stated? := by
    rw [pieces, limitedPieces, if_pos (Nat.lt_of_not_le hlong)]
    simp [Piece.stated?]
  rw [h.states] at hnone
  simp at hnone

theorem pieces_of_uncut
    (h : (render (limits.sampledPieces output)).utf8ByteSize ≤ limits.maxBytes) :
    limits.pieces output = limits.sampledPieces output := by
  rw [pieces, limitedPieces, if_neg (Nat.not_lt.mpr h)]

/-- Where lines are too few to be sampled, all lines are kept if nothing is cut. -/
theorem enough_of_bounded (hexceeds : ¬ limits.within output) (h : limits.Bounded output) :
    4 < limits.budget output := by
  by_contra hfew
  have hfits := h.uncut
  have hlines := h.lines
  rw [pieces_of_uncut h.uncut] at hlines
  rw [sampledPieces, if_neg hfew] at hfits hlines
  have hbytes : output.utf8ByteSize ≤ limits.maxBytes := by
    by_contra hlong
    have htake := min_le_utf8Len_take limits.maxBytes output.toList
    rw [String.utf8Len_toList] at htake
    simp only [render_cons, render_nil, Piece.text, String.utf8ByteSize_append,
      String.utf8ByteSize_ofList] at hfits
    have hnewline : "\n".utf8ByteSize = 1 := rfl
    omega
  have hall : output.toList.take limits.maxBytes = output.toList := by
    refine List.take_of_length_le (Nat.le_trans ?_ hbytes)
    exact length_le_utf8ByteSize output
  rw [hall, String.ofList_toList] at hlines
  simp only [List.map_cons, List.map_nil, Piece.keptLines, List.sum_cons, List.sum_nil,
    Nat.add_zero] at hlines
  exact hexceeds ⟨hlines, hbytes⟩

theorem samples_of_respects (h : limits.Respects output) (hexceeds : ¬ limits.within output) :
    limits.Samples output := by
  have hbounded := h.bounded hexceeds
  have henough := enough_of_bounded hexceeds hbounded
  have hrender := render_sampledPieces_of_enough henough
  have hpieces := pieces_of_uncut hbounded.uncut
  have htruncated : limits.truncated output = limits.sampledText output := by
    rw [truncated_eq, if_neg hexceeds, hpieces, hrender]
  have hsum : (limits.budget output + 1) / 2 + limits.budget output / 2 = limits.budget output := by
    omega
  obtain ⟨front, back, hparts, hfront, hback⟩ := hbounded.parts
  have hstates := hbounded.states
  rw [hpieces, sampledPieces, if_pos henough] at hparts hstates
  simp only [List.filterMap_cons, Piece.keptText?, Piece.stated?, List.filterMap_nil,
    List.cons.injEq, and_true] at hparts hstates
  obtain ⟨rfl, rfl⟩ := hparts
  refine ⟨henough, hrender ▸ hbounded.uncut, ?_, hfront, hback, fun heq => ?_⟩
  · refine (statedOmitted_eq_iff limits output henough).mp ?_
    simpa [Piece.keptLines, halfUp, hsum] using hstates
  · exact hexceeds (h.unchanged.mp (htruncated.trans heq))

theorem respects_of_samples (h : limits.Samples output) (hexceeds : ¬ limits.within output) :
    limits.Respects output := by
  have hrender := render_sampledPieces_of_enough h.enough
  have hpieces := pieces_of_uncut (hrender ▸ h.fits)
  have htruncated : limits.truncated output = limits.sampledText output := by
    rw [truncated_eq, if_neg hexceeds, hpieces, hrender]
  have hsum : (limits.budget output + 1) / 2 + limits.budget output / 2 = limits.budget output := by
    omega
  have hstated := (statedOmitted_eq_iff limits output h.enough).mpr h.count
  refine ⟨iff_of_false (htruncated ▸ h.differs) hexceeds, fun _ => ⟨?_, ?_, ?_, ?_⟩⟩
  · rw [htruncated]
    exact h.fits.trans (Nat.le_add_right ..)
  · rw [hpieces, sampledPieces, if_pos h.enough]
    have hbudget : limits.budget output ≤ limits.maxLines := Nat.min_le_left ..
    simpa [Piece.keptLines, halfUp, hsum] using hbudget
  · rw [hpieces, sampledPieces, if_pos h.enough]
    exact ⟨_, _, rfl, h.front, h.back⟩
  · rw [hpieces, sampledPieces, if_pos h.enough]
    simp only [List.filterMap_cons, List.filterMap_nil, Piece.stated?]
    simp [Piece.keptLines, halfUp, hsum, hstated]

theorem respects_iff_samples :
    limits.Respects output ↔ limits.within output ∨ limits.Samples output := by
  constructor
  · intro h
    by_cases hwithin : limits.within output
    · exact .inl hwithin
    · exact .inr (samples_of_respects h hwithin)
  · intro h
    by_cases hwithin : limits.within output
    · refine ⟨iff_of_true ?_ hwithin, fun hexceeds => absurd hwithin hexceeds⟩
      rw [truncated_eq, if_pos hwithin]
    · exact respects_of_samples (h.resolve_left hwithin) hwithin

/-- **Truncation keeps its promise exactly when there is nothing to cut, or when the default
number of lines is sampled and fits**. -/
theorem truncated_respects_iff (limits : Limits) (output : String) :
    (limits.truncated output = if limits.within output then output
      else render (limits.pieces output)) ∧
      (limits.Respects output ↔ limits.within output ∨ limits.Samples output) :=
  ⟨limits.truncated_eq output, respects_iff_samples⟩

/-- Two of eight lines are left out, and the marker says that none is. -/
theorem eightLines_miscounted :
    ¬ Limits.Respects ⟨6, 1000, none, none⟩ "1\n2\n3\n4\n5\n6\n7\n8" := by
  intro h
  rcases respects_iff_samples.mp h with hwithin | hsamples
  · revert hwithin
    decide
  · have hcount := hsamples.count
    revert hcount
    decide

end Limits

end Behest.ToolOutput
