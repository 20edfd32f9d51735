import Behest.Runtime.Policy

/-!
# Tool output truncation

`behest-runtime/src/tool_output.rs`: head and tail sampling of long outputs. The file that
keeps the full output is left out.
-/

namespace Behest.ToolOutput

/-- Source: `tool_output.rs:17`. -/
def defaultMaxLines : Nat := 2000

/-- `str::lines`: a carriage return is dropped only before a line feed. -/
def linesFrom (current : List Char) : List Char → List (List Char)
  | [] => if current.isEmpty then [] else [current.reverse]
  | c :: rest =>
      if c = '\n' then
        (if current.head? = some '\r' then current.tail.reverse else current.reverse)
          :: linesFrom [] rest
      else linesFrom (c :: current) rest

def lines (text : String) : List String := (linesFrom [] text.toList).map String.ofList

/-- `Path::join` of a directory and a plain file name. -/
def joinPath (dir name : String) : String :=
  if dir.isEmpty then name
  else if dir.toList.getLast? = some '/' then dir ++ name
  else dir ++ "/" ++ name

/-- `usize::div_ceil` by two. -/
def halfUp (n : Nat) : Nat := (n + 1) / 2

/-- Source: `tool_output.rs:180–206`. -/
def truncationMarker (totalLines totalBytes : Nat) (identifier outputDir : Option String) :
    String :=
  let kept :=
    if totalLines > 4 then halfUp (min totalLines defaultMaxLines) * 2 else min totalLines 1
  let marker := "\n... output truncated (" ++ toString (totalLines - kept) ++ " lines omitted, "
    ++ toString totalBytes ++ " bytes total) ..."
  match outputDir, identifier with
  | some dir, some id => marker ++ "\nFull output saved to: " ++ joinPath dir ("tool_" ++ id)
  | _, _ => marker

/-- The lines or the prefix kept around the marker. Source: `tool_output.rs:90–132`. -/
def sample (output : String) (config : ToolOutputConfig) (identifier : Option String) : String :=
  let all := lines output
  let budget := (config.maxLines.getD all.length).min all.length
  let marker := truncationMarker all.length output.utf8ByteSize identifier config.outputDir
  if budget > 4 then
    let head := all.take (halfUp budget)
    let tail := all.drop (all.length - budget / 2)
    String.intercalate "\n" head ++ "\n" ++ marker
      ++ (if tail.isEmpty then "" else "\n" ++ String.intercalate "\n" tail)
  else
    String.ofList (output.toList.take (config.maxBytes.getD output.utf8ByteSize))
      ++ "\n" ++ marker

/-- The byte limit on the sampled text. Source: `tool_output.rs:135–153`. -/
def limitBytes (text : String) (maxBytes originalLines originalBytes : Nat) : String :=
  if text.utf8ByteSize > maxBytes then
    let headBytes := maxBytes * 3 / 4
    let tailBytes := maxBytes - headBytes
    let chars := text.toList
    String.ofList (chars.take headBytes)
      ++ "\n... output truncated (" ++ toString originalLines ++ " lines, "
      ++ toString originalBytes ++ " bytes total) ...\n"
      ++ String.ofList (chars.drop (chars.length - tailBytes))
  else text

/-- The text of the result. Source: `tool_output.rs:64–176`. -/
def truncateOutput (output : String) (config : ToolOutputConfig) (identifier : Option String) :
    String :=
  let originalLines := (lines output).length
  let originalBytes := output.utf8ByteSize
  let maxLines := config.maxLines.getD originalLines
  let maxBytes := config.maxBytes.getD originalBytes
  if originalLines ≤ maxLines && originalBytes ≤ maxBytes then output
  else
    let sampled := sample output config identifier
    match config.maxBytes with
    | some maxBytes => limitBytes sampled maxBytes originalLines originalBytes
    | none => sampled

end Behest.ToolOutput
