import Mathlib.Data.List.Induction
import Mathlib.Logic.Function.Basic
import Behest.Tool.Output

/-!
# Saved outputs

The files in which the full text of truncated outputs is kept
(`behest-runtime/src/tool_output.rs:154–206`). A file is named after the tool, so the next
truncated output of the tool replaces the one before. The file system is a map from files to
contents; which paths lead to one file is left open.
-/

namespace Behest

section WriteAll

variable {α κ β : Type} [DecidableEq κ] (key : α → κ) (content : α → β) (files : κ → Option β)

end WriteAll

namespace ToolOutput

/-- Source: `tool_output.rs:48–59`. -/
structure TruncationResult where
  text : String
  wasTruncated : Bool
  originalLines : Nat
  originalBytes : Nat
  savedPath : Option String

/-- The output exceeds a limit. Source: `tool_output.rs:74–78`. -/
def exceeds (config : ToolOutputConfig) (output : String) : Bool :=
  !((lines output).length ≤ config.maxLines.getD (lines output).length
    && output.utf8ByteSize ≤ config.maxBytes.getD output.utf8ByteSize)

/-- The file of a full output. Source: `tool_output.rs:155–156, 197–198`. -/
def savePath (config : ToolOutputConfig) (identifier : Option String) : Option String :=
  match config.outputDir, identifier with
  | some dir, some id => some (joinPath dir ("tool_" ++ id))
  | _, _ => none

theorem savePath_of_some {config : ToolOutputConfig} {dir : String}
    (h : config.outputDir = some dir) (id : String) :
    savePath config (some id) = some (joinPath dir ("tool_" ++ id)) := by
  simp [savePath, h]

theorem savePath_of_none {config : ToolOutputConfig} (h : config.outputDir = none)
    (identifier : Option String) : savePath config identifier = none := by
  simp [savePath, h]

/-- The marker names the file. -/
theorem truncationMarker_names (totalLines totalBytes : Nat) (identifier : Option String)
    (config : ToolOutputConfig) {path : String} (h : savePath config identifier = some path) :
    truncationMarker totalLines totalBytes identifier config.outputDir =
      truncationMarker totalLines totalBytes none none ++ "\nFull output saved to: " ++ path := by
  cases hdir : config.outputDir with
  | none =>
    rw [savePath_of_none hdir] at h
    cases h
  | some dir =>
    cases identifier with
    | none => simp [savePath] at h
    | some id =>
      rw [savePath_of_some hdir] at h
      cases h
      rfl

section Files

variable {File : Type} [DecidableEq File] (resolve : String → File)

/-- The result of a call, and the files after it. Source: `tool_output.rs:66–177`. -/
def truncateSaving (config : ToolOutputConfig) (files : File → Option String) (output : String)
    (identifier : Option String) : TruncationResult × (File → Option String) :=
  let result (truncated : Bool) (savedPath : Option String) : TruncationResult :=
    ⟨truncateOutput output config identifier, truncated, (lines output).length,
      output.utf8ByteSize, savedPath⟩
  if exceeds config output then
    match savePath config identifier with
    | some path =>
        (result true (some path), Function.update files (resolve path) (some output))
    | none => (result true none, files)
  else (result false none, files)

/-- The name of a tool and its output, as they come to be truncated. -/
abbrev Produced := String × String

/-- The files after some outputs. -/
def saved (config : ToolOutputConfig) (files : File → Option String) (outputs : List Produced) :
    File → Option String :=
  outputs.foldl (fun files produced =>
    (truncateSaving resolve config files produced.2 (some produced.1)).2) files

end Files

end ToolOutput

end Behest
