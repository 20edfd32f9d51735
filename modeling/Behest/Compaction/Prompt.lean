import Behest.Store.Record

/-!
# The compaction prompt

`behest-runtime/src/compaction/prompt.rs`: the anchored summary template around the
serialised records. The template is kept as the text before and after its placeholder.
-/

namespace Behest.Compaction

def toolOutputMaxChars : Nat := 2000

/-- Source: `prompt.rs:28–30`. -/
def templateBefore : String :=
  "You are a conversation summarizer. Your task is to produce a structured, " ++
    "dense summary of the conversation history below so another instance of " ++
    "the same model can pick up where it left off.\n\n"

/-- Source: `prompt.rs:32–62`. -/
def templateAfter : String :=
  "\n\nOutput ONLY the summary — no preamble, no commentary, no markdown code fences.\n\n" ++
    "## Goal\n" ++
    "<!-- Single-sentence description of the task the user is trying to accomplish -->\n\n" ++
    "## Constraints & Preferences\n" ++
    "<!-- Explicit constraints, preferences, style guides, or rules mentioned -->\n\n" ++
    "## Progress\n" ++
    "### Done\n" ++
    "<!-- What has been completed so far -->\n" ++
    "### In Progress\n" ++
    "<!-- What is currently being worked on -->\n" ++
    "### Blocked\n" ++
    "<!-- Anything that is blocked and why -->\n\n" ++
    "## Key Decisions\n" ++
    "<!-- Important technical or design decisions made during the conversation -->\n\n" ++
    "## Next Steps\n" ++
    "<!-- What the model should do next, in priority order -->\n\n" ++
    "## Critical Context\n" ++
    "<!-- Any context the model MUST know to continue (file paths, error messages, " ++
    "API responses, etc.) -->\n\n" ++
    "## Relevant Files\n" ++
    "<!-- Files that were created, modified, or discussed. Format: path:line_number -->\n"

/-- Source: `prompt.rs:71–79`. -/
def previousInstruction : Option String → String
  | some prev =>
      "You are updating an existing summary. " ++
        "Below is the previous summary — keep what is still relevant, " ++
        "update what has changed, and add new information since the last compaction.\n\n" ++
        "## Previous Summary\n```\n" ++ prev ++ "\n```"
  | none => "Create a new anchored summary from the conversation below."

/-- Source: `prompt.rs:145–155`. -/
def truncateIfTooLong (text : String) (maxChars : Nat) : String :=
  if text.utf8ByteSize ≤ maxChars then text
  else
    String.ofList (text.toList.take maxChars) ++ "\n[truncated: omitted "
      ++ toString (text.utf8ByteSize - maxChars) ++ " chars]"

def roleLabel : MessageRole → String
  | .system => "[System]"
  | .user => "[User]"
  | .assistant => "[Assistant]"
  | .tool => "[Tool Result]"

def serializePart : ContentPart → String
  | .text text _ => truncateIfTooLong text toolOutputMaxChars
  | .json value _ => truncateIfTooLong value.render toolOutputMaxChars
  | .imageUrl url _ _ => "[Image: " ++ url ++ "]"

def serializeCall (call : ToolCall) : String :=
  "\n  [Tool Call: " ++ call.name ++ "(" ++ truncateIfTooLong call.arguments.render 500 ++ ")]"

/-- One serialised record. Source: `prompt.rs:97–131`. -/
def serializeMessage (msg : MessageRecord) : String :=
  roleLabel msg.role ++ ": " ++ String.join (msg.content.map serializePart)
    ++ String.join (msg.toolCalls.map serializeCall) ++ "\n"

/-- Serialise records after `buf` until the prompt is too long. Source: `prompt.rs:93–143`. -/
def serializeFrom (buf : String) : List MessageRecord → String
  | [] => buf
  | msg :: rest =>
      let buf := buf ++ serializeMessage msg
      if estimateRecordTokens msg > 0 && estimateTokens buf > 50000 then
        buf ++ "\n[... further messages truncated to stay within compaction model context ...]\n"
      else serializeFrom buf rest

/-- Source: `prompt.rs:66–89`. -/
def buildPrompt (messagesToCompact : List MessageRecord) (previousSummary : Option String) :
    String :=
  templateBefore ++ previousInstruction previousSummary ++ templateAfter
    ++ "\n## Messages to Summarize\n" ++ serializeFrom "" messagesToCompact

end Behest.Compaction
