import Behest.Core.Message
import Behest.Runtime.Input
import Behest.Text.Find
import Behest.Tool.Output

/-!
# Microcompact

The first tier of `behest-memory/src/compaction.rs`: old tool outputs are replaced by one-line
summaries. Which characters are alphanumeric is a parameter (`char::is_alphanumeric`).
-/

namespace Behest

open Text (contains)

/-- Source: `behest-memory/src/compaction.rs:46–51`. -/
structure MicrocompactConfig where
  keepRecent : Nat := 6
  keepRecentToolOutputs : Nat := 8

/-- Source: `behest-memory/src/compaction.rs:64–69`. -/
structure MicrocompactReport where
  changedMessages : Nat := 0
  tokensFreed : Nat := 0
deriving DecidableEq

def Message.isTool : Message → Bool
  | .tool _ _ _ => true
  | _ => false

namespace Microcompact

variable (isAlphanumeric : Char → Bool)

/-- The texts of the content parts, joined by blanks. -/
def joinedText (content : List ContentPart) : String :=
  " ".intercalate (content.filterMap fun
    | .text text _ => some text
    | _ => none)

/-- Source: `behest-memory/src/compaction.rs:151–185`. -/
def summarizeToolOutput (name : String) (content : List ContentPart) : String :=
  let text := joinedText content
  let lines := ToolOutput.lines text
  let exitInfo := (lines.find? fun line => contains line "exit" || contains line "returncode").map
    fun line => String.ofList ((trimText line).toList.dropWhile fun c => !isAlphanumeric c)
  match exitInfo with
  | some exit => "[" ++ name ++ "] → " ++ exit ++ ", " ++ toString lines.length ++ " lines"
  | none =>
      if lines.length > 1 then
        -- the number of bytes, not of characters
        "[" ++ name ++ "] → " ++ toString lines.length ++ " lines, " ++
          toString text.utf8ByteSize ++ " chars"
      else
        let truncated := String.ofList (text.toList.take 80)
        if text.utf8ByteSize > 80 then "[" ++ name ++ "] → " ++ truncated ++ "..."
        else "[" ++ name ++ "] → " ++ truncated

/-- The positions of the tool messages, from position `k` on.
Source: `behest-memory/src/compaction.rs:93–98`. -/
def toolOutputIndices : Nat → List Message → List Nat
  | _, [] => []
  | k, msg :: rest =>
      if msg.isTool then k :: toolOutputIndices (k + 1) rest else toolOutputIndices (k + 1) rest

/-- The positions of the tool outputs that are preserved.
Source: `behest-memory/src/compaction.rs:99–106`. -/
def toolKeep (messages : List Message) (config : MicrocompactConfig) : List Nat :=
  let indices := toolOutputIndices 0 messages
  indices.drop (indices.length - config.keepRecentToolOutputs)

/-- The message with the summary, and with an identifier of its position. -/
def compacted (i : Nat) (name : String) (content : List ContentPart) : Message :=
  .tool ("compacted-" ++ toString i) name
    [.ofText (summarizeToolOutput isAlphanumeric name content)]

/-- What the message at a position is replaced by.
Source: `behest-memory/src/compaction.rs:110–130`. -/
def replacement (messages : List Message) (config : MicrocompactConfig) (i : Nat) (msg : Message) :
    Option Message :=
  if i ≥ messages.length - config.keepRecent then none
  else
    match msg with
    | .tool _ name content =>
        if !(toolKeep messages config).contains i then
          some (compacted isAlphanumeric i name content)
        else none
    | _ => none

/-- The messages after the call, and its report.
Source: `behest-memory/src/compaction.rs:81–145`. -/
def microcompact (messages : List Message) (config : MicrocompactConfig) :
    List Message × MicrocompactReport :=
  if messages.length ≤ config.keepRecent then (messages, {})
  else
    let beforeTokens := estimateMessagesTokens messages
    let after := messages.mapIdx fun i msg =>
      (replacement isAlphanumeric messages config i msg).getD msg
    let changed := messages.zipIdx.countP fun entry =>
      (replacement isAlphanumeric messages config entry.2 entry.1).isSome
    (after, ⟨changed, beforeTokens - estimateMessagesTokens after⟩)

/-! ### Which outputs are old -/

/-- The tool messages behind a position. -/
def toolsBehind (messages : List Message) (i : Nat) : Nat :=
  (messages.drop (i + 1)).countP Message.isTool

/-- A tool output at this position is old: it is none of the last messages, and none of the last
tool outputs. -/
def isOld (messages : List Message) (config : MicrocompactConfig) (i : Nat) : Bool :=
  decide (i + config.keepRecent < messages.length) &&
    decide (config.keepRecentToolOutputs ≤ toolsBehind messages i)

theorem length_toolOutputIndices (k : Nat) (messages : List Message) :
    (toolOutputIndices k messages).length = messages.countP Message.isTool := by
  induction messages generalizing k with
  | nil => rfl
  | cons msg rest ih =>
    rw [toolOutputIndices, List.countP_cons]
    split
    · rw [List.length_cons, ih]
    · rw [ih, Nat.add_zero]

theorem le_of_mem_toolOutputIndices {k j : Nat} {messages : List Message}
    (h : j ∈ toolOutputIndices k messages) : k ≤ j := by
  induction messages generalizing k with
  | nil => cases h
  | cons msg rest ih =>
    rw [toolOutputIndices] at h
    split at h
    · rcases List.mem_cons.mp h with rfl | hrest
      · exact Nat.le_refl _
      · exact Nat.le_of_succ_le (ih hrest)
    · exact Nat.le_of_succ_le (ih h)

/-- The last `n` positions of tool messages are those with fewer than `n` tool messages behind. -/
theorem mem_drop_toolOutputIndices (messages : List Message) (k n i : Nat) {msg : Message}
    (hi : messages[i]? = some msg) (htool : msg.isTool = true) :
    k + i ∈ (toolOutputIndices k messages).drop ((toolOutputIndices k messages).length - n) ↔
      toolsBehind messages i < n := by
  induction messages generalizing k i with
  | nil => cases hi
  | cons first rest ih =>
    rw [toolOutputIndices]
    cases i with
    | zero =>
      obtain rfl : first = msg := Option.some.inj hi
      have hbehind : toolsBehind (first :: rest) 0 = (toolOutputIndices (k + 1) rest).length :=
        (length_toolOutputIndices _ _).symm
      rw [if_pos htool, hbehind, List.length_cons]
      by_cases hn : (toolOutputIndices (k + 1) rest).length < n
      · rw [Nat.sub_eq_zero_of_le hn]
        simp [hn]
      · have hdrop : (toolOutputIndices (k + 1) rest).length + 1 - n =
            (toolOutputIndices (k + 1) rest).length - n + 1 := by omega
        rw [hdrop, List.drop_succ_cons]
        refine iff_of_false (fun hmem => ?_) hn
        exact absurd (le_of_mem_toolOutputIndices (List.mem_of_mem_drop hmem)) (by omega)
    | succ i =>
      have hbehind : toolsBehind (first :: rest) (i + 1) = toolsBehind rest i := rfl
      have hrest := ih (k + 1) i hi
      rw [hbehind, ← hrest, Nat.add_right_comm, Nat.add_assoc]
      split
      · rw [List.length_cons]
        by_cases hn : (toolOutputIndices (k + 1) rest).length < n
        · rw [Nat.sub_eq_zero_of_le hn, Nat.sub_eq_zero_of_le (Nat.le_of_lt hn)]
          simp
        · have hdrop : (toolOutputIndices (k + 1) rest).length + 1 - n =
              (toolOutputIndices (k + 1) rest).length - n + 1 := by omega
          rw [hdrop, List.drop_succ_cons]
      · rfl

/-! ### Message by message -/

/-- What becomes of the message at a position. -/
def rewriteAt (messages : List Message) (config : MicrocompactConfig) (i : Nat) : Message → Message
  | .tool id name content =>
      if isOld messages config i then compacted isAlphanumeric i name content
      else .tool id name content
  | msg => msg

theorem getD_replacement {messages : List Message} (config : MicrocompactConfig) {i : Nat}
    {msg : Message} (hi : messages[i]? = some msg) :
    (replacement isAlphanumeric messages config i msg).getD msg =
      rewriteAt isAlphanumeric messages config i msg := by
  cases msg with
  | system content | user content | assistant content toolCalls =>
    rw [replacement, rewriteAt]
    · split <;> rfl
    all_goals nofun
  | tool id name content =>
    have hkeep := mem_drop_toolOutputIndices messages 0 config.keepRecentToolOutputs i hi rfl
    rw [Nat.zero_add] at hkeep
    have hcontains : (toolKeep messages config).contains i =
        decide (toolsBehind messages i < config.keepRecentToolOutputs) := by
      rw [List.contains_eq_mem]
      exact decide_eq_decide.mpr hkeep
    rw [replacement, rewriteAt, isOld, hcontains]
    by_cases hrecent : i + config.keepRecent < messages.length
    · rw [if_neg (by omega)]
      by_cases hlast : toolsBehind messages i < config.keepRecentToolOutputs
      · simp [hlast, Nat.not_le.mpr hlast]
      · simp [hlast, hrecent, Nat.not_lt.mp hlast]
    · rw [if_pos (by omega)]
      simp [hrecent]

/-- Every message is rewritten at its own position. -/
theorem microcompact_fst (messages : List Message) (config : MicrocompactConfig) :
    (microcompact isAlphanumeric messages config).1 =
      messages.mapIdx (rewriteAt isAlphanumeric messages config) := by
  rw [microcompact]
  split
  · next hshort =>
    -- no position is old
    refine (List.ext_getElem? fun i => ?_).symm
    rw [List.getElem?_mapIdx]
    cases hi : messages[i]? with
    | none => rfl
    | some msg =>
      have hlt := (List.getElem?_eq_some_iff.mp hi).1
      cases msg with
      | system content | user content | assistant content toolCalls => rfl
      | tool id name content =>
        rw [Option.map_some, rewriteAt, isOld, decide_eq_false (by omega)]
        rfl
  · refine List.ext_getElem? fun i => ?_
    rw [List.getElem?_mapIdx, List.getElem?_mapIdx]
    cases hi : messages[i]? with
    | none => rfl
    | some msg => rw [Option.map_some, Option.map_some, getD_replacement isAlphanumeric config hi]

/-- The summary of an old output is the summary of its own summary. -/
def Settled (messages : List Message) (config : MicrocompactConfig) : Prop :=
  ∀ (i : Nat) (id name : String) (content : List ContentPart),
    messages[i]? = some (.tool id name content) → isOld messages config i = true →
      summarizeToolOutput isAlphanumeric name
          [.ofText (summarizeToolOutput isAlphanumeric name content)] =
        summarizeToolOutput isAlphanumeric name content

end Microcompact

end Behest
