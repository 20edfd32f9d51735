import Behest.Store.Record

/-!
# Well-paired histories

A stored history read record by record: the calls of an assistant record are open until tool
records answer them, and the next user or assistant record comes only when none is open.
-/

namespace Behest

/-- The calls still open after some records, given the calls open before them; none when a
record breaks the pairing. -/
def openCalls (pending : List String) : List MessageRecord → Option (List String)
  | [] => some pending
  | r :: rest =>
      match r.role with
      | .system => openCalls pending rest
      | .user => if pending = [] then openCalls [] rest else none
      | .assistant => if pending = [] then openCalls (r.toolCalls.map ToolCall.id) rest else none
      | .tool =>
          match r.toolCallId with
          | some id => if id ∈ pending then openCalls (pending.erase id) rest else none
          | none => none

/-- Every call is answered by one tool record before the next user or assistant record, and
every tool record answers a call of the nearest assistant record before it. -/
def Paired (records : List MessageRecord) : Prop := openCalls [] records = some []

theorem openCalls_append (pending : List String) (records more : List MessageRecord) :
    openCalls pending (records ++ more) =
      (openCalls pending records).bind fun pending => openCalls pending more := by
  induction records generalizing pending with
  | nil => rfl
  | cons r rest ih =>
    simp only [List.cons_append, openCalls]
    cases r.role with
    | system => exact ih pending
    | user => by_cases h : pending = [] <;> simp [h, ih]
    | assistant => by_cases h : pending = [] <;> simp [h, ih]
    | tool =>
      cases r.toolCallId with
      | none => rfl
      | some id => by_cases h : id ∈ pending <;> simp [h, ih]

/-- The calls open after a message, given the calls open before it. -/
def Message.leavesOpen (pending : List String) : Message → Option (List String)
  | .system _ => some pending
  | .user _ => if pending = [] then some [] else none
  | .assistant _ calls => if pending = [] then some (calls.map ToolCall.id) else none
  | .tool id _ _ => if id ∈ pending then some (pending.erase id) else none

/-- A stored message opens and answers calls as the message does. -/
theorem openCalls_messageToRecord (pending : List String) (id createdAt : Nat) (sessionId : Uuid)
    (message : Message) :
    openCalls pending [messageToRecord id createdAt sessionId message] =
      message.leavesOpen pending := by
  cases message <;> rfl

/-- A tool record comes only while a call is open. -/
theorem ne_nil_of_openCalls_tool {pending after : List String} {r : MessageRecord}
    {rest : List MessageRecord} (hrole : r.role = .tool)
    (h : openCalls pending (r :: rest) = some after) : pending ≠ [] := by
  rintro rfl
  cases hid : r.toolCallId <;> simp [openCalls, hrole, hid] at h

end Behest
