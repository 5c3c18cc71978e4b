import Gen2.Types.Message

/-!
# What is written down

`journal/entry.rs`: the entries of an agent's journal.  A record is an entry with its position and
time; what a record shows the model is a list of messages, empty for mere bookkeeping.
-/

namespace Gen2
namespace Journal

/-- `WakeReason`. -/
inductive WakeReason
  | heartbeat
  | user
  | external (name : String)

/-- `InputSource`. -/
inductive InputSource
  | user
  | selfPrompt
  | external (name : String)

/-- `JournalEntry`. -/
inductive JournalEntry
  | input (source : InputSource) (content : Message)
  | assistant (message : Message)
  | toolCall (id tool : String) (args : Json)
  | toolResult (id tool output : String) (ok : Bool)
  | scratchSet (key value : String)
  | scratchDelete (key : String)
  | wake (reason : WakeReason)

/-- `Record`: an entry with its position and time. -/
structure Record where
  id : Nat
  «at» : Int
  entry : JournalEntry

/-- `JournalEntry::is_conversational`: whether the model is shown anything of the entry. -/
def JournalEntry.isConversational : JournalEntry → Bool
  | .input .. | .assistant _ | .toolCall .. | .toolResult .. => true
  | .scratchSet .. | .scratchDelete _ | .wake _ => false

/-- `Record::to_messages`. -/
def Record.toMessages (r : Record) : List Message :=
  match r.entry with
  | .input _ content => [content]
  | .assistant message => [message]
  | .toolCall id tool args => [.assistantToolCalls [⟨id, "function", ⟨none, tool, args⟩⟩]]
  | .toolResult id _ output _ => [.toolResultFor id output]
  | .scratchSet .. | .scratchDelete _ | .wake _ => []

end Journal
end Gen2
