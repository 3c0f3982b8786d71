import BatchJournal.Replica.Table

namespace BatchJournal

/-!
# Replay errors

Why replay left an entry in the store, or why a whole pass ended without a report.
-/

/-- Why an entry, or a pass, was not completed. -/
inductive ReplayError where
  /-- A mutation was not applied. -/
  | apply (error : WriteError)
  /-- The deadline passed while mutations were not acknowledged. -/
  | timeout (elapsedMillis pending : Nat)
  /-- The pool of workers took no more work. -/
  | backpressure
  /-- The pass broke down. -/
  | panicked (message : String)
  /-- No thread could be started for the pass. -/
  | spawn (reason : String)
  /-- The journal was shut down before. -/
  | shutDown
deriving DecidableEq, Repr

namespace ReplayError

/-- What is said to a caller who comes after the shutdown. -/
def shutDownMessage : String := "Batch log manager is shut down"

/-- The text of a replay error. -/
def message : ReplayError → String
  | .apply error => "Apply failed: " ++ error.message
  | .timeout elapsed pending =>
    "Apply timed out after " ++ toString elapsed ++ "ms (" ++ toString pending
      ++ " mutations unacknowledged)"
  | .backpressure => "Apply pool rejected work"
  | .panicked message => "Replay pass panicked: " ++ message
  | .spawn reason => "Failed to spawn replay thread: " ++ reason
  | .shutDown => shutDownMessage

/-- The failure of an entry one of whose jobs ended without an answer. -/
def unacknowledged : ReplayError := .apply (.other "apply job ended without acknowledging")

end ReplayError

end BatchJournal
