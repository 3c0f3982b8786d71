import BatchJournal.Codec.Error
import BatchJournal.Replay.Error
import BatchJournal.Settings.Basic
import BatchJournal.Store.Error

namespace BatchJournal

/-!
# Journal errors

What the callers of a journal are told: the failure of the part that failed, or that the journal
was shut down.
-/

/-- Why a journal did not carry out an operation. -/
inductive JournalError where
  /-- The store failed. -/
  | store (error : StoreError)
  /-- The mutations could not be encoded. -/
  | codec (error : CodecError)
  /-- The settings were refused. -/
  | settings (error : SettingsError)
  /-- A replay pass ended without a report. -/
  | replay (error : ReplayError)
  /-- A thread could not be started. -/
  | spawn (reason : String)
  /-- The journal was shut down before. -/
  | shutDown
deriving DecidableEq, Repr

/-- The text of a journal error. -/
def JournalError.message : JournalError → String
  | .store error => "Batch log store error: " ++ error.message
  | .codec error => "Codec error: " ++ error.message
  | .settings error => error.message
  | .replay error => "Replay pass aborted: " ++ error.message
  | .spawn reason => "Failed to spawn thread: " ++ reason
  | .shutDown => ReplayError.shutDownMessage

end BatchJournal
