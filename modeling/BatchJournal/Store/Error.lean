import BatchJournal.Log.Record

namespace BatchJournal

/-!
# Store errors

A store reports what kept it from an operation; whoever submits a batch has to learn of it, since a
batch lost in silence would never be delivered.
-/

/-- Why a store did not carry out an operation. -/
inductive StoreError where
  /-- The file system failed. -/
  | io (detail : String)
  /-- What stands in the file is no log. -/
  | corruption (what : String)
  /-- The entry does not fit into a record. -/
  | tooLarge (size max : Nat)
  /-- The store takes no operations. -/
  | unavailable (reason : String)
deriving DecidableEq, Repr

namespace StoreError

/-- The text of a store error. -/
def message : StoreError → String
  | .io detail => "I/O error: " ++ detail
  | .corruption what => "Data corruption: " ++ what
  | .tooLarge size max =>
    "Batch entry too large: " ++ toString size ++ " bytes, limit is " ++ toString max
  | .unavailable reason => "Batch log store unavailable: " ++ reason

/-- What a store makes of a record that cannot be written. -/
def ofFormat : FormatError → StoreError
  | .tooLarge size => .tooLarge size Record.maxFramed
  | e => .corruption e.message

end StoreError

end BatchJournal
