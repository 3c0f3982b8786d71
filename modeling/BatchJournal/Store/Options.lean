import BatchJournal.Decimal.Notation
import BatchJournal.Time.Duration

namespace BatchJournal

/-!
# Options of the log store

When records are made safe against a crash of the machine, and how much of the log may be dead
before it is compacted.
-/

/-- When records are made safe against a crash of the machine: `always` or `batched`. -/
inductive SyncMode where
  /-- Each record before its operation returns. -/
  | always
  /-- On a flush, and at intervals. -/
  | batched
deriving DecidableEq, Repr, Inhabited

namespace SyncMode

/-- The default: `batched`. -/
def standard : SyncMode := .batched

/-- Every record is synced by itself: `always`. -/
def immediate : SyncMode → Bool
  | .always => true
  | .batched => false

/-- The name of a mode in a configuration, as `always`. -/
def text : SyncMode → String
  | .always => "always"
  | .batched => "batched"

/-- The name of a mode in a description, as `Always`. -/
def title : SyncMode → String
  | .always => "Always"
  | .batched => "Batched"

/-- The mode of a name that `text` gives; another one is refused with a message. -/
def parse (s : String) : Except String SyncMode :=
  if s = "always" then .ok .always
  else if s = "batched" then .ok .batched
  else .error ("invalid sync mode '" ++ s ++ "', expected \"always\" or \"batched\"")

end SyncMode

/-- The options of a log store, as the settings give them. -/
structure StoreOptions where
  /-- When records are synced. -/
  sync : SyncMode
  /-- The longest time a batched record stays unsynced; with zero it waits for the next flush. -/
  syncInterval : Duration
  /-- So many dead records at least before the log is compacted. -/
  minGarbage : UInt64
  /-- This share of dead records at least before the log is compacted. -/
  garbageRatio : Binary64
deriving DecidableEq

namespace StoreOptions

/-- The log is due for compaction: it has `minGarbage` dead records and the share `garbageRatio` of
    them. -/
def compactionDue (o : StoreOptions) (records dead : Nat) : Bool :=
  o.minGarbage.toNat ≤ dead && 0 < records && o.garbageRatio.le (.ofCounts dead records)

/-- A description of the options. -/
def description (o : StoreOptions) : String :=
  "StoreOptions \x7b sync: " ++ o.sync.title ++ ", sync_interval: " ++ o.syncInterval.text
    ++ ", compaction_min_garbage: " ++ toString o.minGarbage.toNat
    ++ ", compaction_garbage_ratio: " ++ Notation.described.text o.garbageRatio ++ " \x7d"

end StoreOptions

end BatchJournal
