import BatchJournal.Store.Options

namespace BatchJournal

/-!
# Settings of a journal

Ten numbers and names with a default each.  `Settings.validate` refuses the combinations under
which a journal could not run, the first fault in a fixed order being reported.
-/

/-- Why settings were not taken, read or saved, as `message` tells it. -/
inductive SettingsError where
  /-- The file cannot be read or written. -/
  | io (path detail : String)
  /-- The file is no settings file. -/
  | parse (path detail : String)
  /-- The settings have no written form. -/
  | unwritable (detail : String)
  /-- A value is out of its range. -/
  | invalid (reason : String)
deriving DecidableEq, Repr

/-- The text of a settings error. -/
def SettingsError.message : SettingsError → String
  | .io path detail => "Config file '" ++ path ++ "': " ++ detail
  | .parse path detail => "Failed to parse config file '" ++ path ++ "': " ++ detail
  | .unwritable detail => "Failed to serialize config: " ++ detail
  | .invalid reason => "Invalid config: " ++ reason

/-- The settings of a journal, `standard` where nothing else is said. -/
structure Settings where
  /-- How old a batch must be for replay, in milliseconds. -/
  replayTimeout : UInt64
  /-- The time between scheduled replay passes, in milliseconds. -/
  replayInterval : UInt64
  /-- How long the mutations of one batch may take in replay, in milliseconds. -/
  applyTimeout : UInt64
  /-- How many KiB of payload are replayed in a second; 0 for no bound. -/
  throttleKib : UInt64
  /-- How many workers apply replayed mutations. -/
  workers : UInt64
  /-- How many mutations may wait for a worker. -/
  queueDepth : UInt64
  /-- The name of the sync mode. -/
  sync : String
  /-- The longest time a batched record stays unsynced, in milliseconds. -/
  syncInterval : UInt64
  /-- So many dead records at least before the log is compacted. -/
  minGarbage : UInt64
  /-- This share of dead records at least before the log is compacted. -/
  garbageRatio : Binary64
deriving DecidableEq

namespace Settings

/-- One half, `0.5`. -/
def oneHalf : Binary64 := .ofRatio false 1 2

/-- The defaults: what a missing field of a file stands for. -/
def standard : Settings where
  replayTimeout := 4000
  replayInterval := 60000
  applyTimeout := 2000
  throttleKib := 1024
  workers := 4
  queueDepth := 4096
  sync := SyncMode.standard.text
  syncInterval := 100
  minGarbage := 1024
  garbageRatio := oneHalf

instance : Inhabited Settings := ⟨standard⟩

/-- How old a batch must be for replay: `replayTimeout`. -/
def replayAge (s : Settings) : Duration := .ofMillis s.replayTimeout

/-- The time between scheduled replay passes: `replayInterval`. -/
def interval (s : Settings) : Duration := .ofMillis s.replayInterval

/-- How long the mutations of one batch may take in replay: `applyTimeout`. -/
def patience (s : Settings) : Duration := .ofMillis s.applyTimeout

/-- The payload bytes that are replayed in a second, if they are bounded: `throttleKib` is not
    `0`. -/
def bytesPerSecond (s : Settings) : Option UInt64 :=
  if s.throttleKib = 0 then none
  else some (UInt64.ofNat (min (s.throttleKib.toNat * 1024) (UInt64.size - 1)))

/-- The sync mode that the name stands for, by `SyncMode.parse`. -/
def syncMode (s : Settings) : Except SettingsError SyncMode :=
  match SyncMode.parse s.sync with
  | .ok m => .ok m
  | .error reason => .error (.invalid reason)

/-- The options of the log store, if `syncMode` gives one. -/
def storeOptions (s : Settings) : Except SettingsError StoreOptions :=
  match s.syncMode with
  | .error e => .error e
  | .ok sync => .ok ⟨sync, .ofMillis s.syncInterval, s.minGarbage, s.garbageRatio⟩

/-- The `garbageRatio` lies above `0` and not above `1`. -/
def ratioInRange (s : Settings) : Bool :=
  Binary64.lt (.ofNat 0) s.garbageRatio && s.garbageRatio.le (.ofNat 1)

/-- **Validation:** the first fault, if there is one, is `invalid`. -/
def validate (s : Settings) : Except SettingsError Unit :=
  if s.replayInterval = 0 then
    .error (.invalid "replay_interval_ms must be greater than 0")
  else if s.applyTimeout = 0 then
    .error (.invalid "apply_timeout_ms must be greater than 0")
  else if s.workers = 0 then .error (.invalid "apply_workers must be at least 1")
  else if s.queueDepth = 0 then .error (.invalid "apply_queue_depth must be at least 1")
  else if !s.ratioInRange then
    .error (.invalid ("compaction_garbage_ratio must be in (0, 1], got "
      ++ Notation.plain.text s.garbageRatio))
  else
    match s.syncMode with
    | .error e => .error e
    | .ok _ => .ok ()

end Settings

end BatchJournal
