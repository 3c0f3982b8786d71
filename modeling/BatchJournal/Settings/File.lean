import BatchJournal.Bytes.Utf8
import BatchJournal.Settings.Basic
import BatchJournal.Toml.Quotes
import BatchJournal.Toml.Reader

namespace BatchJournal

/-!
# Settings files

Settings are kept in a TOML file, one key for each field.  A key that is missing has its default
and an unknown key is passed over, so an empty file is complete.

* `Settings.ofText` — the settings that a text gives.
* `Settings.text` — a text that gives the settings back.
* `SettingsFile` — what stands at the path of a settings file; `load`, `save` and `writeDefault`.
-/

namespace Settings

/-! ### Reading -/

/-- A field of a table: `default` if the key is missing, `none` if its item does not fit. -/
def fieldOr {α : Type} (t : Toml.Table) (key : String) (default : α)
    (read : Toml.Value → Option α) : Option α :=
  match t.find? key with
  | none => some default
  | some (.value v) => read v
  | some _ => none

/-- A whole number that is not negative, so a `UInt64`. -/
def readCount : Toml.Value → Option UInt64
  | .integer n => if 0 ≤ n then some (UInt64.ofNat n.toNat) else none
  | _ => none

/-- A text: `Toml.Value.text`. -/
def readText : Toml.Value → Option String
  | .text s => some s
  | _ => none

/-- A number, whole or not: `float` or `integer`. -/
def readNumber : Toml.Value → Option Binary64
  | .float x => some x
  | .integer n => some (.ofRatio (n < 0) n.natAbs 1)
  | _ => none

/-- The settings in a table: every field by `fieldOr`. -/
def ofTable (t : Toml.Table) : Option Settings := do
  return {
    replayTimeout := ← fieldOr t "replay_timeout_ms" standard.replayTimeout readCount
    replayInterval := ← fieldOr t "replay_interval_ms" standard.replayInterval readCount
    applyTimeout := ← fieldOr t "apply_timeout_ms" standard.applyTimeout readCount
    throttleKib := ← fieldOr t "replay_throttle_kib" standard.throttleKib readCount
    workers := ← fieldOr t "apply_workers" standard.workers readCount
    queueDepth := ← fieldOr t "apply_queue_depth" standard.queueDepth readCount
    sync := ← fieldOr t "sync" standard.sync readText
    syncInterval := ← fieldOr t "sync_interval_ms" standard.syncInterval readCount
    minGarbage := ← fieldOr t "compaction_min_garbage" standard.minGarbage readCount
    garbageRatio := ← fieldOr t "compaction_garbage_ratio" standard.garbageRatio readNumber }

/-- The settings that a text gives; `none` if it is no TOML or a field does not fit. -/
def ofText (s : String) : Option Settings := (Toml.parse s).bind ofTable

/-! ### Writing -/

/-- One line: `key = value`. -/
def line (key value : String) : String := key ++ " = " ++ value ++ "\n"

/-- A count as a TOML number, which has 63 bits; `none` if it has more. -/
def countText (n : UInt64) : Option String :=
  if n < 0x8000000000000000 then some (toString n.toNat) else none

/-- **The written form,** one `line` for each field; `none` if a count exceeds the range of TOML. -/
def text (s : Settings) : Option String := do
  let lines := [
    line "replay_timeout_ms" (← countText s.replayTimeout),
    line "replay_interval_ms" (← countText s.replayInterval),
    line "apply_timeout_ms" (← countText s.applyTimeout),
    line "replay_throttle_kib" (← countText s.throttleKib),
    line "apply_workers" (← countText s.workers),
    line "apply_queue_depth" (← countText s.queueDepth),
    line "sync" (Toml.quote s.sync),
    line "sync_interval_ms" (← countText s.syncInterval),
    line "compaction_min_garbage" (← countText s.minGarbage),
    line "compaction_garbage_ratio" (Notation.saved.text s.garbageRatio)]
  return String.join lines

/-- The file that is written where there is none: the defaults with their explanation. -/
def standardText : String := String.intercalate "\n" [
  "# Batch log configuration",
  "#",
  "# Minimum age of a batch before replay picks it up (milliseconds).",
  "# Younger batches are still in their direct-delivery window.",
  "replay_timeout_ms = 4000",
  "",
  "# Delay between scheduled replay passes (milliseconds)",
  "replay_interval_ms = 60000",
  "",
  "# Deadline for applying one batch's mutations during replay (milliseconds).",
  "# A batch that misses it stays in the log for the next pass.",
  "apply_timeout_ms = 2000",
  "",
  "# Replayed payload budget in KiB per second (0 = unthrottled)",
  "replay_throttle_kib = 1024",
  "",
  "# Worker threads applying replayed mutations, and their queue bound",
  "apply_workers = 4",
  "apply_queue_depth = 4096",
  "",
  "# Sync mode: \"batched\" (default) or \"always\"",
  "#   \"batched\" = fsync every sync_interval_ms, a machine crash may lose",
  "#               the last interval (a process crash loses nothing)",
  "#   \"always\"  = fsync every append",
  "sync = \"batched\"",
  "sync_interval_ms = 100",
  "",
  "# Compaction of the log file: at least this many dead records,",
  "# making up at least this fraction of the file",
  "compaction_min_garbage = 1024",
  "compaction_garbage_ratio = 0.5",
  ""]

end Settings

/-! ### Files -/

/-- What stands at a path, as far as reading and writing there can tell. -/
inductive SettingsFile where
  /-- Nothing. -/
  | missing
  /-- A directory. -/
  | directory
  /-- A path inside a directory that does not exist. -/
  | unreachable
  /-- A file with its bytes. -/
  | file (bytes : Bytes)
deriving DecidableEq, Repr

namespace SettingsFile

/-- Something stands at the path: a directory or a file. -/
def occupied : SettingsFile → Bool
  | .missing | .unreachable => false
  | .directory | .file _ => true

/-- The text of the file; `none` if there is no file or its bytes are no text. -/
def read : SettingsFile → Option String
  | .file bytes => Utf8.decode? bytes
  | _ => none

/-- Writes a text into the file, which may be new; what is no place for a file stays what it is, and
    the answer is `io`. -/
def write (f : SettingsFile) (path text : String) : Except SettingsError Unit × SettingsFile :=
  match f with
  | .missing | .file _ => (.ok (), .file (Utf8.encode text))
  | .directory | .unreachable => (.error (.io path "not writable"), f)

/-- **Loading:** the file is read, understood and validated, in this order: `io`, `parse` and
    `invalid` are the errors. -/
def load (f : SettingsFile) (path : String) : Except SettingsError Settings :=
  match f.read with
  | none => .error (.io path "not readable")
  | some text =>
    match Settings.ofText text with
    | none => .error (.parse path "not a settings file")
    | some s =>
      match s.validate with
      | .error e => .error e
      | .ok () => .ok s

/-- **Saving:** the settings take the place of what was in the file.  They are not validated, and
    settings that have no `Settings.text` do not touch the file. -/
def save (f : SettingsFile) (path : String) (s : Settings) :
    Except SettingsError Unit × SettingsFile :=
  match s.text with
  | none => (.error (.unwritable "a number is out of range"), f)
  | some text => f.write path text

/-- Writes the defaults, `Settings.standardText`, unless something stands at the path already. -/
def writeDefault (f : SettingsFile) (path : String) : Except SettingsError Unit × SettingsFile :=
  if f.occupied then (.ok (), f) else f.write path Settings.standardText

end SettingsFile

end BatchJournal
