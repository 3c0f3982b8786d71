import BatchJournal.Store.Disk
import BatchJournal.Store.Error
import BatchJournal.Store.Options
import BatchJournal.Store.Scan

namespace BatchJournal

/-!
# The log store

A store that keeps its entries in one append-only log.  Every operation writes its record before it
returns, so a crash of the process loses nothing that was acknowledged; a write that fails part way
is cut off again, and if that fails too the store refuses further writes.  Compacting the log
(`LogStore.compact`) goes through a temporary file that takes the place of the log in one step.

* `LogStore.opening` — creates the log, or recovers the entries of the one that is there.
* `LogStore.put`, `LogStore.delete`, `LogStore.flush`, `LogStore.compact`, `LogStore.close` —
  programs of effects that also give the store afterwards.
-/

/-- An open log store: what the process knows of the log, the `index` above all. -/
structure LogStore where
  /-- The name of the log. -/
  path : String
  /-- The options it was opened with. -/
  options : StoreOptions
  /-- The live entries and the counts of records. -/
  index : Index
  /-- The end of the last complete record. -/
  size : Nat
  /-- Something was written since the last sync. -/
  unsynced : Bool
  /-- A failed write could not be cut off again. -/
  broken : Bool
  /-- The open log. -/
  handle : Handle

/-- What an open has to say about the log it found, behind the last record that can be read. -/
inductive Warning where
  /-- The log ends within a record; the offset is from the start of the file. -/
  | torn (offset : Nat)
  /-- A record does not parse. -/
  | corrupt (error : FormatError) (offset : Nat)
deriving DecidableEq, Repr

/-- The text of a warning. -/
def Warning.message : Warning → String
  | .torn _ => "Torn record at batch log tail, truncating"
  | .corrupt _ _ => "Corrupt batch log record, truncating log at last valid record"

namespace LogStore

/-- The name of the log inside its `directory`. -/
def fileName : String := "batchlog.log"

/-- The error of a failed file operation: `StoreError.io`. -/
def ioFailure : StoreError := .io "file operation failed"

/-! ### Opening -/

/-- An open store whose log ends where it says: neither `unsynced` nor `broken`. -/
def opened (path : String) (options : StoreOptions) (index : Index) (size : Nat) : LogStore :=
  ⟨path, options, index, size, false, false, ⟨size, true⟩⟩

/-- Creates the log with its `Header`. -/
def create (path : String) (options : StoreOptions) : Program (Except StoreError LogStore) := do
  if !(← .effect .createLog) then return .error ioFailure
  if !(← .effect (.writeLog ⟨0, true⟩ Header.current.encode)) then return .error ioFailure
  if !(← .effect .syncLog) then return .error ioFailure
  -- Its failure is passed over: only a crash of the machine could show it.
  let _ ← Program.effect .syncDirectory
  return .ok (opened path options .empty Header.length)

/-- What is said about a log whose parse stopped, with the length of the records before: `torn` if
    the bytes are too few, else `corrupt`. -/
def warning (stop : FormatError) (length : Nat) : Warning :=
  match stop with
  | .insufficientData => .torn (Header.length + length)
  | e => .corrupt e (Header.length + length)

/-- **Recovery:** the entries of a log are those of the records at its front, as `parse` finds them;
    what stands behind them is cut off. -/
def recover (path : String) (options : StoreOptions) (file : Bytes) :
    Program (Except StoreError (LogStore × List Warning)) := do
  if file.length < Header.length then
    return .error
      (.corruption (path ++ ": unreadable header: failed to fill whole buffer"))
  let header := Header.decode file
  if !header.valid then
    return .error (.corruption
      (path ++ ": not a batch log (magic ["
        ++ String.intercalate ", " (header.magic.map fun b => toString b.toNat)
        ++ "], format " ++ toString header.version.toNat ++ ")"))
  let parsed := Log.parse (file.drop Header.length)
  let size := Header.length + parsed.length
  -- A log that parses to its end is not touched.
  if size < file.length then
    if !(← .effect (.cutLog ⟨Header.length, true⟩ size)) then return .error ioFailure
    if !(← .effect .syncLog) then return .error ioFailure
  if !(← .effect (.seekLog size)) then return .error ioFailure
  return .ok
    (opened path options (.ofRecords (parsed.records.map (·.1))) size,
      (parsed.stop.map (warning · parsed.length)).toList)

/-- **Opening** a store in a directory as it is `found`: the log is created, or recovered. -/
def opening (directory : String) (options : StoreOptions) (found : Disk) :
    Program (Except StoreError (LogStore × List Warning)) := do
  if !(← .effect .makeDirectory) then return .error ioFailure
  let path := directory ++ "/" ++ fileName
  match found.log with
  | some file => recover path options file
  | none =>
    match ← create path options with
    | .error e => return .error e
    | .ok s => return .ok (s, [])

/-- Opens a store on a disk: the program `opening`, run there. -/
def openOn (directory : String) (options : StoreOptions) (d : Disk) :
    Except StoreError (LogStore × List Warning) × Disk :=
  (opening directory options d).run d

/-! ### Reading -/

/-- The entries that are live: those of the `index`. -/
def entries (s : LogStore) : Entries := s.index.entries

/-- How many records of the log describe no live entry: `index.dead`. -/
def garbage (s : LogStore) : Nat := s.index.dead

/-! ### Appending -/

/-- Cuts off what a failed write left, down to `size`; if that fails too the store is `broken`. -/
def rollback (s : LogStore) : Program LogStore := do
  if !(← .effect (.cutLog s.handle s.size)) then return { s with broken := true }
  if !(← .effect (.seekLog s.size)) then return { s with broken := true }
  return { s with handle := { s.handle with position := s.size } }

/-- The store after a record of the given length was written: the record is in the `index`. -/
def appended (s : LogStore) (r : Record) (length : Nat) : LogStore :=
  { s with index := s.index.add r, size := s.size + length }

/-- **Appends a record,** syncing it if every record is synced. After a failure the store stands as
    before, by `rollback`, or is `broken`. -/
def append (s : LogStore) (r : Record) : Program (Except StoreError Unit × LogStore) := do
  if s.broken then
    return (.error (.unavailable "batch log refuses writes after a failed rollback"), s)
  match r.encode with
  | .error e => return (.error (.ofFormat e), s)
  | .ok bytes =>
    if !(← .effect (.writeLog s.handle bytes)) then return (.error ioFailure, ← s.rollback)
    -- The bytes are in the file from here on, whether or not the sync succeeds.
    let moved :=
      { s with
        unsynced := true, handle := { s.handle with position := s.handle.position + bytes.length } }
    if s.options.sync.immediate then
      if !(← .effect .syncLog) then return (.error ioFailure, ← moved.rollback)
      return (.ok (), { moved with unsynced := false }.appended r bytes.length)
    return (.ok (), moved.appended r bytes.length)

/-- **Puts an entry,** over a former one of its id: appends `Record.put`. -/
def put (s : LogStore) (e : Entry) : Program (Except StoreError Unit × LogStore) := s.append (.put e)

/-- **Deletes an entry:** appends `Record.delete`. Nothing is written for an id without one. -/
def delete (s : LogStore) (id : BatchId) : Program (Except StoreError Unit × LogStore) :=
  if s.entries.contains id then s.append (.delete id) else return (.ok (), s)

/-! ### Syncing and compacting -/

/-- Syncs the log: nothing is `unsynced` then. -/
def sync (s : LogStore) : Program (Except StoreError Unit × LogStore) := do
  if ← .effect .syncLog then return (.ok (), { s with unsynced := false })
  else return (.error ioFailure, s)

/-- Syncs the log if something is `unsynced`. -/
def syncPending (s : LogStore) : Program (Except StoreError Unit × LogStore) :=
  if s.unsynced then s.sync else return (.ok (), s)

/-- The bytes of a log that holds one put for each entry, in id order, behind the `Header`. -/
def image (es : Entries) : Except FormatError Bytes := do
  let records ← es.toList.mapM fun e => (Record.put e).encode
  return Header.current.encode ++ records.flatten

/-- Writes the `image` into the temporary file: its length. -/
def writeImage (es : Entries) : Program (Except StoreError Nat) := do
  if !(← .effect .createTemp) then return .error ioFailure
  match image es with
  | .error e => return .error (.ofFormat e)
  | .ok bytes =>
    if !(← .effect (.writeTemp bytes)) then return .error ioFailure
    if !(← .effect .syncTemp) then return .error ioFailure
    return .ok bytes.length

/-- **Compacts the log** so that it holds one put for each live entry. On failure the old log stays;
    otherwise the temporary file becomes the log and its handle the open one. A `broken` store is
    repaired so. -/
def compact (s : LogStore) : Program (Except StoreError Unit × LogStore) := do
  match ← s.sync with
  | (.error e, s) => return (.error e, s)
  | (.ok (), s) =>
    match ← writeImage s.entries with
    | .error e =>
      let _ ← Program.effect .removeTemp
      return (.error e, s)
    | .ok size =>
      -- Up to here the old log is complete, after it the new one is.
      if !(← .effect .renameTemp) then
        let _ ← Program.effect .removeTemp
        return (.error ioFailure, s)
      let _ ← Program.effect .syncDirectory
      return (.ok (), opened s.path s.options ⟨s.entries, s.entries.count, 0⟩ size)

/-- **Flushes:** syncs the log and compacts it if `compactionDue`. -/
def flush (s : LogStore) : Program (Except StoreError Unit × LogStore) := do
  match ← s.sync with
  | (.error e, s) => return (.error e, s)
  | (.ok (), s) =>
    if s.options.compactionDue s.index.records s.index.dead then s.compact
    else return (.ok (), s)

/-- Closes the store; what is still `unsynced` is synced if possible. -/
def close (s : LogStore) : Program Unit := do
  let _ ← s.syncPending
  return

/-- The store syncs by itself at intervals: it is `batched`, and the interval is not zero. -/
def syncsInBackground (s : LogStore) : Bool :=
  s.options.sync == .batched && s.options.syncInterval != .zero

/-- Waits at most a given time for everything to be synced: whether it was, and the store then. Only
    a store that `syncsInBackground` does it by itself. -/
def awaitSynced (s : LogStore) (patience : Duration) : Program (Bool × LogStore) := do
  if !s.unsynced then return (true, s)
  else if s.syncsInBackground && s.options.syncInterval ≤ patience then
    let (r, s) ← s.sync
    return (r.isOk, s)
  else return (false, s)

/-- A description of the store. -/
def description (s : LogStore) : String :=
  "FileBatchStore \x7b path: \"" ++ s.path ++ "\", options: " ++ s.options.description
    ++ ", live: " ++ toString s.entries.count ++ " \x7d"

end LogStore

end BatchJournal
