import BatchJournal.Bytes.Basic

namespace BatchJournal

/-!
# The directory of a log store

A log store lives in a directory with the log and, while the log is compacted, a temporary file.
`Disk` is what stands there; `Effect` lists everything a store does to it, one constructor for each
call that the file system carries out as a whole or fails.  Operations of the store are programs of
effects (`Program`), so that every point at which a process can die, and every call that can fail,
lies between two constructors.

* `Disk.attempt` — an effect on a disk, and whether it succeeded.
* `Program.run` — a program on a disk; `Program.runWith` where calls fail, and
  `Program.diesAfter` where the process dies on the way.
-/

/-- What stands in the place of the directory, when a store is to be opened in it. -/
inductive DirectoryState where
  /-- Nothing. -/
  | absent
  /-- A plain file. -/
  | plainFile
  /-- The directory. -/
  | present
deriving DecidableEq, Repr

/-- What stands in the place of the temporary file, which a compaction writes. -/
inductive TempState where
  /-- Nothing. -/
  | free
  /-- The file, with its bytes. -/
  | file (bytes : Bytes)
  /-- A directory. -/
  | directory
deriving DecidableEq, Repr

/-- The directory of a store, with its two files. -/
structure Disk where
  /-- The directory itself. -/
  directory : DirectoryState
  /-- The bytes of the log, if there is one. -/
  log : Option Bytes
  /-- The temporary file. -/
  temp : TempState
  /-- No write can make a file longer than this. -/
  limit : Option Nat
deriving DecidableEq, Repr

namespace Disk

/-- Nothing exists yet, and no write is too long. -/
def fresh : Disk := ⟨.absent, none, .free, none⟩

instance : Inhabited Disk := ⟨fresh⟩

end Disk

/-- An open log: where the next write goes, and whether writes and cuts are possible. -/
structure Handle where
  /-- Where the next write begins. -/
  position : Nat
  /-- The log can be written and cut through this handle. -/
  writable : Bool
deriving DecidableEq, Repr

/-- What a store does to its directory, one call of the file system each. -/
inductive Effect where
  /-- Creates the directory unless it exists. -/
  | makeDirectory
  /-- Creates an empty log where there is none. -/
  | createLog
  /-- Writes bytes into the log. -/
  | writeLog (handle : Handle) (bytes : Bytes)
  /-- Sets the length of the log. -/
  | cutLog (handle : Handle) (length : Nat)
  /-- Moves to a place in the log. -/
  | seekLog (position : Nat)
  /-- Makes the log safe against a crash of the machine. -/
  | syncLog
  /-- Creates the temporary file, or empties it. -/
  | createTemp
  /-- Writes bytes to the end of the temporary file. -/
  | writeTemp (bytes : Bytes)
  /-- Makes the temporary file safe against a crash of the machine. -/
  | syncTemp
  /-- Removes the temporary file. -/
  | removeTemp
  /-- Puts the temporary file in the place of the log. -/
  | renameTemp
  /-- Makes the directory safe against a crash of the machine. -/
  | syncDirectory
deriving DecidableEq, Repr

/-! ### Effects -/

/-- A byte string of a given length: cut by `take`, or filled up with zeros. -/
def Bytes.resize (length : Nat) (bs : Bytes) : Bytes :=
  bs.take length ++ List.replicate (length - bs.length) 0

/-- A byte string with `new` written over `old` from a given position. -/
def Bytes.overwrite (position : Nat) (new old : Bytes) : Bytes :=
  old.resize position ++ (new ++ old.drop (position + new.length))

namespace Disk

/-- The part of a write that keeps within the `limit`. -/
def admitted (d : Disk) (position : Nat) (bytes : Bytes) : Bytes :=
  match d.limit with
  | none => bytes
  | some limit => if position + bytes.length ≤ limit then bytes else bytes.take (limit - position)

/-- The log after bytes were written by `Bytes.overwrite`. -/
def written (d : Disk) (position : Nat) (bytes : Bytes) : Disk :=
  if bytes.isEmpty then d else { d with log := d.log.map (Bytes.overwrite position bytes) }

/-- **An effect on a disk:** whether it succeeded, and the disk afterwards. A write beyond the
    `limit` is carried out as far as the limit and fails. -/
def attempt (d : Disk) : Effect → Bool × Disk
  | .makeDirectory =>
    match d.directory with
    | .plainFile => (false, d)
    | _ => (true, { d with directory := .present })
  | .createLog => if d.log.isSome then (false, d) else (true, { d with log := some [] })
  | .writeLog h bytes =>
    if h.writable then
      let kept := d.admitted h.position bytes
      (kept.length = bytes.length, d.written h.position kept)
    else (false, d)
  | .cutLog h length =>
    if h.writable then (true, { d with log := d.log.map (Bytes.resize length) }) else (false, d)
  | .seekLog _ => (true, d)
  | .syncLog => (true, d)
  | .createTemp =>
    match d.temp with
    | .directory => (false, d)
    | _ => (true, { d with temp := .file [] })
  | .writeTemp bytes =>
    match d.temp with
    | .file old =>
      let kept := d.admitted old.length bytes
      (kept.length = bytes.length, { d with temp := .file (old ++ kept) })
    | _ => (false, d)
  | .syncTemp => (true, d)
  | .removeTemp =>
    match d.temp with
    | .file _ => (true, { d with temp := .free })
    | _ => (false, d)
  | .renameTemp =>
    match d.temp with
    | .file bytes => (true, { d with log := some bytes, temp := .free })
    | _ => (false, d)
  | .syncDirectory => (true, d)

/-- **An effect that is broken off:** of a write the first `kept` bytes are there, of anything else
    nothing. -/
def partway (d : Disk) (kept : Nat) : Effect → Disk
  | .writeLog h bytes => (d.attempt (.writeLog h (bytes.take kept))).2
  | .writeTemp bytes => (d.attempt (.writeTemp (bytes.take kept))).2
  | _ => d

/-- An effect that is carried out by `attempt`, or fails after it was broken off. -/
def attemptWith (d : Disk) (failure : Option Nat) (e : Effect) : Bool × Disk :=
  match failure with
  | none => d.attempt e
  | some kept => (false, d.partway kept e)

end Disk

/-! ### Programs of effects -/

/-- A program: effects one after another, each chosen by whether the former ones succeeded. -/
inductive Program (α : Type) where
  /-- The end, with a result. -/
  | done (result : α)
  /-- An effect, and how to go on when it succeeded or failed. -/
  | perform (effect : Effect) (next : Bool → Program α)

namespace Program

/-- One program after another: `f` goes on from the result. -/
def bind {α β : Type} : Program α → (α → Program β) → Program β
  | .done a, f => f a
  | .perform e next, f => .perform e fun ok => (next ok).bind f

instance : Monad Program where
  pure := .done
  bind := bind

/-- A single `Effect`, with its success as the result. -/
def effect (e : Effect) : Program Bool := .perform e .done

/-- **A program on a disk,** each effect carried out by `attempt` as the disk allows. -/
def run {α : Type} : Program α → Disk → α × Disk
  | .done a, d => (a, d)
  | .perform e next, d =>
    let (ok, d') := d.attempt e
    (next ok).run d'

/-- **A program under failures:** for each effect in turn the script says whether it fails, and how
    much of it is done then.  Behind the end of the script nothing fails but what the disk
    refuses. -/
def runWith {α : Type} : List (Option Nat) → Program α → Disk → α × Disk
  | _, .done a, d => (a, d)
  | [], .perform e next, d =>
    let (ok, d') := d.attempt e
    (next ok).runWith [] d'
  | failure :: script, .perform e next, d =>
    let (ok, d') := d.attemptWith failure e
    (next ok).runWith script d'

/-- **A program that is broken off** by the death of its process: so many effects are carried out,
    and the next one is broken off after `kept` bytes. -/
def diesAfter {α : Type} : Nat → Nat → Program α → Disk → Disk
  | _, _, .done _, d => d
  | 0, kept, .perform e _, d => d.partway kept e
  | n + 1, kept, .perform e next, d =>
    let (ok, d') := d.attempt e
    (next ok).diesAfter n kept d'

end Program

/-! ### Changes from outside -/

/-- What can happen to a log behind the back of its store, between one opening and the next. -/
inductive Damage where
  /-- The whole log is replaced. -/
  | replace (bytes : Bytes)
  /-- Bytes are added to the end. -/
  | extend (bytes : Bytes)
  /-- The length is set. -/
  | resize (length : Nat)
  /-- So many bytes are lost at the end. -/
  | shorten (count : Nat)
  /-- The bits of one byte are flipped where `mask` has ones. -/
  | flip (position : Nat) (mask : UInt8)
deriving DecidableEq, Repr

/-- The bytes of a log after a change from outside: what `Damage.apply` leaves of `old`. -/
def Damage.apply : Damage → Bytes → Bytes
  | .replace bytes, _ => bytes
  | .extend bytes, old => old ++ bytes
  | .resize length, old => old.resize length
  | .shorten count, old => old.take (old.length - count)
  | .flip position mask, old => old.modify position (· ^^^ mask)

/-- The disk after a change from outside; a log that is replaced or extended comes to exist. -/
def Disk.damage (d : Disk) (change : Damage) : Disk :=
  match change with
  | .replace _ | .extend _ =>
    { d with directory := .present, log := some (change.apply (d.log.getD [])) }
  | _ => { d with log := d.log.map change.apply }

end BatchJournal
