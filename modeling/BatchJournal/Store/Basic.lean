import BatchJournal.Store.LogStore

namespace BatchJournal

/-!
# Stores

A store keeps entries by id: in memory, or in a log on a disk.  Both answer alike; they differ in
what is left of them when they are closed, their *medium*, and in how an operation can fail.

* `Store.entries` — the view that every answer is taken from.
* `Store.perform` — the operations (`StoreOp`) that change or secure it.
* `Medium.openWith` — a store on what an earlier one left.
-/

/-- What changes or secures what is stored, in memory or in a log. -/
inductive StoreOp where
  /-- Puts an entry, over a former one of its id. -/
  | put (entry : Entry)
  /-- Deletes the entry of an id, if there is one. -/
  | delete (id : BatchId)
  /-- Secures everything that was stored. -/
  | flush
  /-- Compacts the log. -/
  | compact

/-- What an operation does to the entries: `flush` and `compact` leave them as they are. -/
def StoreOp.effect : StoreOp → Entries → Entries
  | .put e, es => es.put e
  | .delete id, es => es.delete id
  | .flush, es | .compact, es => es

/-- An operation of a log store, as a `Program` that says what it does to the disk. -/
def LogStore.program (s : LogStore) : StoreOp → Program (Except StoreError Unit × LogStore)
  | .put e => s.put e
  | .delete id => s.delete id
  | .flush => s.flush
  | .compact => s.compact

/-- A store of entries: in memory, or in a log on a disk. -/
inductive Store where
  /-- Entries in memory. -/
  | memory (entries : Entries)
  /-- Entries in a log. -/
  | logged (log : LogStore) (disk : Disk)

/-- What outlasts a store: its memory, or its disk. -/
inductive Medium where
  /-- Memory that is kept. -/
  | memory (entries : Entries)
  /-- A disk. -/
  | disk (disk : Disk)

namespace Store

/-- The entries that are stored: those of the index for a log. -/
def entries : Store → Entries
  | .memory es => es
  | .logged s _ => s.entries

/-- The entry of an id: `entries.get?`. -/
def get? (s : Store) (id : BatchId) : Option Entry := s.entries.get? id

/-- How many entries are stored: `entries.count`. -/
def count (s : Store) : Nat := s.entries.count

/-- The scan of everything stored now: `Scan.ofEntries`. -/
def scan (s : Store) : Scan := .ofEntries s.entries

/-- **An operation of a store,** with its success: the `effect` on the entries in memory, the
    `program` on a disk. -/
def perform (s : Store) (op : StoreOp) : Except StoreError Unit × Store :=
  match s with
  | .memory es => (.ok (), .memory (op.effect es))
  | .logged l d =>
    let ((r, l), d) := (l.program op).run d
    (r, .logged l d)

/-- Puts an entry, over a former one of its id: `perform` of `StoreOp.put`. -/
def put (s : Store) (e : Entry) : Except StoreError Unit × Store := s.perform (.put e)

/-- Deletes the entry of an id, if there is one: `perform` of `StoreOp.delete`. -/
def delete (s : Store) (id : BatchId) : Except StoreError Unit × Store := s.perform (.delete id)

/-- Secures everything that was stored: `perform` of `StoreOp.flush`. -/
def flush (s : Store) : Except StoreError Unit × Store := s.perform .flush

/-- Compacts the log: `perform` of `StoreOp.compact`; nothing to do in memory. -/
def compact (s : Store) : Except StoreError Unit × Store := s.perform .compact

/-- Closes the store by `LogStore.close`. -/
def close : Store → Medium
  | .memory es => .memory es
  | .logged l d => .disk (l.close.run d).2

/-- What is left when the process dies between two operations: the disk as it stands. -/
def crash : Store → Medium
  | .memory es => .memory es
  | .logged _ d => .disk d

/-- What is left when the process dies in an operation: after so many of its effects, and `kept`
    bytes of the next. -/
def crashIn (s : Store) (op : StoreOp) (effects kept : Nat) : Medium :=
  match s with
  | .memory es => .memory es
  | .logged l d => .disk ((l.program op).diesAfter effects kept d)

end Store

namespace Medium

/-- Opens a store on its medium by `LogStore.openOn`; in memory there is nothing to go wrong. -/
def openWith (directory : String) (options : StoreOptions) :
    Medium → Except StoreError (Store × List Warning) × Medium
  | .memory es => (.ok (.memory es, []), .memory es)
  | .disk d =>
    match LogStore.openOn directory options d with
    | (.ok (l, warnings), d') => (.ok (.logged l d', warnings), .disk d')
    | (.error e, d') => (.error e, .disk d')

end Medium

end BatchJournal
