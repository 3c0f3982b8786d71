import BatchJournal.Codec.Registry
import BatchJournal.Journal.Control
import BatchJournal.Journal.Error
import BatchJournal.Pool.Basic
import BatchJournal.Replay.Pass
import BatchJournal.Replay.WritePath
import BatchJournal.Store.Basic

namespace BatchJournal

/-!
# The journal

A journal owns a store, the registry of formats, a write path, a pool of workers and the counters.
A batch is submitted before its writer delivers it directly and removed after; what is left once it
is old enough is delivered by a replay pass.

This module has the journal and what its clients do in one step: `Journal.submit`,
`Journal.remove`, `Journal.count` and the like.  What workers and passes do is in
`BatchJournal.Journal.Step`.  A client's step names the failure of the store that is to happen in
it, if any, beside the failures that the store has of itself.
-/

/-- A journal over the write path `W`. -/
structure Journal (W : WritePath) where
  settings : Settings
  registry : Registry
  /-- The stored batches. -/
  store : Store
  /-- The write path. -/
  path : W.State
  /-- The workers that deliver for replay, each a `Task`. -/
  pool : Pool Task
  /-- The totals. -/
  counters : Counters
  /-- The tickets for passes, and the scheduler. -/
  control : Control
  /-- How many entries replay has attempted; so the number of the latest attempt. -/
  attempts : Nat
  /-- What the write path answered for the latest attempt and the pass has not seen. -/
  mailbox : List (Except WriteError Unit)
  /-- The pass under way. -/
  pass : Option Pass
  /-- Deliveries that workers of an earlier journal are still inside of. -/
  strays : List Delivery

namespace Journal

variable {W : WritePath}

/-- A journal that was just opened: no pass, no scheduler, all totals `0`. -/
def opened (settings : Settings) (registry : Registry) (store : Store) (path : W.State)
    (strays : List Delivery) : Journal W where
  settings
  registry
  store
  path
  pool := .start Task settings.workers.toNat settings.queueDepth.toNat
  counters := {}
  control := .fresh
  attempts := 0
  mailbox := []
  pass := none
  strays

/-- **Opens a journal** over a store; `settings.validate` has to accept the settings. -/
def overStore (settings : Settings) (registry : Registry) (store : Store) (path : W.State)
    (strays : List Delivery) : Except JournalError (Journal W) :=
  match settings.validate with
  | .error e => .error (.settings e)
  | .ok () => .ok (opened settings registry store path strays)

/-- **Opens a journal** on a medium, with what is left of the medium if that fails. On a disk the
    options of the store are settled and the store is opened before `overStore` validates the
    settings. -/
def onMedium (settings : Settings) (registry : Registry) (directory : String) (medium : Medium)
    (path : W.State) (strays : List Delivery) : Except JournalError (Journal W) × Medium :=
  match medium with
  | .memory es => (overStore settings registry (.memory es) path strays, medium)
  | .disk _ =>
    match settings.storeOptions with
    | .error e => (.error (.settings e), medium)
    -- The store is opened, and a torn log cut, even under settings that are then refused.
    | .ok options =>
      match medium.openWith directory options with
      | (.error e, medium) => (.error (.store e), medium)
      | (.ok (store, _), _) => (overStore settings registry store path strays, store.close)

/-- The entries that are stored: `g.store.entries`. -/
def entries (g : Journal W) : Entries := g.store.entries

/-- How many entries are stored: their `count`. -/
def pending (g : Journal W) : Nat := g.store.count

/-- The journal was shut down: `g.control.closed`. -/
def closed (g : Journal W) : Bool := g.control.closed

/-! ### Clients -/

/-- An operation of the store, unless it is to fail with `failure`. -/
def onStore (g : Journal W) (failure : Option StoreError) (op : StoreOp) :
    Except StoreError Unit × Journal W :=
  match failure with
  | some e => (.error e, g)
  | none =>
    let (r, store) := g.store.perform op
    (r, { g with store })

/-- Puts an entry into the store, by `onStore`. -/
def put (g : Journal W) (e : Entry) (failure : Option StoreError) :
    Except StoreError Unit × Journal W :=
  g.onStore failure (.put e)

/-- **Submits a batch** under a fresh id: encoded in `registry.current` and stored. What cannot be
    stored was not submitted. -/
def submit (g : Journal W) (id : BatchId) (ms : List Mutation) (written : Timestamp)
    (failure : Option StoreError) : Except JournalError Entry × Journal W :=
  if g.closed then (.error .shutDown, g)
  else
    match g.registry.encode g.registry.current ms with
    | .error e => (.error (.codec e), g)
    | .ok payload =>
      let e : Entry := ⟨id, written, g.registry.current, payload⟩
      match g.put e failure with
      | (.error err, g) => (.error (.store err), g)
      | (.ok (), g) => (.ok e, { g with counters := { g.counters with seen := g.counters.seen + 1 } })

/-- **Removes a batch** that was delivered directly, by `StoreOp.delete`; one that is gone already
    is no error. -/
def remove (g : Journal W) (id : BatchId) (failure : Option StoreError) :
    Except JournalError Unit × Journal W :=
  match g.onStore failure (.delete id) with
  | (.error e, g) => (.error (.store e), g)
  | (.ok (), g) => (.ok (), g)

/-- Flushes the store, by `onStore`. -/
def flush (g : Journal W) (failure : Option StoreError) : Except JournalError Unit × Journal W :=
  match g.onStore failure .flush with
  | (.error e, g) => (.error (.store e), g)
  | (.ok (), g) => (.ok (), g)

/-- How many batches are stored, after a `flush`. -/
def count (g : Journal W) (failure : Option StoreError) : Except JournalError Nat × Journal W :=
  match g.flush failure with
  | (.error e, g) => (.error e, g)
  | (.ok (), g) => (.ok g.pending, g)

/-- A description of the journal: its totals and whether it is `closed`. -/
def description (g : Journal W) : String :=
  "BatchlogManager \x7b metrics: " ++ g.counters.description g.pending ++ ", shut_down: "
    ++ toString g.closed ++ " \x7d"

/-! ### The end of a process -/

/-- The deliveries that workers are inside of, `running`. -/
def insideDelivery (g : Journal W) : List Delivery :=
  g.pool.workers.filterMap fun w =>
    match w.running? with
    | some (.waiting d) => some d
    | _ => none

/-- How a journal comes to its end: it is closed, or its process dies. -/
inductive Ending where
  /-- It is closed. -/
  | closed
  /-- Its process dies. -/
  | died
  /-- Its process dies in an operation of the store. -/
  | diedIn (op : StoreOp) (effects kept : Nat)

/-- What is left of the store: `close`, `crash` or `crashIn` of it. -/
def medium (g : Journal W) : Ending → Medium
  | .closed => g.store.close
  | .died => g.store.crash
  | .diedIn op effects kept => g.store.crashIn op effects kept

/-- Deliveries that outlast the journal, which only a living process has: `closed`. -/
def outlasting (g : Journal W) : Ending → List Delivery
  | .closed => g.strays ++ g.insideDelivery
  | _ => []

/-- **Opens the journal again** after its end: on the `medium` that is left of the store, with
    nothing else of it but the write path and the deliveries still under way. -/
def restart (g : Journal W) (directory : String) (ending : Ending) :
    Except JournalError (Journal W) :=
  (onMedium g.settings g.registry directory (g.medium ending) g.path (g.outlasting ending)).1

end Journal

end BatchJournal
