import BatchJournal.Journal.Step
import BatchJournal.Rehearsal.GatedReplica

namespace BatchJournal

/-!
# Rehearsals of a journal

A rehearsal runs a journal over a gated replica along one schedule out of all that are possible:
workers act as soon as they can, the pass acts when no worker can, and a deadline passes only when
nothing else is left to happen.  Time is a count of nanoseconds that moves when a pass sleeps or a
deadline passes.  A scheduler sleeps while clients act, unless they are at work for longer than its
interval: then its pass goes on beside them.

* `Rehearsal.quiesce` — acts until nothing is left to happen.
* `Rehearsal.replay`, `Rehearsal.shutDown` and the others — a client's call, run to its end.
-/

/-- A journal under rehearsal, or what is left where there is none: the medium, the write path and
    the deliveries still under way. -/
inductive Scene where
  /-- There is no journal. -/
  | empty (medium : Medium) (path : GatedReplica) (strays : List Delivery)
  /-- The journal runs. -/
  | running (journal : Journal gatedPath)

/-- A rehearsal: a journal over `gatedPath`, and what its acts hang on. -/
structure Rehearsal where
  settings : Settings
  /-- The formats that it is opened with. -/
  registry : Registry
  /-- What there is. -/
  scene : Scene
  /-- What the store does wrong. -/
  faults : StoreFaults
  /-- The time, in nanoseconds. -/
  clock : Nat
  /-- When the latest pass began. -/
  began : Nat
  /-- How many batches were submitted. -/
  serial : Nat
  /-- How long clients have been at work since the scheduler lay down, in nanoseconds. -/
  spent : Nat

namespace Rehearsal

/-! ### The setting -/

/-- The directory of a store on a disk, the same for every rehearsal. -/
def directory : String := "<dir>"

/-- The time of day at which replay looks at its entries, in the year 2025. -/
def now : Timestamp := ⟨1750000000000000⟩

/-- The journal, if it is `running`. -/
def journal? (r : Rehearsal) : Option (Journal gatedPath) :=
  match r.scene with
  | .running g => some g
  | .empty _ _ _ => none

/-- The rehearsal with its journal in another state. -/
def withJournal (r : Rehearsal) (g : Journal gatedPath) : Rehearsal := { r with scene := .running g }

/-- The write path, be the journal running or not. -/
def path (r : Rehearsal) : GatedReplica :=
  match r.scene with
  | .running g => g.path
  | .empty _ path _ => path

/-- The rehearsal with its write path in another state. -/
def withPath (r : Rehearsal) (path : GatedReplica) : Rehearsal :=
  match r.scene with
  | .running g => r.withJournal { g with path }
  | .empty medium _ strays => { r with scene := .empty medium path strays }

/-- **Opens the journal** by `Journal.onMedium` where there is none. -/
def build (r : Rehearsal) : Except JournalError Unit × Rehearsal :=
  match r.scene with
  | .running _ => (.ok (), r)
  | .empty medium path strays =>
    match Journal.onMedium r.settings r.registry directory medium path strays with
    | (.ok g, _) => (.ok (), { r.withJournal g with spent := 0 })
    | (.error e, medium) => (.error e, { r with scene := .empty medium path strays })

/-- The store is on a disk, and not in `memory`. -/
def onDisk (r : Rehearsal) : Bool :=
  match r.scene with
  | .empty (.disk _) _ _ => true
  | .empty (.memory _) _ _ => false
  | .running g =>
    match g.store with
    | .logged _ _ => true
    | .memory _ => false

/-- **The store is told to fail.** One that is `onDisk` does not listen: it fails as its disk
    does. -/
def withFaults (r : Rehearsal) (faults : StoreFaults) : Rehearsal :=
  if r.onDisk then r else { r with faults }

/-- A rehearsal in which nothing was opened yet: `empty`. -/
def fresh (settings : Settings) (registry : Registry) (medium : Medium) : Rehearsal :=
  ⟨settings, registry, .empty medium .fresh [], {}, 0, 0, 0, 0⟩

/-! ### Who acts next -/

/-- A worker comes to the gate: an event of `gatedPath`. -/
def comeToGate (w : Nat) : Act gatedPath :=
  .path fun (path : GatedReplica) => { path with gate := path.gate.enter w }

/-- What a worker would do; `none` when it sleeps, has left, or stands before the shut gate. -/
def workerAct (g : Journal gatedPath) (w : Nat) : Option (Act gatedPath) :=
  match g.pool.workers[w]? with
  | none | some .asleep | some .exited => none
  | some (.running (.waiting _)) =>
    match g.path.gate.numberOf? w with
    | none => some (comeToGate w)
    | some number =>
      if g.path.gate.admits number then some (.worker (.apply w (.worker w))) else none
  | some (.running (.answered _ _)) => some (.worker (.report w))
  | some _ => some (.worker (.proceed w))

/-- What the workers would do, those of earlier journals first: the first `workerAct` there is. -/
def workAct (g : Journal gatedPath) : Option (Act gatedPath) :=
  match g.path.gate.freeStray? with
  | some i => some (.worker (.stray i (.stray i)))
  | none => (List.range g.pool.workers.length).findSome? (workerAct g)

/-- What the deletion of an entry comes to: a fault of the store is an error or a breakdown. -/
def deletion : Option StoreFault → PassAct
  | none => .delete none
  | some (.fail e) => .delete (some e)
  | some (.panic message) => .panic message

/-- What a pass would do in its phase, its `deadline` apart. -/
def passAct (r : Rehearsal) (g : Journal gatedPath) (p : Pass) : Option PassAct :=
  match p.phase with
  | .between => some .fetch
  | .fetched _ => some (.consider now)
  | .pacing _ _ => some (.pace (r.clock - r.began))
  | .resting _ _ => some .wake
  | .sorting _ _ _ _ => some .sort
  | .offering _ _ _ _ => some .offer
  | .inserting _ _ _ _ _ => some .insert
  | .rousing _ _ _ _ => some (.rouse g.pool.firstAsleep)
  | .collecting _ _ _ =>
    if !g.mailbox.isEmpty then some .collect else if g.attended then none else some .abandon
  | .deleting _ _ => some (deletion r.faults.delete)
  | .failed _ _ => some .countFailure
  | .finished _ => some .retire

/-- The end of a deadline, where the pass is `collecting` and nothing else is left to wait for. -/
def deadline (g : Journal gatedPath) (p : Pass) : Option PassAct :=
  match p.phase with
  | .collecting _ _ _ => some (.expire g.settings.applyTimeout.toNat)
  | _ => none

/-- The next act before a deadline: `workAct`, else `passAct`. -/
def promptAct (r : Rehearsal) (g : Journal gatedPath) : Option (Act gatedPath) :=
  (workAct g).or <| g.pass.bind fun p => (r.passAct g p).map .pass

/-- **The next act:** `promptAct`, else the `deadline` of the pass. -/
def nextAct (r : Rehearsal) (g : Journal gatedPath) : Option (Act gatedPath) :=
  (r.promptAct g).or <| g.pass.bind fun p => (deadline g p).map .pass

/-- When a pass that sleeps for an entry may go on: `Throttle.due` from its beginning. -/
def dueAt (r : Rehearsal) (t : Throttle) (e : Entry) : Nat :=
  r.began + { t with consumed := t.consumed - e.payload.length : Throttle }.due

/-- The time after the pass has slept: the `clock` or `dueAt`, whichever is later. -/
def wakeTime (r : Rehearsal) (p : Pass) : Nat :=
  match p.phase, p.throttle with
  | .resting e _, some t => max r.clock (r.dueAt t e)
  | _, _ => r.clock

/-- The time after an act: a sleep lasts until `wakeTime` unless the pass was asked to stop, and a
    deadline lasts as long as the settings say. -/
def timeAfter (r : Rehearsal) (g : Journal gatedPath) : Act gatedPath → Nat
  | .pass .wake =>
    match g.pass with
    | some p => if g.stopRequested p then r.clock else r.wakeTime p
    | none => r.clock
  | .pass (.expire millis) => r.clock + millis * 1000000
  | _ => r.clock

/-- One act, if `Journal.step` allows it, with the time that it takes. -/
def act (r : Rehearsal) (a : Act gatedPath) : Option Rehearsal :=
  r.journal?.bind fun g =>
    (g.step a).map fun g' => { r with scene := .running g', clock := r.timeAfter g a }

/-- One act; where `act` is not possible nothing happens. -/
def tryAct (r : Rehearsal) (a : Act gatedPath) : Rehearsal := (r.act a).getD r

/-- Acts until `stop` holds or nothing is left to happen, at most so many times. -/
def playWithin (stop : Rehearsal → Journal gatedPath → Bool) : Nat → Rehearsal → Rehearsal
  | 0, r => r
  | fuel + 1, r =>
    match r.journal? with
    | none => r
    | some g =>
      if stop r g then r
      else
        match (r.nextAct g).bind r.act with
        | none => r
        | some r' => playWithin stop fuel r'

/-- How much there is to do at most: the entries, their mutations, the jobs and the workers. It
    bounds how often a rehearsal acts. -/
def workload (g : Journal gatedPath) : Nat :=
  let perEntry (e : Entry) : Nat :=
    match g.registry.decode e.version e.payload with
    | .ok ms => ms.length + 1
    | .error _ => 1
  g.entries.toList.foldr (fun e n => perEntry e + n) 0 + g.pool.queue.length + g.pool.workers.length
    + g.strays.length

/-- **Acts until** `stop` holds or nothing is left to happen.  Each mutation, entry and worker takes
    fewer than 32 acts. -/
def playUntil (r : Rehearsal) (stop : Rehearsal → Journal gatedPath → Bool) : Rehearsal :=
  match r.journal? with
  | none => r
  | some g => r.playWithin stop (32 * (workload g + 2))

/-- **Acts until nothing is left to happen:** `nextAct` is `none`. -/
def quiesce (r : Rehearsal) : Rehearsal := r.playUntil fun _ _ => false

/-! ### Passes -/

/-- The result that the holders of a ticket see, if the pass is over. -/
def result? (r : Rehearsal) (ticket : Nat) : Option PassResult :=
  r.journal?.bind fun g => (g.control.flight.ticket? ticket).bind (·.result)

/-- Lets the pass of a ticket begin, if none is under way. -/
def beginPass (r : Rehearsal) (ticket : Nat) : Rehearsal :=
  match r.act (.pass (.begin ticket)) with
  | none => r
  | some r =>
    let r := { r with began := r.clock }
    match r.faults.scan with
    | some (.panic message) => r.tryAct (.pass (.panic message))
    | _ => r

/-- Asks for a pass by `Control.Move.board` and lets it begin: the ticket. -/
def board (r : Rehearsal) : Nat × Rehearsal :=
  match r.journal? with
  | none => (0, r)
  | some g =>
    let ticket := (g.control.flight.start none).1
    (ticket, (r.tryAct (.control (.board none))).beginPass ticket)

/-- **A pass from its start to its end,** and until no delivery is left: `board` and `quiesce`. -/
def replay (r : Rehearsal) : Option PassResult × Rehearsal :=
  let (ticket, r) := r.board
  let r := r.quiesce
  (r.result? ticket, r)

/-! ### The gate -/

/-- The deliveries that outlasted a journal, where none runs: those that go through the gate come to
    their end, at most so many. -/
def releaseStraysWithin : Nat → Rehearsal → Rehearsal
  | 0, r => r
  | fuel + 1, r =>
    match r.scene with
    | .running _ => r
    | .empty medium path strays =>
      match path.gate.freeStray?.bind fun i => strays[i]?.map fun d => (i, d) with
      | none => r
      | some (i, d) =>
        let path := (path.deliver (.stray i) d.mutation d.written).2
        releaseStraysWithin fuel { r with scene := .empty medium path (strays.eraseIdx i) }

/-- The gate is changed, and the deliveries that it now `admits` come to their end. -/
def withGate (r : Rehearsal) (gate : Gate) : Rehearsal :=
  let r := r.withPath { r.path with gate }
  (r.releaseStraysWithin r.path.gate.strays.length).quiesce

/-- **Shuts the gate** from the `n`-th call on. -/
def shutGate (r : Rehearsal) (n : Nat) : Rehearsal := r.withGate (r.path.gate.shut n)

/-- **Opens the gate:** `Gate.opened`. -/
def openGate (r : Rehearsal) : Rehearsal := r.withGate r.path.gate.opened

/-- **A pass until it comes to the gate** at the `n`-th call from now, or to its end: its ticket and
    whether it came to the gate. -/
def replayToGate (r : Rehearsal) (n : Nat) : Nat × Bool × Rehearsal :=
  let (ticket, r) := (r.shutGate n).board
  let r := r.playUntil fun r g => g.pass.isNone || r.path.gate.reached
  (ticket, r.path.gate.reached, r)

/-- Asks the pass of a ticket to stop by `Control.Move.cancel`. -/
def cancel (r : Rehearsal) (ticket : Nat) : Rehearsal := r.tryAct (.control (.cancel ticket))

/-- **A pass cancelled at the gate,** which is shut from call `n`: whether it came there, and its
    result. -/
def replayCancelled (r : Rehearsal) (n : Nat) : Bool × Option PassResult × Rehearsal :=
  let (ticket, reached, r) := r.replayToGate n
  let r := (r.cancel ticket).openGate
  (reached, r.result? ticket, r)

/-- What callers see who ask for a pass while one stands before the gate, as `replayJoined` tells
    it. -/
structure Joining where
  /-- For each of them, the ticket is that of the pass. -/
  same : List Bool
  /-- For each of them, the pass was over. -/
  finished : List Bool
  /-- For each of them, the number of the pass. -/
  numbers : List Nat
  /-- The first caller saw no result yet. -/
  early : Bool
  /-- In the end everybody sees the same result. -/
  agreed : Bool

/-- The number on a ticket: `Ticket.number`. -/
def number (r : Rehearsal) (ticket : Nat) : Nat :=
  ((r.journal?.bind (·.control.flight.ticket? ticket)).map (·.number)).getD 0

/-- So many callers ask for a pass by `board`, one after another: their tickets. -/
def boardMany : Nat → Rehearsal → List Nat × Rehearsal
  | 0, r => ([], r)
  | n + 1, r =>
    let (ticket, r) := r.board
    let (tickets, r) := boardMany n r
    (ticket :: tickets, r)

/-- **A pass joined at the gate** by `joins` further callers: what they see if it came there, and
    its result. -/
def replayJoined (r : Rehearsal) (n joins : Nat) :
    Option Joining × Option PassResult × Rehearsal :=
  let (ticket, reached, r) := r.replayToGate n
  if reached then
    let (tickets, r) := r.boardMany joins
    let finished := tickets.map fun t => (r.result? t).isSome
    let early := (r.result? ticket).isNone
    let r := r.openGate
    let result := r.result? ticket
    (some
      { same := tickets.map (· = ticket)
        finished
        numbers := tickets.map r.number
        early
        agreed := tickets.all fun t => decide (r.result? t = result) },
      result, r)
  else
    let r := r.openGate
    (none, r.result? ticket, r)

/-- A pass is `resting` to keep its pace, and the total of replayed batches has come to
    `replayed`. -/
def restingAfter (replayed : Nat) (g : Journal gatedPath) : Bool :=
  decide (replayed ≤ g.counters.replayed) && g.pass.any (·.phase.isResting)

/-- **A pass cancelled in its sleep,** after `n` more batches were replayed: whether it came to its
    end before anybody could cancel it, and its result. -/
def replayCancelledResting (r : Rehearsal) (n : Nat) : Bool × Option PassResult × Rehearsal :=
  let target := ((r.journal?.map (·.counters.replayed)).getD 0) + n
  let (ticket, r) := r.board
  let r := r.playUntil fun _ g => g.pass.isNone || restingAfter target g
  let ended := (r.result? ticket).isSome
  let r := (r.cancel ticket).quiesce
  (ended, r.result? ticket, r)

/-! ### The scheduler and the shutdown -/

/-- Lets a caller of the control `advance` until it has to wait for somebody, at most so many
    times. -/
def driveWithin (caller : Nat) : Nat → Rehearsal → Rehearsal
  | 0, r => r
  | fuel + 1, r =>
    match r.journal?.bind (·.control.callers[caller]?) with
    | some .releasing | some (.shut _) | some (.installed _) | some (.unscheduled _) | none => r
    | some at' =>
      match r.act (.control (.advance caller)) with
      | some r => driveWithin caller fuel r
      | none =>
        match at' with
        | .joining k => driveWithin caller fuel (r.quiesce.tryAct (.control (.beat k none)))
        | _ => driveWithin caller fuel r.quiesce

/-- A caller comes and acts by `driveWithin`: where it stands when it is done, or has to stop the
    workers. -/
def drive (r : Rehearsal) (come : Control.Move) : Nat × Option Controller × Rehearsal :=
  match r.journal? with
  | none => (0, none, r)
  | some g =>
    let i := g.control.callers.length
    let r := (r.tryAct (.control come)).driveWithin i 16
    (i, r.journal?.bind (·.control.callers[i]?), r)

/-- **Installs the scheduler** unless the journal is shut down: a caller that begins `checking`. -/
def schedule (r : Rehearsal) : Except JournalError Unit × Rehearsal :=
  match r.drive .install with
  | (_, some (.installed true), r) => (.ok (), r)
  | (_, _, r) => (.error .shutDown, r)

/-- Flushes the store, which may be told to fail. -/
def flush (r : Rehearsal) : Except JournalError Unit × Rehearsal :=
  match r.journal? with
  | none => (.ok (), r)
  | some g =>
    let (result, g) := g.flush (r.faults.flush.bind StoreFault.error?)
    (result, r.withJournal g)

/-- **Shuts the journal down:** the pass under way is cancelled and awaited, the scheduler ended,
    the workers get to finish what they can, the rest of their queue is dropped, and the store is
    flushed. -/
def shutDown (r : Rehearsal) : Except JournalError Unit × Rehearsal :=
  match r.drive .shutDown with
  | (i, some .releasing, r) =>
    let r := ((r.quiesce.tryAct .closePool).tryAct .clearPool).quiesce
    let (result, r) := r.flush
    (result, r.tryAct (.control (.advance i)))
  | (_, _, r) => (.ok (), r)

/-- **A shutdown while a pass stands before the gate,** which is shut from call `n` and opened after
    it. Whether the pass came there, what the shutdown answered, and the result of the pass. -/
def shutDownAtGate (r : Rehearsal) (n : Nat) :
    Bool × Except JournalError Unit × Option PassResult × Rehearsal :=
  let (ticket, reached, r) := r.replayToGate n
  let (answer, r) := r.shutDown
  let r := r.openGate
  (reached, answer, r.result? ticket, r)

/-- **Ends the journal:** `closed`. Its store and write path stay, and so do the deliveries that its
    workers are inside of. -/
def drop (r : Rehearsal) : Rehearsal :=
  let r := r.shutDown.2
  match r.scene with
  | .empty _ _ _ => r
  | .running g =>
    let path : GatedReplica := g.path
    let path := { path with gate := path.gate.outlast g.pool.workers.length }
    { r with scene := .empty (g.medium .closed) path (g.outlasting .closed) }

/-- The ticket of the pass that a scheduler waits for, if it is `waiting`. -/
def awaited? (r : Rehearsal) (k : Nat) : Option Nat :=
  match r.journal?.bind (·.control.schedulers[k]?) with
  | some ⟨_, .waiting ticket⟩ => some ticket
  | _ => none

/-- A scheduler acts by `Control.Move.beat`. -/
def beat (r : Rehearsal) (k : Nat) : Rehearsal := r.tryAct (.control (.beat k none))

/-- A scheduler lies down if the pass that it waited for is over: it is `sleeping`. -/
def lieDown (r : Rehearsal) (k : Nat) : Rehearsal :=
  match r.awaited? k with
  | some _ => r.beat k
  | none => r

/-- A scheduler wakes and asks for its pass, unless it is still `waiting` for one. -/
def rise (r : Rehearsal) (k : Nat) : Rehearsal :=
  let r := ((r.lieDown k).beat k).beat k
  match r.awaited? k with
  | some ticket => r.beginPass ticket
  | none => r

/-- One round of the scheduler: it asks for a pass, waits for it, and sleeps again: `rise`,
    `quiesce` and `lieDown`. -/
def round (r : Rehearsal) (k : Nat) : Rehearsal := { (r.rise k).quiesce.lieDown k with spent := 0 }

/-- **A client is at work for so long.** If the interval of the scheduler ends meanwhile, its pass
    goes on beside the client, as far as it comes by `promptAct`, without waiting for a deadline. -/
def spend (r : Rehearsal) (nanoseconds : Nat) : Rehearsal :=
  match r.journal? with
  | none => r
  | some g =>
    match g.control.place with
    | none => r
    | some k =>
      let r := { r with spent := r.spent + nanoseconds }
      if r.spent < g.settings.replayInterval.toNat * 1000000 then r
      else { (r.rise k).playUntil fun r g => (r.promptAct g).isNone with spent := 0 }

/-- The stored entries are down to `left`. -/
def drained (r : Rehearsal) (left : Nat) : Bool := r.journal?.all fun g => g.pending ≤ left

/-- Rounds of the scheduler until the store is `drained`, at most so many. -/
def roundsWithin (k left : Nat) : Nat → Rehearsal → Rehearsal
  | 0, r => r
  | fuel + 1, r => if r.drained left then r else roundsWithin k left fuel (r.round k)

/-- How long somebody waits for the scheduler: `10000` milliseconds. -/
def patience : Nat := 10000

/-- **Waits for the scheduler** to bring the store down to so many entries, and then for one more
    pass: whether the store came down.  Rounds that leave all entries where they are bring nothing,
    so as many as there are entries suffice. -/
def awaitDrained (r : Rehearsal) (left : Nat) : Bool × Rehearsal :=
  let r :=
    match r.journal? with
    | none => r
    | some g =>
      match g.control.place with
      | none => r
      | some k =>
        r.roundsWithin k left (min g.pending (patience / g.settings.replayInterval.toNat))
  if r.drained left then (true, r.replay.2) else (false, r)

/-! ### Other clients -/

/-- Submits a batch under the next id, which `serial` counts. Encoding takes a nanosecond for each
    byte. -/
def submit (r : Rehearsal) (g : Journal gatedPath) (ms : List Mutation) (written : Timestamp) :
    Except JournalError Entry × Rehearsal :=
  let id := BatchId.timed (now.millis.toNat) r.serial
  let (result, g) := g.submit id ms written (r.faults.put.bind StoreFault.error?)
  let r := { r with scene := .running g, serial := r.serial + 1 }
  match result with
  | .ok e => (.ok e, r.spend e.payload.length)
  | .error e => (.error e, r)

/-- Puts an entry into the store, which may be told to fail. -/
def put (r : Rehearsal) (g : Journal gatedPath) (e : Entry) :
    Except StoreError Unit × Rehearsal :=
  let (result, g) := g.put e (r.faults.put.bind StoreFault.error?)
  (result, r.withJournal g)

/-- Removes a batch by `Journal.remove`. -/
def remove (r : Rehearsal) (g : Journal gatedPath) (id : BatchId) :
    Except JournalError Unit × Rehearsal :=
  let (result, g) := g.remove id (r.faults.delete.bind StoreFault.error?)
  (result, r.withJournal g)

/-- Counts the stored batches by `Journal.count`. -/
def count (r : Rehearsal) (g : Journal gatedPath) : Except JournalError Nat × Rehearsal :=
  let (result, g) := g.count (r.faults.flush.bind StoreFault.error?)
  (result, r.withJournal g)

/-- Delivers a mutation past the journal, as a `client` of the gate. -/
def deliver (r : Rehearsal) (m : Mutation) (written : Timestamp) : Outcome × Rehearsal :=
  let (outcome, path) := r.path.deliver .client m written
  (outcome, r.withPath path)

end Rehearsal

end BatchJournal
