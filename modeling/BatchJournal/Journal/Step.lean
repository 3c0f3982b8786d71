import BatchJournal.Journal.Basic

namespace BatchJournal

/-!
# Steps of a journal

Everything that happens in a journal is a sequence of acts, each by somebody who was free to act
then: a worker of the pool, the pass under way, a client, the shutdown, or somebody who uses the
write path past the journal.  An act carries what is not determined by the journal itself: the time
on a clock, how the write path answers, a failure of the store.

* `Journal.workerStep` — the pool delivers a mutation and tells the pass.
* `Journal.passStep` — the pass visits, applies and deletes entries.
* `Journal.step` — one act of anybody.
-/

/-- What a worker does: in the pool, or inside of a job. -/
inductive WorkerAct (W : WritePath) where
  /-- A step outside of any job. -/
  | proceed (worker : Nat)
  /-- The write path answers a worker, or breaks down. -/
  | apply (worker : Nat) (choice : W.Choice)
  /-- A worker tells the pass what the write path answered, and its job ends. -/
  | report (worker : Nat)
  /-- A delivery left from an earlier journal comes to its end. -/
  | stray (index : Nat) (choice : W.Choice)

/-- What a pass does: one step of its `Phase`. -/
inductive PassAct where
  /-- It begins, for a ticket. -/
  | begin (ticket : Nat)
  /-- It looks at the next id. -/
  | fetch
  /-- It decides about an entry, at a given time. -/
  | consider (now : Timestamp)
  /-- It reserves the bytes of an entry, so many nanoseconds after its start. -/
  | pace (elapsed : Nat)
  /-- Its sleep ends. -/
  | wake
  /-- It sees whether the table of the next mutation was truncated. -/
  | sort
  /-- It sees whether the pool is open for the next mutation. -/
  | offer
  /-- It puts a mutation into the queue. -/
  | insert
  /-- It wakes a worker. -/
  | rouse (worker : Option Nat)
  /-- It takes an acknowledgement. -/
  | collect
  /-- It finds that nobody is left to acknowledge. -/
  | abandon
  /-- The deadline of the entry passes. -/
  | expire (elapsedMillis : Nat)
  /-- It deletes an entry, unless the store is to fail. -/
  | delete (failure : Option StoreError)
  /-- It counts an attempt that failed. -/
  | countFailure
  /-- It breaks down. -/
  | panic (message : String)
  /-- It gives its result to the holders of its ticket and is gone. -/
  | retire

/-- What a client does, with what the store is to fail with. -/
inductive ClientAct where
  /-- Submits a batch. -/
  | submit (id : BatchId) (mutations : List Mutation) (written : Timestamp)
      (failure : Option StoreError)
  /-- Puts an entry into the store. -/
  | put (entry : Entry) (failure : Option StoreError)
  /-- Removes a batch. -/
  | remove (id : BatchId) (failure : Option StoreError)
  /-- Flushes the store. -/
  | flush (failure : Option StoreError)
  /-- Compacts the store. -/
  | compact (failure : Option StoreError)

/-- One act of somebody: all of a journal's concurrency is the order of these. -/
inductive Act (W : WritePath) where
  /-- A worker acts. -/
  | worker (act : WorkerAct W)
  /-- The pass acts. -/
  | pass (act : PassAct)
  /-- A client acts. -/
  | client (act : ClientAct)
  /-- Somebody uses the write path. -/
  | path (event : W.Event)
  /-- Passes and schedulers are started and ended. -/
  | control (move : Control.Move)
  /-- The shutdown closes the pool. -/
  | closePool
  /-- The shutdown drops what waits in the pool. -/
  | clearPool
  /-- The journal comes to its end and is opened again. -/
  | restart (directory : String) (ending : Journal.Ending)

namespace Journal

variable {W : WritePath}

/-! ### Workers -/

/-- The job that a worker is inside of, `running`. -/
def task? (g : Journal W) (w : Nat) : Option Task := g.pool.workers[w]?.bind Worker.running?

/-- **The write path is asked** for a delivery: `W.apply` with the given choice. -/
def applied (g : Journal W) (choice : W.Choice) (d : Delivery) : Outcome × Journal W :=
  let (outcome, path) := W.apply choice g.path d.mutation d.written
  (outcome, { g with path })

/-- An answer goes to the `mailbox` if it belongs to the latest attempt; the pass does not see
    others. -/
def delivered (g : Journal W) (d : Delivery) (r : Except WriteError Unit) : Journal W :=
  if d.attempt = g.attempts then { g with mailbox := g.mailbox ++ [r] } else g

/-- The job of a worker ends: the worker does its next step in the pool. -/
def endJob (g : Journal W) (w : Nat) : Option (Journal W) :=
  (g.pool.work w).map fun (p, _) => { g with pool := p }

/-- **A step of a worker;** `none` where it is not the worker's turn. -/
def workerStep (g : Journal W) : WorkerAct W → Option (Journal W)
  | .proceed w =>
    match g.task? w with
    | some _ => none
    | none => g.endJob w
  | .apply w choice =>
    match g.task? w with
    | some (.waiting d) =>
      match g.applied choice d with
      | (.answered r, g) => some { g with pool := g.pool.place w (.running (.answered d r)) }
      | (.brokeDown, g) => g.endJob w
    | _ => none
  | .report w =>
    match g.task? w with
    | some (.answered d r) => (g.delivered d r).endJob w
    | _ => none
  | .stray i choice =>
    match g.strays[i]? with
    | some d => some { (g.applied choice d).2 with strays := g.strays.eraseIdx i }
    | none => none

/-! ### The pass -/

/-- A job of the latest attempt is in the pool, `queued` or `running`. -/
def attended (g : Journal W) : Bool :=
  let current (t : Task) : Bool := t.delivery.attempt = g.attempts
  g.pool.queue.any current || g.pool.workers.any fun w => w.running?.any current

/-- The journal with its pass in another phase. -/
def passAt (g : Journal W) (p : Pass) (phase : Phase) : Journal W :=
  { g with pass := some { p with phase } }

/-- The pass comes to its end and is counted in `counters`. -/
def finish (g : Journal W) (p : Pass) (cancelled : Bool) : Journal W :=
  let report := { p.report with cancelled }
  { g with
    counters := { g.counters with passes := g.counters.passes + 1 }
    pass := some { p with report, phase := .finished (.ok report) } }

/-- The pass was asked to stop: its ticket is `cancelled`. -/
def stopRequested (g : Journal W) (p : Pass) : Bool := g.control.flight.cancelled p.ticket

/-- A pass begins over what is stored now, if none is under way. -/
def begin (g : Journal W) (ticket : Nat) : Option (Journal W) :=
  match g.control.flight.ticket? ticket with
  | none => none
  | some t =>
    if t.underway && g.pass.isNone then
      some
        { g with
          pass := some
            { ticket
              scan := g.store.scan
              report := { pass := t.number }
              throttle := g.settings.bytesPerSecond.map fun rate => .ofRate rate.toNat
              phase := .between } }
    else none

/-- **An entry comes up:** it is left alone if `stopRequested`, if it is too young, or if it cannot
    be decoded. -/
def consider (g : Journal W) (p : Pass) (e : Entry) (now : Timestamp) : Journal W :=
  -- The request to stop comes first: the entry does not even count as scanned.
  if g.stopRequested p then g.finish p true
  else
    let r := { p.report with scanned := p.report.scanned + 1 }
    if !e.eligible now g.settings.replayAge then
      g.passAt { p with report := { r with notYetEligible := r.notYetEligible + 1 } } .between
    else
      match g.registry.decode e.version e.payload with
      | .error _ =>
        { g with
          counters := { g.counters with decodeFailures := g.counters.decodeFailures + 1 }
        }.passAt { p with report := { r with decodeFailures := r.decodeFailures + 1 } } .between
      | .ok ms =>
        g.passAt { p with report := r }
          (if p.throttle.isSome then .pacing e ms else .sorting e ms [] 0)

/-- The pace is kept by `Throttle.acquire`: the pass goes on at once if the bytes are due, else
    after a sleep, `resting`. -/
def pace (g : Journal W) (p : Pass) (e : Entry) (ms : List Mutation) (elapsed : Nat) : Journal W :=
  match p.throttle with
  | none => g.passAt p (.sorting e ms [] 0)
  | some t =>
    let (wait, t) := t.acquire e.payload.length elapsed
    g.passAt { p with throttle := some t }
      (if wait = 0 then .sorting e ms [] 0 else .resting e ms)

/-- **A mutation is sorted out** if its table was truncated at the time of the batch or later. After
    the last one an attempt begins, with an empty `mailbox`. -/
def sort (g : Journal W) (p : Pass) (e : Entry) (rest live : List Mutation) (dropped : Nat) :
    Journal W :=
  match rest with
  | m :: rest =>
    if (W.truncatedAt g.path m.table).any fun at' => e.written ≤ at' then
      g.passAt p (.sorting e rest live (dropped + 1))
    else g.passAt p (.sorting e rest (live ++ [m]) dropped)
  | [] =>
    { g with attempts := g.attempts + 1, mailbox := [] }.passAt p (.offering e live 0 dropped)

/-- Where a pass goes from so many unacknowledged mutations: `deleting` if there are none. -/
def awaiting (e : Entry) (pending dropped : Nat) : Phase :=
  if pending = 0 then .deleting e dropped else .collecting e pending dropped

/-- The next mutation is offered to the pool, which may be `closed`. -/
def offer (g : Journal W) (p : Pass) (e : Entry) (rest : List Mutation) (pending dropped : Nat) :
    Journal W :=
  g.passAt p
    (match rest with
    | [] => awaiting e pending dropped
    | m :: rest =>
      if g.pool.closed then .failed e .backpressure else .inserting e m rest pending dropped)

/-- The next mutation is put into the queue by `Pool.push`, which may be full. -/
def insert (g : Journal W) (p : Pass) (e : Entry) (m : Mutation) (rest : List Mutation)
    (pending dropped : Nat) : Journal W :=
  match g.pool.push (.waiting ⟨g.attempts, m, e.written⟩) with
  | none => g.passAt p (.failed e .backpressure)
  | some pool => { g with pool }.passAt p (.rousing e rest (pending + 1) dropped)

/-- **An acknowledgement is taken** out of the `mailbox`; the first failure fails the entry. -/
def collect (g : Journal W) (p : Pass) (e : Entry) (pending dropped : Nat) : Option (Journal W) :=
  match g.mailbox with
  | [] => none
  | .ok () :: rest =>
    some ({ g with mailbox := rest }.passAt p (awaiting e (pending - 1) dropped))
  | .error err :: rest => some ({ g with mailbox := rest }.passAt p (.failed e (.apply err)))

/-- **An entry is deleted** after all of it was applied; `failure` leaves it stored. -/
def delete (g : Journal W) (p : Pass) (e : Entry) (dropped : Nat) (failure : Option StoreError) :
    Journal W :=
  match g.onStore failure (.delete e.id) with
  | (.ok (), g) =>
    { g with
      counters :=
        { g.counters with
          replayed := g.counters.replayed + 1
          truncatedSkipped := g.counters.truncatedSkipped + dropped }
    }.passAt
      { p with
        report :=
          { p.report with
            replayed := p.report.replayed + 1
            truncatedSkipped := p.report.truncatedSkipped + dropped
            bytesReplayed := p.report.bytesReplayed + e.payload.length } } .between
  | (.error _, g) =>
    g.passAt
      { p with report := { p.report with deleteFailures := p.report.deleteFailures + 1 } } .between

/-- A failed attempt is counted by the report; its entry stays. -/
def countFailure (g : Journal W) (p : Pass) : Journal W :=
  { g with
    counters := { g.counters with applyFailures := g.counters.applyFailures + 1 }
  }.passAt { p with report := { p.report with applyFailures := p.report.applyFailures + 1 } } .between

/-- **A step of the pass under way;** `none` where the act does not belong to its phase. -/
def passStep (g : Journal W) (p : Pass) : PassAct → Option (Journal W)
  | .fetch =>
    match p.phase with
    | .between =>
      match p.scan.visit g.entries with
      | none => some (g.finish p false)
      | some (none, scan) => some (g.passAt { p with scan } .between)
      | some (some e, scan) => some (g.passAt { p with scan } (.fetched e))
    | _ => none
  | .consider now =>
    match p.phase with
    | .fetched e => some (g.consider p e now)
    | _ => none
  | .pace elapsed =>
    match p.phase with
    | .pacing e ms => some (g.pace p e ms elapsed)
    | _ => none
  | .wake =>
    match p.phase with
    -- Stopped here, the entry counts as scanned and as nothing else.
    | .resting e ms =>
      some (if g.stopRequested p then g.finish p true else g.passAt p (.sorting e ms [] 0))
    | _ => none
  | .sort =>
    match p.phase with
    | .sorting e rest live dropped => some (g.sort p e rest live dropped)
    | _ => none
  | .offer =>
    match p.phase with
    | .offering e rest pending dropped => some (g.offer p e rest pending dropped)
    | _ => none
  | .insert =>
    match p.phase with
    | .inserting e m rest pending dropped => some (g.insert p e m rest pending dropped)
    | _ => none
  | .rouse worker =>
    match p.phase with
    | .rousing e rest pending dropped =>
      (g.pool.rouse worker).map fun pool =>
        { g with pool }.passAt p (.offering e rest pending dropped)
    | _ => none
  | .collect =>
    match p.phase with
    | .collecting e pending dropped => g.collect p e pending dropped
    | _ => none
  -- Answers that have come in are taken before the pass looks at who is left or at the time.
  | .abandon =>
    match p.phase with
    | .collecting e _ _ =>
      if g.mailbox.isEmpty && !g.attended then
        some (g.passAt p (.failed e .unacknowledged))
      else none
    | _ => none
  | .expire elapsed =>
    match p.phase with
    | .collecting e pending _ =>
      if g.mailbox.isEmpty && g.attended then
        some (g.passAt p (.failed e (.timeout elapsed pending)))
      else none
    | _ => none
  | .delete failure =>
    match p.phase with
    | .deleting e dropped => some (g.delete p e dropped failure)
    | _ => none
  | .countFailure =>
    match p.phase with
    | .failed _ _ => some (g.countFailure p)
    | _ => none
  | .panic message =>
    match p.phase with
    | .finished _ => none
    | _ => some (g.passAt p (.finished (.error (.panicked message))))
  | .retire =>
    match p.phase with
    | .finished r =>
      (g.control.step (.complete p.ticket r)).map fun control => { g with control, pass := none }
    | _ => none
  | .begin _ => none

/-! ### Everybody -/

/-- A step of a client, whatever the pass does. -/
def clientStep (g : Journal W) : ClientAct → Journal W
  | .submit id ms written failure => (g.submit id ms written failure).2
  | .put e failure => (g.put e failure).2
  | .remove id failure => (g.remove id failure).2
  | .flush failure => (g.flush failure).2
  | .compact failure => (g.onStore failure .compact).2

/-- A journal is `closed` between passes only; its process may die at any time. -/
def mayEnd (g : Journal W) : Ending → Bool
  | .closed => g.pass.isNone
  | _ => true

/-- **One act;** `none` where it is not possible. -/
def step (g : Journal W) : Act W → Option (Journal W)
  | .worker act => g.workerStep act
  | .pass (.begin ticket) => g.begin ticket
  | .pass act => g.pass.bind fun p => g.passStep p act
  | .client act => some (g.clientStep act)
  | .path event => some { g with path := W.occur event g.path }
  | .control (.complete _ _) => none
  | .control move => (g.control.step move).map fun control => { g with control }
  | .closePool => some { g with pool := g.pool.close }
  | .clearPool => if g.pool.closed then some { g with pool := g.pool.clear } else none
  | .restart directory ending =>
    if g.mayEnd ending then
      match g.restart directory ending with
      | .ok g' => some g'
      | .error _ => none
    else none

/-- A sequence of acts, each of them a `step` that is possible when its turn comes. -/
def run (g : Journal W) : List (Act W) → Option (Journal W)
  | [] => some g
  | a :: rest => (g.step a).bind (·.run rest)

end Journal

end BatchJournal
