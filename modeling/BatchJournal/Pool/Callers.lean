import BatchJournal.Pool.Basic

namespace BatchJournal

/-!
# A pool and its callers

Any number of threads use a pool at the same time: they submit jobs, wait until the pool is idle,
or shut it down.  A caller is a place inside one of these operations, and `Shared.step` lets a
worker or a caller do its next step, chosen freely: every interleaving is a sequence of moves.

A caller that waits for the pool has no step until a worker wakes it; where the wait has a deadline
the move `expire` ends it.
-/

/-- Where a caller stands inside `submit`, `drain` or `shutDown`. -/
inductive Caller (J : Type) where
  /-- It submits a job and has to see whether the pool is closed. -/
  | submitting (job : J)
  /-- It found the pool open and has to put the job in. -/
  | inserting (job : J)
  /-- The job is in; a worker has to be woken. -/
  | rousing
  /-- The job was taken or not. -/
  | submitted (accepted : Bool)
  /-- It has to see whether the pool is idle, as a part of shutting it down or for itself. -/
  | draining (ending : Bool)
  /-- It waits for the pool to become idle, with a deadline. -/
  | awaitingIdle (ending : Bool)
  /-- The wait is over. -/
  | drained (idle : Bool)
  /-- It shuts the pool down and has to see whether that was done before. -/
  | ending
  /-- It has to close the pool. -/
  | closing
  /-- It has to drop what waits in the queue. -/
  | clearing
  /-- It waits, without a deadline, until only workers inside a job are left. -/
  | awaitingExits
  /-- It was woken from that wait. -/
  | checkingExits
  /-- It waits for the workers inside a job, with a deadline. -/
  | awaitingJobs
  /-- It was woken from that wait. -/
  | checkingJobs
  /-- It has to take over the workers. -/
  | taking
  /-- It sees which workers have left; `detached` of those seen had not. -/
  | inspecting (workers : List Nat) (detached : Nat)
  /-- The pool is shut down. -/
  | ended (detached : Nat)
deriving DecidableEq, Repr

namespace Caller

variable {J : Type}

/-- A caller that waits for the pool is woken: it looks again at what it waits for. -/
def wake : Caller J → Caller J
  | .awaitingIdle e => .draining e
  | .awaitingExits => .checkingExits
  | .awaitingJobs => .checkingJobs
  | c => c

/-- The deadline of a wait passes; `none` for a wait that has no deadline. -/
def expire : Caller J → Option (Caller J)
  | .awaitingIdle true => some .closing
  | .awaitingIdle false => some (.drained false)
  | .awaitingJobs => some .taking
  | _ => none

/-- Where a caller goes that finds the pool idle: on with the shutdown if it is `ending`. -/
def onIdle (ending : Bool) : Caller J := if ending then .closing else .drained true

/-- The second wait of a shutdown, as the pool is found: for the workers inside a job. -/
def afterExits (p : Pool J) : Caller J := if 0 < p.remaining then .awaitingJobs else .taking

/-- The first wait of a shutdown, as the pool is found: until `active` workers are the only ones
    left. -/
def afterClear (p : Pool J) : Caller J :=
  if p.active < p.remaining then .awaitingExits else afterExits p

end Caller

/-- What a caller asks of a pool: one of its three operations. -/
inductive Request (J : Type) where
  /-- To run a job. -/
  | submit (job : J)
  /-- To wait until it is idle. -/
  | drain
  /-- To end. -/
  | shutDown
deriving DecidableEq, Repr

/-- The first place inside an operation, before its first step. -/
def Request.caller {J : Type} : Request J → Caller J
  | .submit job => .submitting job
  | .drain => .draining false
  | .shutDown => .ending

/-- A pool with everybody inside its operations: workers and `callers`. -/
structure Shared (J : Type) where
  /-- The pool. -/
  pool : Pool J
  /-- The callers, in order of their coming. -/
  callers : List (Caller J)
  /-- The workers that no shutdown has taken over. -/
  owned : List Nat
deriving Repr

/-- One step of somebody: the order of these is all of a pool's concurrency. -/
inductive Move (J : Type) where
  /-- A worker does its next step. -/
  | work (worker : Nat)
  /-- A new caller comes. -/
  | enter (request : Request J)
  /-- A caller does its next step. -/
  | advance (caller : Nat)
  /-- A caller wakes a worker for its job. -/
  | rouse (caller : Nat) (worker : Option Nat)
  /-- The deadline of a caller passes. -/
  | expire (caller : Nat)
deriving DecidableEq, Repr

namespace Shared

variable {J : Type}

/-- A pool that has just started: nobody has called yet. -/
def start (J : Type) (workers capacity : Nat) : Shared J :=
  ⟨.start J workers capacity, [], List.range workers⟩

/-- The state with caller `i` in another place. -/
def move (s : Shared J) (i : Nat) (caller : Caller J) : Shared J :=
  { s with callers := s.callers.set i caller }

/-- The state after a step of a worker, which wakes the callers if `wakes`. -/
def worked (s : Shared J) (p : Pool J) (wakes : Bool) : Shared J :=
  { s with pool := p, callers := if wakes then s.callers.map Caller.wake else s.callers }

/-- The worker `w` has left: `Worker.exited`. -/
def exited (s : Shared J) (w : Nat) : Bool := s.pool.workers[w]?.any Worker.hasExited

/-- **The next step of a caller.** One that waits has none, and one that has to wake a worker does
    that by `Move.rouse`. -/
def advance (s : Shared J) (i : Nat) : Option (Shared J) :=
  match s.callers[i]? with
  -- The flag is seen without the lock, so the pool may close before the job is put in.
  | some (.submitting job) =>
    some (s.move i (if s.pool.closed then .submitted false else .inserting job))
  | some (.inserting job) =>
    match s.pool.push job with
    | none => some (s.move i (.submitted false))
    | some p => some { s.move i .rousing with pool := p }
  | some (.draining ending) =>
    some (s.move i
      (if s.pool.depth = 0 ∧ s.pool.active = 0 then .onIdle ending else .awaitingIdle ending))
  -- A pool that is closed already is not drained again.
  | some .ending => some (s.move i (if s.pool.closed then .closing else .draining true))
  | some .closing => some { s.move i .clearing with pool := s.pool.close }
  | some .clearing => some { s.move i (.afterClear s.pool.clear) with pool := s.pool.clear }
  | some .checkingExits => some (s.move i (.afterClear s.pool))
  | some .checkingJobs => some (s.move i (.afterExits s.pool))
  | some .taking => some { s.move i (.inspecting s.owned 0) with owned := [] }
  | some (.inspecting (w :: rest) n) =>
    some (s.move i (.inspecting rest (if s.exited w then n else n + 1)))
  | some (.inspecting [] n) => some (s.move i (.ended n))
  | some .rousing | some (.submitted _) | some (.awaitingIdle _) | some (.drained _)
  | some .awaitingExits | some .awaitingJobs | some (.ended _) | none => none

/-- **One step** of the pool and its callers; `none` where the move is not possible. -/
def step (s : Shared J) : Move J → Option (Shared J)
  | .work w => (s.pool.work w).map fun (p, wakes) => s.worked p wakes
  | .enter r => some { s with callers := s.callers ++ [r.caller] }
  | .advance i => s.advance i
  | .rouse i w =>
    match s.callers[i]? with
    | some .rousing => (s.pool.rouse w).map fun p => { s.move i (.submitted true) with pool := p }
    | _ => none
  | .expire i => (s.callers[i]?.bind Caller.expire).map (s.move i)

end Shared

end BatchJournal
