import BatchJournal.Journal.Flight

namespace BatchJournal

/-!
# Starting and ending a journal

A journal may run replay passes at intervals: a scheduler sleeps, asks for a pass, waits for it and
sleeps again.  It is installed by a call that looks whether the journal is shut down and then fills
the place of the scheduler; the shutdown marks the journal, stops and awaits the pass under way,
and then takes the scheduler out of its place and awaits its end, with the place locked until then.
Calls of both kinds may run at the same time: `Control.step` lets one of them, or the scheduler, do
its next step.
-/

/-- Where a scheduler stands between one pass and the next. -/
inductive Beat where
  /-- It sleeps for the interval. -/
  | sleeping
  /-- The interval is over; it has to ask for a pass. -/
  | due
  /-- It waits for the pass of a ticket. -/
  | waiting (ticket : Nat)
  /-- It has ended. -/
  | ended
deriving DecidableEq, Repr

/-- A scheduler: a thread that asks for a pass after every interval. -/
structure Scheduler where
  /-- It was told to end. -/
  stopping : Bool
  /-- Where it stands. -/
  beat : Beat
deriving DecidableEq, Repr

/-- Where a caller stands that installs a scheduler or shuts the journal down: from `checking` to
    `installed`, from `marking` to the end. -/
inductive Controller where
  /-- It installs a scheduler and has to see whether the journal is shut down. -/
  | checking
  /-- It has to fill the place of the scheduler. -/
  | installing
  /-- It found the journal open, or not. -/
  | installed (accepted : Bool)
  /-- No thread could be started for its scheduler. -/
  | unscheduled (reason : String)
  /-- It has to mark the journal as shut down. -/
  | marking
  /-- It has to take the latest ticket. -/
  | boarding
  /-- It waits for the pass of a ticket. -/
  | awaiting (ticket : Nat)
  /-- It has to take the scheduler out of its place. -/
  | removing
  /-- It waits for the end of a scheduler. -/
  | joining (scheduler : Nat)
  /-- The workers have to be stopped and the store flushed. -/
  | releasing
  /-- The journal is shut down; `first` tells that this caller did it. -/
  | shut (first : Bool)
deriving DecidableEq, Repr

/-- It keeps the place of the scheduler locked: the shutdown does while it is `joining`. -/
def Controller.locks : Controller → Bool
  | .joining _ => true
  | _ => false

/-- What starts and ends passes and schedulers. -/
structure Control where
  /-- The tickets for passes. -/
  flight : Flight
  /-- Every scheduler there was. -/
  schedulers : List Scheduler
  /-- The place of the scheduler. -/
  place : Option Nat
  /-- The callers, in order of their coming. -/
  callers : List Controller

/-- One step of somebody: of a caller, a scheduler, or a pass that ends. -/
inductive Control.Move where
  /-- A caller asks for a pass. -/
  | board (obstacle : Option String)
  /-- The holder of a ticket asks its pass to stop. -/
  | cancel (ticket : Nat)
  /-- The pass of a ticket ends. -/
  | complete (ticket : Nat) (result : PassResult)
  /-- A caller comes to install a scheduler. -/
  | install
  /-- A caller comes to shut the journal down. -/
  | shutDown
  /-- A caller does its next step. -/
  | advance (caller : Nat)
  /-- No thread can be started for the scheduler that a caller has to install. -/
  | thwart (caller : Nat) (reason : String)
  /-- A scheduler does its next step. -/
  | beat (scheduler : Nat) (obstacle : Option String)

namespace Control

/-- Nothing was started yet: no ticket, no scheduler, no caller. -/
def fresh : Control := ⟨.fresh, [], none, []⟩

/-- The journal was shut down: `c.flight.closed`. -/
def closed (c : Control) : Bool := c.flight.closed

/-- A scheduler is in its place and not `stopping`. -/
def scheduled (c : Control) : Bool :=
  (c.place.bind (c.schedulers[·]?)).any fun s => !s.stopping

/-- The pass of a ticket is over: the ticket is `finished`. -/
def ticketDone (c : Control) (i : Nat) : Bool := (c.flight.ticket? i).any Ticket.finished

/-- The control with caller `i` in another place. -/
def move (c : Control) (i : Nat) (caller : Controller) : Control :=
  { c with callers := c.callers.set i caller }

/-- The control with scheduler `k` changed. -/
def reset (c : Control) (k : Nat) (s : Scheduler) : Control :=
  { c with schedulers := c.schedulers.set k s }

/-- The place of the scheduler is locked by some caller that `locks` it. -/
def locked (c : Control) : Bool := c.callers.any Controller.locks

/-- **The next step of a caller.** One that waits has none, so `none`, until what it waits for has
    happened. -/
def advance (c : Control) (i : Nat) : Option Control :=
  match c.callers[i]? with
  | some .checking => some (c.move i (if c.closed then .installed false else .installing))
  -- Whether the journal was shut down since the check is not looked at again.
  | some .installing =>
    if c.locked then none
    else
      match c.place with
      | some _ => some (c.move i (.installed true))
      | none => some
          { c.move i (.installed true) with
            schedulers := c.schedulers ++ [⟨false, .sleeping⟩], place := some c.schedulers.length }
  -- Only the first who marks the journal goes on to end it.
  | some .marking =>
    if c.closed then some (c.move i (.shut false))
    else some { c.move i .boarding with flight := c.flight.close }
  | some .boarding =>
    match c.flight.slot with
    | none => some (c.move i .removing)
    | some t => some { c.move i (.awaiting t) with flight := c.flight.cancel t }
  | some (.awaiting t) => if c.ticketDone t then some (c.move i .removing) else none
  | some .removing =>
    match c.place with
    | none => some (c.move i .releasing)
    | some k => some
        { c.move i (.joining k) with
          place := none
          schedulers := c.schedulers.modify k fun s => { s with stopping := true } }
  | some (.joining k) =>
    if (c.schedulers[k]?).any fun s => s.beat = .ended then some (c.move i .releasing) else none
  | some .releasing => some (c.move i (.shut true))
  | some (.installed _) | some (.unscheduled _) | some (.shut _) | none => none

/-- **A caller that cannot start its scheduler** says so and is `unscheduled`; the place stays
    empty. -/
def thwart (c : Control) (i : Nat) (reason : String) : Option Control :=
  match c.callers[i]?, c.place with
  | some .installing, none => if c.locked then none else some (c.move i (.unscheduled reason))
  | _, _ => none

/-- **The next step of a scheduler.** Once it is `stopping`, it ends when it would sleep or has
    slept. -/
def beat (c : Control) (k : Nat) (obstacle : Option String) : Option Control :=
  match c.schedulers[k]? with
  | some ⟨stopping, .sleeping⟩ =>
    some (c.reset k ⟨stopping, if stopping then .ended else .due⟩)
  -- Once the interval is over it asks for a pass even when it was told to end meanwhile.
  | some ⟨stopping, .due⟩ =>
    let (t, _, f) := c.flight.start obstacle
    some { c.reset k ⟨stopping, .waiting t⟩ with flight := f }
  | some ⟨stopping, .waiting t⟩ =>
    if c.ticketDone t then some (c.reset k ⟨stopping, .sleeping⟩) else none
  | some ⟨_, .ended⟩ | none => none

/-- The pass of a ticket is under way: neither over nor without a thread. -/
def underway (c : Control) (i : Nat) : Bool := (c.flight.ticket? i).any Ticket.underway

/-- **One step;** `none` where the move is not possible. -/
def step (c : Control) : Move → Option Control
  | .board obstacle => some { c with flight := (c.flight.start obstacle).2.2 }
  | .cancel t => some { c with flight := c.flight.cancel t }
  | .complete t r => if c.underway t then some { c with flight := c.flight.complete t r } else none
  | .install => some { c with callers := c.callers ++ [.checking] }
  | .shutDown => some { c with callers := c.callers ++ [.marking] }
  | .advance i => c.advance i
  | .thwart i reason => c.thwart i reason
  | .beat k obstacle => c.beat k obstacle

end Control

end BatchJournal
