import BatchJournal.Replay.Cancellation
import BatchJournal.Replay.Error
import BatchJournal.Replay.Report

namespace BatchJournal

/-!
# One pass at a time

Whoever wants a replay pass gets a ticket.  While the pass of the latest ticket is not over, every
caller gets that ticket; after it a new pass with the next number is started, and after the
shutdown there is only a ticket that says so.  All holders of a ticket see the one result of its
pass.

* `Flight.start` — asks for a pass.
* `Flight.complete` — the end of a pass; only the first result counts.
* `Flight.cancel`, `Flight.close` — the request to stop, and the end of all starting.
-/

/-- What a pass ends with: its report, or an error. -/
abbrev PassResult := Except ReplayError Report

instance : DecidableEq PassResult
  | .ok r, .ok r' => decidable_of_iff (r = r') (by simp)
  | .error e, .error e' => decidable_of_iff (e = e') (by simp)
  | .ok _, .error _ => isFalse (by simp)
  | .error _, .ok _ => isFalse (by simp)

/-- What all holders of a ticket see of its pass. -/
structure Ticket where
  /-- The number of the pass. -/
  number : Nat
  /-- The request to stop. -/
  cancellation : Cancellation
  /-- The result, once there is one. -/
  result : Option PassResult
  /-- A thread was started for the pass. -/
  spawned : Bool

namespace Ticket

/-- The pass is over: there is a `result`. -/
def finished (t : Ticket) : Bool := t.result.isSome

/-- The pass has begun and is not over: `spawned` and not `finished`. -/
def underway (t : Ticket) : Bool := t.spawned && !t.finished

end Ticket

/-- The tickets of a journal, of which `slot` is the latest. -/
structure Flight where
  /-- All tickets, in the order they were made; callers hold positions in this list. -/
  tickets : List Ticket
  /-- The ticket of the latest pass. -/
  slot : Option Nat
  /-- How many numbers were given out. -/
  given : Nat
  /-- The journal was shut down. -/
  closed : Bool

namespace Flight

/-- No pass was asked for yet: there are no tickets. -/
def fresh : Flight := ⟨[], none, 0, false⟩

/-- The ticket at a position, or `none`. -/
def ticket? (f : Flight) (i : Nat) : Option Ticket := f.tickets[i]?

/-- The latest ticket if its pass is not `finished`. -/
def joinable (f : Flight) : Option Nat :=
  f.slot.filter fun i => (f.ticket? i).any fun t => !t.finished

/-- The flight with one more ticket, whose number is `given` then. -/
def issue (f : Flight) (t : Ticket) : Flight :=
  { f with tickets := f.tickets ++ [t], given := f.given + 1 }

/-- **Asks for a pass:** the ticket, whether a pass has to be run for it, and the flight.
    `obstacle` tells why no thread can be started, if that is so. -/
def start (f : Flight) (obstacle : Option String) : Nat × Bool × Flight :=
  match f.joinable with
  | some i => (i, false, f)
  | none =>
    let i := f.tickets.length
    let number := f.given + 1
    if f.closed then (i, false, f.issue ⟨number, .fresh, some (.error .shutDown), false⟩)
    else
      match obstacle with
      | some reason =>
        (i, false, { f.issue ⟨number, .fresh, some (.error (.spawn reason)), false⟩ with slot := some i })
      | none => (i, true, { f.issue ⟨number, .fresh, none, true⟩ with slot := some i })

/-- The flight with the ticket `i` changed. -/
def update (f : Flight) (i : Nat) (change : Ticket → Ticket) : Flight :=
  { f with tickets := f.tickets.modify i change }

/-- **A pass ends.** A ticket that has a `result` keeps it. -/
def complete (f : Flight) (i : Nat) (r : PassResult) : Flight :=
  f.update i fun t => { t with result := t.result.or (some r) }

/-- Asks the pass of a ticket to stop, by its `cancellation`. -/
def cancel (f : Flight) (i : Nat) : Flight :=
  f.update i fun t => { t with cancellation := t.cancellation.request }

/-- The pass of a ticket was asked to stop by its `cancellation`. -/
def cancelled (f : Flight) (i : Nat) : Bool :=
  (f.ticket? i).any fun t => t.cancellation.requested

/-- From now on no pass is started: the flight is `closed`. -/
def close (f : Flight) : Flight := { f with closed := true }

end Flight

end BatchJournal
