import BatchJournal.Time.Duration

namespace BatchJournal

/-!
# Cancellation

A request to stop that is made once and never taken back.  Whoever is to stop looks at it between
two pieces of work, and a sleep ends early when it is made.
-/

/-- Whether somebody was asked to stop. -/
structure Cancellation where
  /-- The request was made. -/
  requested : Bool
deriving DecidableEq, Repr, Inhabited

namespace Cancellation

/-- Nobody asked yet. -/
def fresh : Cancellation := ⟨false⟩

/-- Makes the request. -/
def request (_ : Cancellation) : Cancellation := ⟨true⟩

/-- What a sleep answers when it ends: whether the request was made by then. -/
def sleep (c : Cancellation) : Bool := c.requested

/-- What a sleep of a given length answers while the request is going to be made after `delay`, and
    the state after both. -/
def sleepBefore (c : Cancellation) (length delay : Duration) : Bool × Cancellation :=
  (c.requested || !(decide (length ≤ delay)), c.request)

end Cancellation

end BatchJournal
