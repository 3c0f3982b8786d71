import BatchJournal.Decimal.Binary64

namespace BatchJournal

/-!
# Pacing by bytes

A pass may be held to a number of payload bytes per second.  Its first entry goes through at once;
every later one waits until the bytes before it fit the rate.
-/

/-- The pace of a pass: a bound on the bytes of the entries that it applies in a second. -/
structure Throttle where
  /-- Bytes per second. -/
  rate : Nat
  /-- Bytes let through so far. -/
  consumed : Nat
deriving DecidableEq, Repr

namespace Throttle

/-- A pace that has let nothing through yet; a rate of `0` counts as `1`. -/
def ofRate (rate : Nat) : Throttle := ⟨max rate 1, 0⟩

/-- A number of seconds in nanoseconds, the nearest whole one of `seconds * 10 ^ 9`. -/
def nanos (seconds : Binary64) : Nat :=
  match seconds.value with
  | .finite _ m e =>
    if 0 ≤ e then (m <<< e.toNat) * 1000000000
    else Binary64.roundDiv (m * 1000000000) (1 <<< (-e).toNat)
  | _ => 0

/-- How long after its start the pass may use further bytes, in nanoseconds: `consumed` at the
    `rate`. -/
def due (t : Throttle) : Nat := nanos (.ofCounts t.consumed t.rate)

/-- **Reserves bytes** when `elapsed` nanoseconds are over: how long to wait before they are
    used. -/
def acquire (t : Throttle) (bytes elapsed : Nat) : Nat × Throttle :=
  (t.due - elapsed, { t with consumed := t.consumed + bytes })

end Throttle

end BatchJournal
