import BatchJournal.Time.Duration

namespace BatchJournal

/-!
# A scheduler by itself

A scheduler that does nothing but count its ticks, one for each interval while it runs.  Whoever
waits for ticks, or watches that none come, does so for a given time.
-/

/-- A scheduler that counts its ticks, one after every `interval`. -/
structure Ticker where
  /-- The time between two ticks. -/
  interval : Duration
  /-- It was not shut down. -/
  running : Bool
  /-- The ticks seen so far. -/
  ticks : Nat
deriving DecidableEq, Repr

namespace Ticker

/-- A scheduler that has just started: no tick was seen. -/
def start (interval : Duration) : Ticker := ⟨interval, true, 0⟩

/-- How long somebody waits for ticks before giving up. -/
def patience : Duration := .ofMillis 10000

/-- Waits for a number of ticks: whether they came within `patience`. -/
def await (t : Ticker) (n : Nat) : Bool × Ticker :=
  if n ≤ t.ticks then (true, t)
  else if t.running && decide ((n - t.ticks) * t.interval.totalNanos ≤ patience.totalNanos) then
    (true, { t with ticks := n })
  else (false, t)

/-- No tick comes within a given time: the scheduler is not `running`, or its interval is longer. -/
def stays (t : Ticker) (time : Duration) : Bool := !t.running || !(decide (t.interval ≤ time))

/-- Shuts the scheduler down; no tick comes after that, for it is not `running`. -/
def shutDown (t : Ticker) : Ticker := { t with running := false }

/-- A description. -/
def description (t : Ticker) : String :=
  "ReplayScheduler \x7b interval: " ++ t.interval.text ++ ", running: " ++ toString t.running
    ++ " \x7d"

end Ticker

end BatchJournal
