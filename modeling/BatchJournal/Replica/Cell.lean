import BatchJournal.Time.Timestamp
import BatchJournal.Bytes.Basic

namespace BatchJournal

/-!
# Cells

A cell is a value, or the mark of a deletion, with the time it was written at.  Of two cells for
one slot the one that *supersedes* the other stays: the newer; at one time a deletion before any
value; of two values at one time the greater in byte order.  The rule is a strict total order on
cells, so the order of arrival does not matter.
-/

/-- What one write left in a slot. -/
structure Cell where
  /-- The time of the write. -/
  written : Timestamp
  /-- The value; nothing marks a deletion. -/
  value : Option Bytes
deriving DecidableEq, Repr

namespace Cell

/-- The cell marks a deletion. -/
def tombstone (c : Cell) : Bool := c.value.isNone

/-- **Who stays.** The candidate takes the place of the existing cell. -/
def supersedes (candidate existing : Cell) : Bool :=
  if existing.written < candidate.written then true
  else if candidate.written < existing.written then false
  else
    match candidate.value, existing.value with
    | none, some _ => true
    | some _, none => false
    | none, none => false
    | some new, some old => old < new

end Cell

end BatchJournal
