import BatchJournal.Text.Figures

namespace BatchJournal

/-!
# Reports and counters

A pass counts what became of the entries it visited and gives the counts back as its `Report`; the
journal keeps `Counters` over all passes and submissions.  How long a pass took is not in its
report: time is nobody's to decide here, and nothing that a pass does later hangs on it.
-/

/-- What became of the entries of one pass, which visits each of them at most once. -/
structure Report where
  /-- The number of the pass, from 1. -/
  pass : Nat
  /-- Entries visited. -/
  scanned : Nat := 0
  /-- Entries too young for replay. -/
  notYetEligible : Nat := 0
  /-- Entries applied and deleted. -/
  replayed : Nat := 0
  /-- Entries whose payload could not be decoded. -/
  decodeFailures : Nat := 0
  /-- Entries that were not applied in full. -/
  applyFailures : Nat := 0
  /-- Entries applied in full and not deleted. -/
  deleteFailures : Nat := 0
  /-- Mutations of replayed entries left out because their table was truncated. -/
  truncatedSkipped : Nat := 0
  /-- Payload bytes of replayed entries. -/
  bytesReplayed : Nat := 0
  /-- The pass was cancelled before its end. -/
  cancelled : Bool := false
deriving DecidableEq, Repr

namespace Report

/-- Entries that were eligible and are still stored: those whose decoding, applying or deletion
    failed. -/
def retained (r : Report) : Nat := r.decodeFailures + r.applyFailures + r.deleteFailures

/-- The counts by name, in the order in which they are reported. -/
def figures (r : Report) : List (String × Nat) := [
  ("pass", r.pass),
  ("scanned", r.scanned),
  ("not_yet_eligible", r.notYetEligible),
  ("replayed", r.replayed),
  ("decode_failures", r.decodeFailures),
  ("apply_failures", r.applyFailures),
  ("delete_failures", r.deleteFailures),
  ("truncated_skipped", r.truncatedSkipped),
  ("bytes_replayed", r.bytesReplayed),
  ("retained", r.retained)]

end Report

/-- Totals since the journal was opened, over all passes. -/
structure Counters where
  /-- Batches submitted. -/
  seen : Nat := 0
  /-- Batches applied and deleted. -/
  replayed : Nat := 0
  /-- Passes that came to their end. -/
  passes : Nat := 0
  /-- Entries whose payload could not be decoded, once for each pass. -/
  decodeFailures : Nat := 0
  /-- Entries that were not applied in full, once for each pass. -/
  applyFailures : Nat := 0
  /-- Mutations left out because their table was truncated. -/
  truncatedSkipped : Nat := 0
deriving DecidableEq, Repr

namespace Counters

/-- The totals by name, after the number of entries that are stored, `pending`. -/
def figures (c : Counters) (pending : Nat) : List (String × Nat) := [
  ("pending", pending),
  ("all_batches_seen", c.seen),
  ("batches_replayed", c.replayed),
  ("replay_passes", c.passes),
  ("decode_failures", c.decodeFailures),
  ("apply_failures", c.applyFailures),
  ("truncated_skipped", c.truncatedSkipped)]

/-- A description of the totals and of how many entries are stored, by `figures`. -/
def description (c : Counters) (pending : Nat) : String :=
  Figures.description "BatchlogMetrics" (c.figures pending)

end Counters

end BatchJournal
