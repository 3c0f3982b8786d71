import BatchJournal.Replay.Error
import BatchJournal.Replay.Report
import BatchJournal.Replay.Throttle
import BatchJournal.Store.Scan

namespace BatchJournal

/-!
# A replay pass

A pass visits the ids that were stored when it began, once each and in order.  An entry that is old
enough and decodes is applied: its mutations, less those of truncated tables, go to the pool of
workers, and when all of them are acknowledged the entry is deleted.  Whatever fails stays stored
for a later pass.

`Phase` says where a pass stands, with what it has in hand there.
-/

/-- One mutation on its way to the replica, with the attempt that its answer counts for. -/
structure Delivery where
  /-- The attempt it belongs to. -/
  attempt : Nat
  /-- The mutation. -/
  mutation : Mutation
  /-- The time to apply it at. -/
  written : Timestamp

/-- A job of the pool: a delivery before and after the write path has answered, `waiting` or
    `answered`. -/
inductive Task where
  /-- The write path was not asked yet. -/
  | waiting (delivery : Delivery)
  /-- The write path has answered; the pass does not know yet. -/
  | answered (delivery : Delivery) (result : Except WriteError Unit)

/-- The delivery of a job, answered or not. -/
def Task.delivery : Task → Delivery
  | .waiting d | .answered d _ => d

/-- Where a pass stands: an entry goes from `fetched` to `deleting`, and the pass back to
    `between`. -/
inductive Phase where
  /-- It is about to look at the next id. -/
  | between
  /-- It holds an entry and has to see whether it was cancelled. -/
  | fetched (entry : Entry)
  /-- The entry is eligible and decoded; the pace has to be kept. -/
  | pacing (entry : Entry) (mutations : List Mutation)
  /-- It sleeps to keep the pace. -/
  | resting (entry : Entry) (mutations : List Mutation)
  /-- It sorts out the mutations of truncated tables: those to be seen, those kept, and how many
      were left out. -/
  | sorting (entry : Entry) (rest live : List Mutation) (dropped : Nat)
  /-- It hands the rest of the mutations to the pool; `pending` of them are there. -/
  | offering (entry : Entry) (rest : List Mutation) (pending dropped : Nat)
  /-- It found the pool open for the next mutation. -/
  | inserting (entry : Entry) (next : Mutation) (rest : List Mutation) (pending dropped : Nat)
  /-- The mutation is in the queue; a worker has to be woken. -/
  | rousing (entry : Entry) (rest : List Mutation) (pending dropped : Nat)
  /-- It waits for acknowledgements. -/
  | collecting (entry : Entry) (pending dropped : Nat)
  /-- Every mutation was acknowledged; the entry has to be deleted. -/
  | deleting (entry : Entry) (dropped : Nat)
  /-- The attempt has failed. -/
  | failed (entry : Entry) (reason : ReplayError)
  /-- The pass is over. -/
  | finished (result : Except ReplayError Report)

/-- The pass is `resting`. -/
def Phase.isResting : Phase → Bool
  | .resting _ _ => true
  | _ => false

/-- A pass under way, from its beginning for a ticket until it is `finished` and retired. -/
structure Pass where
  /-- The ticket that its callers hold. -/
  ticket : Nat
  /-- The ids still to be visited. -/
  scan : Scan
  /-- What was counted so far. -/
  report : Report
  /-- The pace, if the pass is held to one. -/
  throttle : Option Throttle
  /-- Where it stands. -/
  phase : Phase

end BatchJournal
