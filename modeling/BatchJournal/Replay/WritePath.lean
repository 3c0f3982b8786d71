import BatchJournal.Replica.Table

namespace BatchJournal

/-!
# Write paths

The journal hands mutations to a write path and asks it when a table was last truncated; it knows
nothing else of it.  `WritePath` is what any write path amounts to, `replicaPath` is a replica
that may refuse a delivery or break down in it.
-/

/-- How the delivery of a mutation ended: with an answer or a breakdown. -/
inductive Outcome where
  /-- The write path answered. -/
  | answered (result : Except WriteError Unit)
  /-- It broke down without an answer. -/
  | brokeDown

/-- A write path: what answers deliveries, and tells when a table was truncated. -/
structure WritePath where
  /-- What it keeps. -/
  State : Type
  /-- What its answer hangs on besides. -/
  Choice : Type
  /-- What others do to it. -/
  Event : Type
  /-- The delivery of one mutation at a given time. -/
  apply : Choice → State → Mutation → Timestamp → Outcome × State
  /-- The time of the last truncation of a table. -/
  truncatedAt : State → TableName → Option Timestamp
  /-- What others do to it. -/
  occur : Event → State → State

/-- What may keep a mutation from being delivered, in place of an answer of the replica. -/
inductive Mishap where
  /-- The delivery is refused. -/
  | refuse (error : WriteError)
  /-- The delivery breaks down. -/
  | breakDown
deriving DecidableEq, Repr

/-- What others do to a replica, past the journal. -/
inductive ReplicaEvent where
  /-- A table is created. -/
  | createTable (table : TableName)
  /-- A table is truncated. -/
  | truncate (table : TableName) (at' : Timestamp)
  /-- A mutation is delivered past the journal. -/
  | deliver (mutation : Mutation) (written : Timestamp)
deriving DecidableEq, Repr

namespace Replica

/-- A replica after an event; one that it refuses changes nothing. -/
def occur (r : Replica) : ReplicaEvent → Replica
  | .createTable t => r.createTable t
  | .truncate t at' =>
    match r.truncate t at' with
    | .ok r' => r'
    | .error _ => r
  | .deliver m written =>
    match r.apply m written with
    | .ok r' => r'
    | .error _ => r

/-- Delivery with a mishap, if there is one; else the answer of `Replica.apply`. -/
def deliver (r : Replica) (m : Mutation) (written : Timestamp) : Option Mishap → Outcome × Replica
  | some (.refuse e) => (.answered (.error e), r)
  | some .breakDown => (.brokeDown, r)
  | none =>
    match r.apply m written with
    | .ok r' => (.answered (.ok ()), r')
    | .error e => (.answered (.error e), r)

end Replica

/-- A `Replica` as a write path; its answer hangs on the mishap alone. -/
def replicaPath : WritePath where
  State := Replica
  Choice := Option Mishap
  Event := ReplicaEvent
  apply mishap r m written := r.deliver m written mishap
  truncatedAt := Replica.truncatedAt
  occur event r := r.occur event

end BatchJournal
