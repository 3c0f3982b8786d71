import BatchJournal.Rehearsal.Gate
import BatchJournal.Replay.WritePath
import BatchJournal.Store.Error

namespace BatchJournal

/-!
# A replica behind a gate

For a rehearsal the replica stands behind a gate, it can be told to refuse or to break down, for all
tables or for one, and it notes the calls it answered.  A store in memory can be told to fail too.
-/

/-- A call that was answered, as it is noted. -/
structure Call where
  /-- The table. -/
  table : TableName
  /-- The key of the partition. -/
  key : Bytes
  /-- The time of the mutation. -/
  written : Timestamp
  /-- The mutation was applied. -/
  succeeded : Bool
deriving DecidableEq, Repr

/-- A replica behind a gate, where mishaps befall deliveries. -/
structure GatedReplica where
  /-- The replica. -/
  replica : Replica
  /-- What befalls deliveries. -/
  mishap : Option Mishap
  /-- The only table that it befalls, if it is not all of them. -/
  only : Option TableName
  /-- The gate. -/
  gate : Gate
  /-- The calls answered since they were last asked for. -/
  calls : List Call

namespace GatedReplica

/-- An empty replica behind an open gate: `Gate.fresh`. -/
def fresh : GatedReplica := ⟨.empty, none, none, .fresh, []⟩

/-- What befalls a delivery to a table: the `mishap`, unless `only` names another one. -/
def mishapFor (g : GatedReplica) (t : TableName) : Option Mishap :=
  if g.only.all (· = t) then g.mishap else none

/-- **A call goes through the gate** and is noted in `calls` unless it breaks down. -/
def deliver (g : GatedReplica) (caller : GateCaller) (m : Mutation) (written : Timestamp) :
    Outcome × GatedReplica :=
  let (outcome, replica) := g.replica.deliver m written (g.mishapFor m.table)
  let g := { g with replica, gate := g.gate.leave caller }
  match outcome with
  | .brokeDown => (.brokeDown, g)
  | .answered r =>
    (.answered r, { g with calls := g.calls ++ [⟨m.table, m.key, written, r.isOk⟩] })

end GatedReplica

/-- A `GatedReplica` as a write path; its answer hangs on who calls. -/
def gatedPath : WritePath where
  State := GatedReplica
  Choice := GateCaller
  Event := GatedReplica → GatedReplica
  apply caller g m written := g.deliver caller m written
  truncatedAt g t := g.replica.truncatedAt t
  occur event g := event g

/-- How a store is to fail: with an error or a breakdown. -/
inductive StoreFault where
  /-- With an error. -/
  | fail (error : StoreError)
  /-- By a breakdown of its caller. -/
  | panic (message : String)
deriving DecidableEq, Repr

/-- The error of a fault; a `panic` of a client has none. -/
def StoreFault.error? : StoreFault → Option StoreError
  | .fail e => some e
  | .panic _ => none

/-- The operations of a store that are to fail, each with its `StoreFault`. -/
structure StoreFaults where
  /-- Puts. -/
  put : Option StoreFault := none
  /-- Deletions. -/
  delete : Option StoreFault := none
  /-- Flushes. -/
  flush : Option StoreFault := none
  /-- Scans. -/
  scan : Option StoreFault := none
deriving DecidableEq, Repr

end BatchJournal
