import BatchJournal.Replica.Partition

namespace BatchJournal

/-!
# The replica

The tables a journal delivers to: what was created, when each table was last truncated, and the
partitions written since.  Applying a mutation merges its edits at the given time, so applying it
again changes nothing that can be read.
-/

/-- Why a mutation was not applied; replay leaves its entry in the store. -/
inductive WriteError where
  /-- The table does not exist. -/
  | unknownTable (table : TableName)
  /-- A replica could not be reached or refused. -/
  | unavailable (reason : String)
  /-- The deadline passed. -/
  | timeout (batch : String) (elapsedMillis : Nat)
  /-- Anything else. -/
  | other (reason : String)
deriving DecidableEq, Repr

/-- The text of a failed write. -/
def WriteError.message : WriteError → String
  | .unknownTable t => "Unknown table: " ++ t.text
  | .unavailable reason => "Replica unavailable: " ++ reason
  | .timeout batch elapsed =>
    "Write for batch " ++ batch ++ " timed out after " ++ toString elapsed ++ "ms"
  | .other reason => "Write failed: " ++ reason

/-- The table and key of a partition: where a `Partition` stands. -/
structure PartitionKey where
  /-- The table. -/
  table : TableName
  /-- The key inside it. -/
  key : Bytes
deriving DecidableEq, Repr

namespace PartitionKey

/-- Partitions are ordered by table, then by key: by `table`, then by `key`. -/
instance : LT PartitionKey := ⟨fun a b => a.table < b.table ∨ a.table = b.table ∧ a.key < b.key⟩

instance (a b : PartitionKey) : Decidable (a < b) :=
  inferInstanceAs (Decidable (a.table < b.table ∨ a.table = b.table ∧ a.key < b.key))

instance : KeyOrder PartitionKey where
  irrefl a h := by
    rcases h with h | ⟨_, h⟩
    · exact KeyOrder.irrefl _ h
    · exact List.lt_irrefl _ h
  trans {a b c} h h' := by
    rcases h with h | ⟨e, h⟩ <;> rcases h' with h' | ⟨e', h'⟩
    · exact .inl (KeyOrder.trans h h')
    · exact .inl (e' ▸ h)
    · exact .inl (e ▸ h')
    · exact .inr ⟨e.trans e', List.lt_trans h h'⟩
  total {a b} h h' := by
    obtain ⟨t, k⟩ := a
    obtain ⟨t', k'⟩ := b
    have ht : t = t' := KeyOrder.total (fun g => h (.inl g)) (fun g => h' (.inl g))
    subst ht
    have hk : k = k' := List.le_antisymm (fun g => h' (.inr ⟨rfl, g⟩)) (fun g => h (.inr ⟨rfl, g⟩))
    subst hk
    rfl

end PartitionKey

/-- The tables of a replica, and the partitions in them. -/
structure Replica where
  /-- The tables that exist, each with the time of its last truncation. -/
  tables : OrderedMap TableName (Option Timestamp)
  /-- The partitions written since. -/
  partitions : OrderedMap PartitionKey Partition
  /-- How many mutations were applied. -/
  applied : Nat

namespace Replica

/-- A replica without tables: nothing was applied. -/
def empty : Replica := ⟨.empty, .empty, 0⟩

instance : Inhabited Replica := ⟨empty⟩

/-- The table exists: `tables` has it. -/
def hasTable (r : Replica) (t : TableName) : Bool := r.tables.contains t

/-- Creates a table that was never truncated; one that exists stays as it is. -/
def createTable (r : Replica) (t : TableName) : Replica :=
  if r.hasTable t then r else { r with tables := r.tables.insert t none }

/-- The time of the last truncation of a table, if it exists and was truncated. -/
def truncatedAt (r : Replica) (t : TableName) : Option Timestamp := (r.tables.get? t).join

/-- **Truncation** drops every partition of the table and moves its truncation time forward;
    `unknownTable` if there is none. -/
def truncate (r : Replica) (t : TableName) (at' : Timestamp) : Except WriteError Replica :=
  match r.tables.get? t with
  | none => .error (.unknownTable t)
  | some former => .ok
    { r with
      tables := r.tables.insert t (some ((former.map (·.latest at')).getD at'))
      -- Dropped is everything, newer writes too.
      partitions := r.partitions.filter fun k _ => k.table ≠ t }

/-- **Delivery of one mutation** at a given time: its edits are merged in order by `Partition.edit`.
    The truncation time is not looked at. -/
def apply (r : Replica) (m : Mutation) (written : Timestamp) : Except WriteError Replica :=
  if r.hasTable m.table then
    let key : PartitionKey := ⟨m.table, m.key⟩
    let partition := (r.partitions.get? key).getD .empty
    .ok
      { r with
        partitions := r.partitions.insert key (m.edits.foldl (·.edit written ·) partition)
        applied := r.applied + 1 }
  else .error (.unknownTable m.table)

/-- The readable value of a cell: `Partition.read` of its partition. -/
def read (r : Replica) (t : TableName) (key : Bytes) (clustering column : String) : Option Bytes :=
  (r.partitions.get? ⟨t, key⟩).bind (·.read ⟨clustering, column⟩)

/-- The readable columns of a row with their values, ascending: `Partition.row` of its partition. -/
def row (r : Replica) (t : TableName) (key : Bytes) (clustering : String) :
    List (String × Bytes) :=
  ((r.partitions.get? ⟨t, key⟩).map (·.row clustering)).getD []

/-- How many partitions of a table are `live`. -/
def livePartitions (r : Replica) (t : TableName) : Nat :=
  (r.partitions.filter fun k p => k.table = t && p.live).size

end Replica

end BatchJournal
