import BatchJournal.Replica.Cell
import BatchJournal.Batch.Mutation

namespace BatchJournal

/-!
# Partitions

A partition holds at most one cell for each row and column, the one no later arrival superseded,
and the time of its newest deletion as a whole.  A cell can be read if it is a value written after
that time.
-/

/-- A row and a column of a partition: where a `Cell` stands. -/
structure Slot where
  /-- The clustering key of the row. -/
  clustering : String
  /-- The column. -/
  column : String
deriving DecidableEq, Repr

namespace Slot

/-- Slots are ordered by row, then by column: by `clustering`, then by `column`. -/
instance : LT Slot :=
  ⟨fun a b => a.clustering < b.clustering ∨ a.clustering = b.clustering ∧ a.column < b.column⟩

instance (a b : Slot) : Decidable (a < b) :=
  inferInstanceAs
    (Decidable (a.clustering < b.clustering ∨ a.clustering = b.clustering ∧ a.column < b.column))

instance : KeyOrder Slot where
  irrefl a h := by
    rcases h with h | ⟨_, h⟩
    · exact String.lt_irrefl _ h
    · exact String.lt_irrefl _ h
  trans {a b c} h h' := by
    rcases h with h | ⟨e, h⟩ <;> rcases h' with h' | ⟨e', h'⟩
    · exact .inl (String.lt_trans h h')
    · exact .inl (e' ▸ h)
    · exact .inl (e ▸ h')
    · exact .inr ⟨e.trans e', String.lt_trans h h'⟩
  total {a b} h h' := by
    obtain ⟨r, c⟩ := a
    obtain ⟨r', c'⟩ := b
    have hr : r = r' := String.le_antisymm (fun g => h' (.inl g)) (fun g => h (.inl g))
    subst hr
    have hc : c = c' := String.le_antisymm (fun g => h' (.inr ⟨rfl, g⟩)) (fun g => h (.inr ⟨rfl, g⟩))
    subst hc
    rfl

end Slot

/-- The rows of one partition key: a `Cell` for each `Slot` that was written. -/
structure Partition where
  /-- The newest deletion of the whole partition. -/
  deletedAt : Option Timestamp
  /-- The winning cell of each slot. -/
  cells : OrderedMap Slot Cell

namespace Partition

/-- A partition that was never written: no cell, no deletion. -/
def empty : Partition := ⟨none, .empty⟩

/-- A cell arrives at its slot and stays if nothing there is superior to `candidate`. -/
def merge (p : Partition) (slot : Slot) (candidate : Cell) : Partition :=
  if (p.cells.get? slot).all candidate.supersedes then
    { p with cells := p.cells.insert slot candidate }
  else p

/-- The partition is deleted as a whole at a time: `deletedAt` is the later one. -/
def delete (p : Partition) (at' : Timestamp) : Partition :=
  { p with deletedAt := some ((p.deletedAt.map (·.latest at')).getD at') }

/-- One edit arrives, written at a given time: `merge` for a cell, `delete` for the partition. -/
def edit (p : Partition) (written : Timestamp) : Edit → Partition
  | .upsert clustering column value => p.merge ⟨clustering, column⟩ ⟨written, some value⟩
  | .deleteCell clustering column => p.merge ⟨clustering, column⟩ ⟨written, none⟩
  | .deletePartition => p.delete written

/-- The cell is a value, and `deletedAt` is earlier than it. -/
def visible (p : Partition) (c : Cell) : Bool :=
  !c.tombstone && p.deletedAt.all fun deleted => deleted < c.written

/-- The readable value of a slot, if its cell is `visible`. -/
def read (p : Partition) (slot : Slot) : Option Bytes :=
  ((p.cells.get? slot).filter p.visible).bind (·.value)

/-- The columns of a row whose cells are `visible`, with their values, ascending. -/
def row (p : Partition) (clustering : String) : List (String × Bytes) :=
  p.cells.entries.filterMap fun (slot, cell) =>
    if slot.clustering = clustering ∧ p.visible cell then
      cell.value.map fun value => (slot.column, value)
    else none

/-- Something in the partition can be read: some cell is `visible`. -/
def live (p : Partition) : Bool := p.cells.values.any p.visible

end Partition

end BatchJournal
