import BatchJournal.Replica.Table
import Mathlib.Data.List.Sort

namespace BatchJournal

/-!
# What can be read

A row lists the values that can be read in it, and a partition counts as live if some value in it
can be read.  So two replicas in which every cell of a table reads the same show the same rows of
it and count the same live partitions.

* `Replica.Agree` — everything that can be read of a table is the same.
* `Replica.Agree.of_read` — it is enough that the cells read the same.
-/

instance : KeyOrder String where
  irrefl := String.lt_irrefl
  trans := String.lt_trans
  total h h' := String.le_antisymm h' h

namespace Partition

theorem read_eq_some_iff {p : Partition} {slot : Slot} {value : Bytes} :
    p.read slot = some value
      ↔ ∃ c, p.cells.get? slot = some c ∧ p.visible c = true ∧ c.value = some value := by
  simp [read, Option.bind_eq_some_iff, Option.filter_eq_some_iff, and_assoc]

/-- `row` lists the columns that `read` gives a value for. -/
theorem mem_row_iff {p : Partition} {clustering column : String} {value : Bytes} :
    (column, value) ∈ p.row clustering ↔ p.read ⟨clustering, column⟩ = some value := by
  rw [read_eq_some_iff]
  simp only [row, List.mem_filterMap]
  constructor
  · rintro ⟨⟨slot, c⟩, hmem, hshown⟩
    split at hshown
    · rename_i h
      obtain ⟨rfl, hvisible⟩ := h
      obtain ⟨v, hv, heq⟩ := Option.map_eq_some_iff.1 hshown
      obtain ⟨rfl, rfl⟩ := Prod.mk.inj heq
      exact ⟨c, OrderedMap.get?_eq_some_iff.2 hmem, hvisible, hv⟩
    · simp at hshown
  · rintro ⟨c, hget, hvisible, hvalue⟩
    exact ⟨(⟨clustering, column⟩, c), OrderedMap.get?_eq_some_iff.1 hget, by simp [hvisible, hvalue]⟩

/-- The columns of a `row` ascend. -/
theorem sorted_row (p : Partition) (clustering : String) :
    (p.row clustering).Pairwise fun a b => a.1 < b.1 := by
  refine List.Pairwise.filterMap _ (fun a a' hlt b hb b' hb' => ?_) p.cells.sorted
  obtain ⟨slot, c⟩ := a
  obtain ⟨slot', c'⟩ := a'
  have hcolumn : ∀ {s : Slot} {x : Cell} {y : String × Bytes},
      (if s.clustering = clustering ∧ p.visible x = true then x.value.map fun value => (s.column, value)
        else none) = some y → s.clustering = clustering ∧ y.1 = s.column := by
    intro s x y h
    split at h
    · obtain ⟨v, -, rfl⟩ := Option.map_eq_some_iff.1 h
      exact ⟨And.left ‹_›, rfl⟩
    · simp at h
  obtain ⟨hslot, hb⟩ := hcolumn hb
  obtain ⟨hslot', hb'⟩ := hcolumn hb'
  rcases hlt with hlt | ⟨-, hlt⟩
  · -- Both slots are in the row, so their clusterings do not differ.
    rw [hslot, hslot'] at hlt
    exact absurd hlt (String.lt_irrefl _)
  · rwa [hb, hb']

/-- **A `row` is determined by `read`.** -/
theorem row_congr {p q : Partition} (h : ∀ slot, p.read slot = q.read slot) (clustering : String) :
    p.row clustering = q.row clustering :=
  OrderedMap.eq_of_sorted (p.sorted_row clustering) (q.sorted_row clustering) fun _ => by
    rw [mem_row_iff, mem_row_iff, h]

/-- A `live` partition is one in which something can be read. -/
theorem live_iff {p : Partition} : p.live = true ↔ ∃ slot value, p.read slot = some value := by
  simp only [live, List.any_eq_true, OrderedMap.values, List.mem_map, read_eq_some_iff]
  constructor
  · rintro ⟨c, ⟨⟨slot, c'⟩, hmem, rfl⟩, hvisible⟩
    obtain ⟨value, hvalue⟩ : ∃ value, c'.value = some value := by
      cases hvalue : c'.value with
      | none => simp [visible, Cell.tombstone, hvalue] at hvisible
      | some value => exact ⟨value, rfl⟩
    exact ⟨slot, value, c', OrderedMap.get?_eq_some_iff.2 hmem, hvisible, hvalue⟩
  · rintro ⟨slot, value, c, hget, hvisible, -⟩
    exact ⟨c, ⟨(slot, c), OrderedMap.get?_eq_some_iff.1 hget, rfl⟩, hvisible⟩

end Partition

namespace Replica

/-- A partition of the replica, empty if it was never written. -/
def partition (r : Replica) (t : TableName) (key : Bytes) : Partition :=
  (r.partitions.get? ⟨t, key⟩).getD .empty

theorem read_eq (r : Replica) (t : TableName) (key : Bytes) (clustering column : String) :
    r.read t key clustering column = (r.partition t key).read ⟨clustering, column⟩ := by
  unfold read partition
  cases r.partitions.get? ⟨t, key⟩ <;> rfl

theorem row_eq (r : Replica) (t : TableName) (key : Bytes) (clustering : String) :
    r.row t key clustering = (r.partition t key).row clustering := by
  unfold row partition
  cases r.partitions.get? ⟨t, key⟩ <;> rfl

/-- The live partitions of a table. -/
def liveIn (r : Replica) (t : TableName) : OrderedMap PartitionKey Partition :=
  r.partitions.filter fun k p => k.table = t && p.live

theorem mem_keys_liveIn_iff {r : Replica} {t : TableName} {k : PartitionKey} :
    k ∈ (r.liveIn t).keys ↔ k.table = t ∧ (r.partition k.table k.key).live = true := by
  simp only [OrderedMap.mem_keys_iff, ← OrderedMap.get?_eq_some_iff, liveIn, OrderedMap.get?_filter,
    Option.filter_eq_some_iff, Bool.and_eq_true, decide_eq_true_eq, partition]
  constructor
  · rintro ⟨p, hget, ht, hlive⟩
    exact ⟨ht, by rwa [hget]⟩
  · rintro ⟨ht, hlive⟩
    cases hget : r.partitions.get? k with
    | none =>
      rw [hget] at hlive
      simp [Partition.live, Partition.empty, OrderedMap.empty, OrderedMap.values] at hlive
    | some p =>
      rw [hget] at hlive
      exact ⟨p, rfl, ht, hlive⟩

/-- `livePartitions` counts the keys of `liveIn`. -/
theorem livePartitions_eq (r : Replica) (t : TableName) :
    r.livePartitions t = (r.liveIn t).keys.length :=
  (List.length_map _).symm

/-- **Two replicas agree on a table:** `read`, `row` and `livePartitions` are the same. -/
structure Agree (r r' : Replica) (t : TableName) : Prop where
  /-- Every cell reads the same. -/
  read : ∀ key clustering column, r.read t key clustering column = r'.read t key clustering column
  /-- Every row is the same. -/
  row : ∀ key clustering, r.row t key clustering = r'.row t key clustering
  /-- Equally many partitions are live. -/
  livePartitions : r.livePartitions t = r'.livePartitions t

/-- **Replicas whose cells `read` the same agree.** -/
theorem Agree.of_read {r r' : Replica} {t : TableName}
    (h : ∀ key clustering column, r.read t key clustering column = r'.read t key clustering column) :
    r.Agree r' t := by
  have hpartition (key : Bytes) (slot : Slot) :
      (r.partition t key).read slot = (r'.partition t key).read slot := by
    simpa only [read_eq] using h key slot.clustering slot.column
  have hlive (k : PartitionKey) : k ∈ (r.liveIn t).keys ↔ k ∈ (r'.liveIn t).keys := by
    rw [mem_keys_liveIn_iff, mem_keys_liveIn_iff]
    refine and_congr_right fun ht => ?_
    subst ht
    rw [Partition.live_iff, Partition.live_iff]
    simp only [hpartition]
  refine ⟨h, fun key clustering => ?_, ?_⟩
  · rw [row_eq, row_eq, Partition.row_congr (hpartition key)]
  · -- The keys of the live partitions are two sorted lists with the same members.
    have hkeys : (r.liveIn t).keys = (r'.liveIn t).keys :=
      haveI : Std.Irrefl (α := PartitionKey) (· < ·) := ⟨KeyOrder.irrefl⟩
      haveI : Std.Antisymm (α := PartitionKey) (· < ·) :=
        ⟨fun _ _ h h' => absurd (KeyOrder.trans h h') (KeyOrder.irrefl _)⟩
      (r.liveIn t).sorted_keys.eq_of_mem_iff (r'.liveIn t).sorted_keys fun k => hlive k
    rw [livePartitions_eq, livePartitions_eq, hkeys]

end Replica

end BatchJournal
