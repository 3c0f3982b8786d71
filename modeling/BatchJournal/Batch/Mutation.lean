import BatchJournal.Bytes.Basic
import BatchJournal.OrderedMap

namespace BatchJournal

/-!
# What a batch carries

A batch is a list of mutations.  A mutation addresses one partition of one table and carries edits
that are applied in order.  The journal never looks into them: it stores them, gives them their
timestamp and hands them to the replica.
-/

/-- A table, qualified by its keyspace. -/
structure TableName where
  /-- The keyspace. -/
  keyspace : String
  /-- The table inside it. -/
  table : String
deriving DecidableEq, Repr, Inhabited

namespace TableName

/-- Keyspace and table with a point between them: `keyspace.table`. -/
def text (t : TableName) : String := t.keyspace ++ "." ++ t.table

/-- Tables are ordered by `keyspace`, then by `table`. -/
instance : LT TableName :=
  ⟨fun a b => a.keyspace < b.keyspace ∨ a.keyspace = b.keyspace ∧ a.table < b.table⟩

instance (a b : TableName) : Decidable (a < b) :=
  inferInstanceAs (Decidable (a.keyspace < b.keyspace ∨ a.keyspace = b.keyspace ∧ a.table < b.table))

instance : KeyOrder TableName where
  irrefl a h := by
    rcases h with h | ⟨_, h⟩
    · exact String.lt_irrefl _ h
    · exact String.lt_irrefl _ h
  trans {a b c} h h' := by
    rcases h with h | ⟨e, h⟩ <;> rcases h' with h' | ⟨e', h'⟩
    · exact .inl (String.lt_trans h h')
    · exact .inl (e' ▸ h)
    · exact .inl (e ▸ h')
    · exact .inr ⟨e.trans e', String.lt_trans h h'⟩
  total {a b} h h' := by
    obtain ⟨k, t⟩ := a
    obtain ⟨k', t'⟩ := b
    have hk : k = k' := String.le_antisymm (fun g => h' (.inl g)) (fun g => h (.inl g))
    subst hk
    have ht : t = t' := String.le_antisymm (fun g => h' (.inr ⟨rfl, g⟩)) (fun g => h (.inr ⟨rfl, g⟩))
    subst ht
    rfl

end TableName

/-- One change inside a partition, which a `Mutation` names. -/
inductive Edit where
  /-- Write a value into the cell of a row and a column. -/
  | upsert (clustering column : String) (value : Bytes)
  /-- Delete one cell. -/
  | deleteCell (clustering column : String)
  /-- Delete every cell of the partition that is not newer than the batch. -/
  | deletePartition
deriving Repr, BEq, ReflBEq, LawfulBEq

instance : DecidableEq Edit := fun a b => decidable_of_iff (a == b) beq_iff_eq

/-- The edits of a batch to one partition of a table, which `key` names. -/
structure Mutation where
  /-- The table. -/
  table : TableName
  /-- The key of the partition. -/
  key : Bytes
  /-- The edits, in order. -/
  edits : List Edit
deriving Repr, BEq, ReflBEq, LawfulBEq

instance : DecidableEq Mutation := fun a b => decidable_of_iff (a == b) beq_iff_eq

end BatchJournal
