import BatchJournal.Batch.Id
import BatchJournal.Time.Timestamp

namespace BatchJournal

/-!
# Journal entries

What the store keeps of a batch: its id, the timestamp its edits are applied at, and its mutations
as the bytes of one format version.
-/

/-- The number of a mutation format. -/
structure FormatVersion where
  /-- The number. -/
  number : UInt32
deriving DecidableEq, Repr, Inhabited

namespace FormatVersion

/-- The number after a `v`. -/
def text (v : FormatVersion) : String := "v" ++ toString v.number.toNat

instance : LT FormatVersion := ⟨fun a b => a.number < b.number⟩

instance (a b : FormatVersion) : Decidable (a < b) :=
  inferInstanceAs (Decidable (a.number < b.number))

instance : KeyOrder FormatVersion where
  irrefl a := UInt32.lt_irrefl a.number
  trans := UInt32.lt_trans
  total {a b} h h' := by
    obtain ⟨m⟩ := a
    obtain ⟨n⟩ := b
    have : m = n := UInt32.le_antisymm (UInt32.not_lt.1 h') (UInt32.not_lt.1 h)
    subst this
    rfl

end FormatVersion

/-- One stored batch. -/
structure Entry where
  /-- The id, the key of the entry in its store. -/
  id : BatchId
  /-- The time at which every edit of the batch is applied. -/
  written : Timestamp
  /-- The format of the payload. -/
  version : FormatVersion
  /-- The mutations, encoded. -/
  payload : Bytes
deriving Inhabited, BEq, ReflBEq, LawfulBEq

instance : DecidableEq Entry := fun a b => decidable_of_iff (a == b) beq_iff_eq

namespace Entry

/-- How long ago the batch was written; nothing for an entry from the future. -/
def age (e : Entry) (now : Timestamp) : Option Duration := now.since e.written

/-- **Eligible for replay:** written at least `timeout` ago. -/
def eligible (e : Entry) (now : Timestamp) (timeout : Duration) : Bool :=
  (e.age now).any fun age => timeout ≤ age

end Entry

end BatchJournal
