import BatchJournal.Bytes.Reader
import BatchJournal.Batch.Mutation

namespace BatchJournal

/-!
# The fixed-width layout

Format version 1.  Every count and length is a little-endian word of eight bytes and the kind of an
edit one of four; text is its UTF-8, and fields stand in the order of their declaration.  A payload
has exactly one spelling.

* `FixedWidth.encode` — the bytes of a mutation set.
* `FixedWidth.mutations` — the reader of a mutation set; what follows it is left.
-/

namespace FixedWidth

/-! ### Writing -/

/-- A count or length: eight bytes, as every word here is in `littleEndian`. -/
def count (n : Nat) : Bytes := Bytes.littleEndian 8 n

/-- A byte string after its length, a `count`. -/
def blob (bs : Bytes) : Bytes := count bs.length ++ bs

/-- A text after the length of its UTF-8: the `blob` of `Utf8.encode`. -/
def text (s : String) : Bytes := blob (Utf8.encode s)

/-- The kind of an edit: four bytes. -/
def kind (n : Nat) : Bytes := Bytes.littleEndian 4 n

/-- An edit: its `kind`, then its fields. -/
def edit : Edit → Bytes
  | .upsert clustering column value => kind 0 ++ (text clustering ++ (text column ++ blob value))
  | .deleteCell clustering column => kind 1 ++ (text clustering ++ text column)
  | .deletePartition => kind 2

/-- A mutation: keyspace, table, key, then the edits after their `count`. -/
def mutation (m : Mutation) : Bytes :=
  text m.table.keyspace ++ (text m.table.table ++ (blob m.key
    ++ (count m.edits.length ++ m.edits.flatMap edit)))

/-- **The bytes of a mutation set:** the mutations after their `count`. -/
def encode (ms : List Mutation) : Bytes := count ms.length ++ ms.flatMap mutation

/-! ### Reading -/

/-- Reads what `blob` writes. -/
def readBlob : Reader Bytes := do Reader.take (← Reader.little 8)

/-- Reads what `text` writes, if the bytes are UTF-8. -/
def readText : Reader String := do Reader.text (← Reader.little 8)

/-- Reads what `edit` writes; there are the kinds `0`, `1` and `2`. -/
def readEdit : Reader Edit := do
  match ← Reader.little 4 with
  | 0 => return .upsert (← readText) (← readText) (← readBlob)
  | 1 => return .deleteCell (← readText) (← readText)
  | 2 => return .deletePartition
  | _ => Reader.fail

/-- Reads what `mutation` writes. -/
def readMutation : Reader Mutation := do
  let keyspace ← readText
  let table ← readText
  let key ← readBlob
  let edits ← Reader.times readEdit (← Reader.little 8)
  return ⟨⟨keyspace, table⟩, key, edits⟩

/-- **Reads a mutation set,** as `encode` writes it, from the front of the bytes. -/
def mutations : Reader (List Mutation) := do
  Reader.times readMutation (← Reader.little 8)

end FixedWidth

end BatchJournal
