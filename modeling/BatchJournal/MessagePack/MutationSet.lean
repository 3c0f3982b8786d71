import BatchJournal.MessagePack.Head
import BatchJournal.Batch.Mutation

namespace BatchJournal

/-!
# Mutation sets in MessagePack

Format version 2.  It is written in the narrowest spelling, structures as arrays of their fields and
byte strings as arrays of numbers.  It is read in any spelling: any width of marker, text as text
or as bytes, byte strings as arrays or as bytes, structures as arrays or as maps from field names or
field numbers, with fields that are not known skipped.

* `MutationSet.encode` — the bytes of a mutation set.
* `MutationSet.read` — the reader of a mutation set; what follows it is left.
-/

namespace MutationSet

/-! ### Writing -/

/-- A text: its UTF-8 behind `Head.textOf`. -/
def text (s : String) : Bytes :=
  let bs := Utf8.encode s
  Head.textOf bs.length ++ bs

/-- A byte string, as an array of numbers, each by `Head.byteOf`. -/
def blob (bs : Bytes) : Bytes := Head.arrayOf bs.length ++ bs.flatMap Head.byteOf

/-- An edit: the name of its kind, as `Upsert`, with its fields if it has any. -/
def edit : Edit → Bytes
  | .upsert clustering column value =>
    Head.mapOf 1 ++ (text "Upsert" ++ (Head.arrayOf 3
      ++ (text clustering ++ (text column ++ blob value))))
  | .deleteCell clustering column =>
    Head.mapOf 1 ++ (text "DeleteCell" ++ (Head.arrayOf 2 ++ (text clustering ++ text column)))
  | .deletePartition => text "DeletePartition"

/-- A mutation: an array of table, key and edits. -/
def mutation (m : Mutation) : Bytes :=
  Head.arrayOf 3
    ++ (Head.arrayOf 2 ++ (text m.table.keyspace ++ (text m.table.table
      ++ (blob m.key ++ (Head.arrayOf m.edits.length ++ m.edits.flatMap edit)))))

/-- **The bytes of a mutation set:** an array of mutations. -/
def encode (ms : List Mutation) : Bytes := Head.arrayOf ms.length ++ ms.flatMap mutation

/-! ### Reading scalars and sequences -/

/-- How deep arrays, maps and extensions may nest: `1023` levels. -/
def maxLevels : Nat := 1023

/-- Reads a text, spelled as `text` or as `binary`. -/
def readText : Reader String := do
  match ← Head.read with
  | .text n | .binary n => Reader.text n
  | _ => Reader.fail

/-- Reads a number that is a byte, `unsigned` or `signed`. -/
def readByte : Reader UInt8 := do
  match ← Head.read with
  | .unsigned n => if n < 256 then return UInt8.ofNat n else Reader.fail
  | .signed n => if 0 ≤ n ∧ n < 256 then return UInt8.ofNat n.toNat else Reader.fail
  | _ => Reader.fail

/-- Reads a byte string, spelled as an `array` of numbers or as `binary`. -/
def readBlob : Reader Bytes := do
  match ← Head.read with
  | .array n => Reader.times readByte n
  | .binary n => Reader.take n
  | _ => Reader.fail

/-- Reads a sequence of values that no single byte can spell: an `array`, or an empty `binary`. -/
def readSequence {α : Type} (element : Reader α) : Reader (List α) := do
  match ← Head.read with
  | .array n => Reader.times element n
  | .binary 0 => return []
  | _ => Reader.fail

/-! ### Reading structures -/

/-- What a key of a map can name: the place of a field among `names`, or `none`. -/
def fieldNamed (names : List String) (key : Bytes) : Option Nat :=
  names.findIdx? fun name => Utf8.encode name = key

/-- Reads the key of a field: its name, as `text` or `binary`, or its number. -/
def readKey (names : List String) : Reader (Option Nat) := do
  match ← Head.read with
  | .text n | .binary n => return fieldNamed names (← Reader.take n)
  | .unsigned n => return if n < names.length then some n else none
  | _ => Reader.fail

/-- **Reads a structure** whose fields have the given names.  `field` reads the field of a place
    into the fields read so far and fails if that field was read before.  An array must hold
    exactly the fields in order; a map may hold them in any order among unknown ones. -/
def readStructure {σ : Type} (levels : Nat) (names : List String) (start : σ)
    (field : σ → Nat → Reader σ) : Reader σ := do
  match ← Head.read with
  | .array n =>
    if n = names.length then
      (List.range n).foldlM field start
    else Reader.fail
  | .map n =>
    Reader.fold
      (fun s => do
        match ← readKey names with
        | some i => field s i
        -- A field that is not known may hold anything well formed.
        | none => Head.skip (levels - 1); return s)
      start n
  | _ => Reader.fail

/-- Reads a value into a field that is still unread: `former` is `none`. -/
def once {α : Type} (former : Option α) (value : Reader α) : Reader (Option α) :=
  match former with
  | none => some <$> value
  | some _ => Reader.fail

/-- Reads a table, `levels` levels below the limit. -/
def readTable (levels : Nat) : Reader TableName := do
  let (keyspace, table) ← readStructure levels ["keyspace", "table"]
    ((none, none) : Option String × Option String)
    fun (keyspace, table) i => do
      match i with
      | 0 => return (← once keyspace readText, table)
      | _ => return (keyspace, ← once table readText)
  return ⟨← Reader.ofOption keyspace, ← Reader.ofOption table⟩

/-- Reads the fields of an `upsert`. -/
def readUpsert (levels : Nat) : Reader Edit := do
  let (clustering, column, value) ← readStructure levels ["clustering", "column", "value"]
    ((none, none, none) : Option String × Option String × Option Bytes)
    fun (clustering, column, value) i => do
      match i with
      | 0 => return (← once clustering readText, column, value)
      | 1 => return (clustering, ← once column readText, value)
      | _ => return (clustering, column, ← once value readBlob)
  return .upsert (← Reader.ofOption clustering) (← Reader.ofOption column)
    (← Reader.ofOption value)

/-- Reads the fields of a `deleteCell`. -/
def readDeleteCell (levels : Nat) : Reader Edit := do
  let (clustering, column) ← readStructure levels ["clustering", "column"]
    ((none, none) : Option String × Option String)
    fun (clustering, column) i => do
      match i with
      | 0 => return (← once clustering readText, column)
      | _ => return (clustering, ← once column readText)
  return .deleteCell (← Reader.ofOption clustering) (← Reader.ofOption column)

/-- The kinds of edit, by name; their places are their numbers. -/
def editKinds : List String := ["Upsert", "DeleteCell", "DeletePartition"]

/-- The kind that a head stands for: a name out of `editKinds` follows it, or it is the number
    itself. -/
def kindAfter : Head → Reader Nat
  | .text n | .binary n => do Reader.ofOption (fieldNamed editKinds (← Reader.take n))
  | .unsigned n => if n < editKinds.length then pure n else Reader.fail
  | _ => Reader.fail

/-- **Reads an edit:** a map of one pair from its kind to its fields, or the kind alone if that has
    none. The map does not count as a level of `levels`. -/
def readEdit (levels : Nat) : Reader Edit := do
  match ← Head.read with
  | .map n =>
    if n = 1 then
      match ← kindAfter (← Head.read) with
      | 0 => readUpsert levels
      | 1 => readDeleteCell levels
      | _ =>
        match ← Head.read with
        | .nil => return .deletePartition
        | _ => Reader.fail
    else Reader.fail
  | head =>
    -- Without fields the kind may stand by itself.
    match ← kindAfter head with
    | 2 => return .deletePartition
    | _ => Reader.fail

/-- Reads a mutation, `levels` levels below the limit. -/
def readMutation (levels : Nat) : Reader Mutation := do
  let (table, key, edits) ← readStructure levels ["table", "key", "ops"]
    ((none, none, none) : Option TableName × Option Bytes × Option (List Edit))
    fun (table, key, edits) i => do
      match i with
      | 0 => return (← once table (readTable (levels - 1)), key, edits)
      | 1 => return (table, ← once key readBlob, edits)
      | _ => return (table, key, ← once edits (readSequence (readEdit (levels - 2))))
  return ⟨← Reader.ofOption table, ← Reader.ofOption key, ← Reader.ofOption edits⟩

/-- **Reads a mutation set,** in any spelling, from the front of the bytes. -/
def read : Reader (List Mutation) := readSequence (readMutation (maxLevels - 1))

end MutationSet

end BatchJournal
