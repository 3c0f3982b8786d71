import BatchJournal.Json.Value
import BatchJournal.Batch.Entry
import BatchJournal.Batch.Mutation

namespace BatchJournal

/-!
# JSON forms of what a batch carries

A structure is written as an object of its fields in the order of their declaration, a choice as an
object from the name of the alternative to its fields (or the name alone when there are none), and
a byte string as an array of numbers.  A structure is read from an object of its fields in any order
and among others, each exactly once, or from an array of exactly the fields.

* `JsonForm` — a type with a JSON form: a writer and a reader.
* `JsonForm.parse` — a value from a text.
-/

/-- A type with a JSON form, which `write` puts down and `read` takes up. -/
class JsonForm (α : Type) where
  /-- The text of a value. -/
  write : α → String
  /-- The value of a form. -/
  read : Json → Option α

namespace JsonForm

/-- A value from a text: `read` of what `Json.parse` makes of it. -/
def parse (α : Type) [JsonForm α] (s : String) : Option α := (Json.parse s).bind read

/-! ### Fields of structures -/

/-- All names of the fields are texts, or `none`. -/
def named : List (Option String × Json) → Option (List (String × Json))
  | [] => some []
  | (none, _) :: _ => none
  | (some name, v) :: rest => (named rest).map ((name, v) :: ·)

/-- The one value of a field; `none` if it is missing or repeated. -/
def fieldOf (fields : List (String × Json)) (name : String) : Option Json :=
  match fields.filter (·.1 = name) with
  | [(_, v)] => some v
  | _ => none

/-- **The fields of a structure,** in the order of `names`. -/
def fields (names : List String) : Json → Option (List Json)
  | .array elements => if elements.length = names.length then some elements else none
  | .object pairs => do
    let pairs ← named pairs
    names.mapM (fieldOf pairs)
  | _ => none

/-- An array of elements, written one after another by `write`. -/
def writeList {α : Type} (write : α → String) (as : List α) : String :=
  "[" ++ String.intercalate "," (as.map write) ++ "]"

/-- An object of fields that are already written, each behind its `quote`d name. -/
def writeFields (fs : List (String × String)) : String :=
  "\x7b" ++ String.intercalate "," (fs.map fun (name, v) => Json.quote name ++ ":" ++ v) ++ "\x7d"

/-! ### Numbers, texts, byte strings -/

/-- A natural number below `bound`. -/
def natural (bound : Nat) : Json → Option Nat
  | .natural n => if n < bound then some n else none
  | _ => none

instance : JsonForm String where
  write := Json.quote
  read
    | .text s => s
    | _ => none

instance : JsonForm UInt8 where
  write b := toString b.toNat
  read j := (natural 256 j).map UInt8.ofNat

instance {α : Type} [JsonForm α] : JsonForm (List α) where
  write := writeList write
  read
    | .array elements => elements.mapM read
    | _ => none

/-! ### Values of the journal -/

instance : JsonForm Timestamp where
  write t := toString t.micros.toNat
  read j := (natural UInt64.size j).map fun n => ⟨UInt64.ofNat n⟩

instance : JsonForm FormatVersion where
  write v := toString v.number.toNat
  read j := (natural UInt32.size j).map fun n => ⟨UInt32.ofNat n⟩

instance : JsonForm BatchId where
  write id := Json.quote id.text
  read
    | .text s => s.bind BatchId.ofText?
    | _ => none

instance : JsonForm TableName where
  write t := writeFields [("keyspace", Json.quote t.keyspace), ("table", Json.quote t.table)]
  read j := do
    match ← fields ["keyspace", "table"] j with
    | [keyspace, table] => return ⟨← read keyspace, ← read table⟩
    | _ => none

/-- The fields of an `upsert`. -/
def readUpsert (j : Json) : Option Edit := do
  match ← fields ["clustering", "column", "value"] j with
  | [clustering, column, value] => return .upsert (← read clustering) (← read column) (← read value)
  | _ => none

/-- The fields of a `deleteCell`. -/
def readDeleteCell (j : Json) : Option Edit := do
  match ← fields ["clustering", "column"] j with
  | [clustering, column] => return .deleteCell (← read clustering) (← read column)
  | _ => none

instance : JsonForm Edit where
  write
    | .upsert clustering column value =>
      writeFields
        [("Upsert", writeFields
          [("clustering", Json.quote clustering), ("column", Json.quote column),
            ("value", write value)])]
    | .deleteCell clustering column =>
      writeFields
        [("DeleteCell", writeFields
          [("clustering", Json.quote clustering), ("column", Json.quote column)])]
    | .deletePartition => Json.quote "DeletePartition"
  read
    | .text (some "DeletePartition") => some .deletePartition
    | .object [(some "DeletePartition", .null)] => some .deletePartition
    | .object [(some "Upsert", content)] => readUpsert content
    | .object [(some "DeleteCell", content)] => readDeleteCell content
    | _ => none

instance : JsonForm Mutation where
  write m := writeFields [("table", write m.table), ("key", write m.key), ("ops", write m.edits)]
  read j := do
    match ← fields ["table", "key", "ops"] j with
    | [table, key, edits] => return ⟨← read table, ← read key, ← read edits⟩
    | _ => none

end JsonForm

end BatchJournal
