import BatchJournal.Bytes.Hex
import BatchJournal.OrderedMap

namespace BatchJournal

/-!
# Batch ids

A batch is known by sixteen bytes, a UUID.  Ids are ordered byte by byte; the ids of submitted
batches begin with their time of creation, so that order is the order of submission, and a replay
pass visits older batches first.

* `BatchId.text` — the hyphenated form.
* `BatchId.ofText?` — any of the four spellings of a UUID.
* `BatchId.timed` — a fresh id.
-/

/-- The sixteen bytes that name a batch. -/
structure BatchId where
  /-- The bytes, first byte first. -/
  bytes : Bytes
  /-- There are sixteen of them. -/
  length_eq : bytes.length = 16
deriving DecidableEq

namespace BatchId

instance : LT BatchId := ⟨fun a b => a.bytes < b.bytes⟩
instance (a b : BatchId) : Decidable (a < b) := inferInstanceAs (Decidable (a.bytes < b.bytes))

instance : KeyOrder BatchId where
  irrefl a := List.lt_irrefl a.bytes
  trans := List.lt_trans
  total {a b} h h' := by
    obtain ⟨as, _⟩ := a
    obtain ⟨bs, _⟩ := b
    have : as = bs := List.le_antisymm h' h
    subst this
    rfl

instance : Inhabited BatchId := ⟨⟨List.replicate 16 0, rfl⟩⟩

/-- The id with the given bytes, or `none` if there are not sixteen. -/
def ofBytes? (bs : Bytes) : Option BatchId :=
  if h : bs.length = 16 then some ⟨bs, h⟩ else none

@[simp] theorem ofBytes?_bytes (id : BatchId) : ofBytes? id.bytes = some id := by
  simp [ofBytes?, id.length_eq]

/-- The version field of the UUID: the high half of the seventh byte, `7` for a fresh id. -/
def version (id : BatchId) : Nat := (id.bytes.getD 6 0).toNat / 16

/-- **Hyphenated text:** 32 lower-case digits in groups of `8`, `4`, `4`, `4` and `12`. -/
def text (id : BatchId) : String :=
  let cs := Hex.ofBytes id.bytes
  let group (start count : Nat) := (cs.drop start).take count
  String.ofList (group 0 8 ++ '-' :: group 8 4 ++ '-' :: group 12 4 ++ '-' :: group 16 4
    ++ '-' :: group 20 12)

/-- The id written as 32 digits of either case, or `none`. -/
def ofDigits? (cs : List Char) : Option BatchId := do
  let bs ← Hex.toBytes? cs
  ofBytes? bs

/-- The id written in hyphenated form, as `text` gives it, digits of either case. -/
def ofHyphenated? (cs : List Char) : Option BatchId :=
  if [8, 13, 18, 23].all (fun i => cs[i]? = some '-') then
    ofDigits? ((cs.take 8) ++ (cs.drop 9).take 4 ++ (cs.drop 14).take 4 ++ (cs.drop 19).take 4
      ++ cs.drop 24)
  else none

/-- **The spellings of an id:** 32 digits; hyphenated; hyphenated in braces; hyphenated after
    `urn:uuid:`. -/
def ofText? (s : String) : Option BatchId :=
  let cs := s.toList
  if cs.length = 32 then ofDigits? cs
  else if cs.length = 36 then ofHyphenated? cs
  else if cs.length = 38 ∧ cs.head? = some '\x7b' ∧ cs.getLast? = some '\x7d' then
    ofHyphenated? (cs.drop 1).dropLast
  else if cs.length = 45 ∧ cs.take 9 = "urn:uuid:".toList then ofHyphenated? (cs.drop 9)
  else none

/-- **A fresh id** of version `7`: 48 bits of `millis`, then `serial`, which fills the 74 bits
    beside the version and variant fields, so ids of one millisecond are ordered by serial. -/
def timed (millis serial : Nat) : BatchId :=
  ⟨Bytes.bigEndian 6 millis
    ++ Bytes.bigEndian 2 (0x7000 + serial / 0x4000000000000000 % 0x1000)
    ++ Bytes.bigEndian 8 (0x8000000000000000 + serial % 0x4000000000000000), by simp⟩

end BatchId

end BatchJournal
