import BatchJournal.Batch.Entry
import BatchJournal.Bytes.Crc32

namespace BatchJournal

/-!
# The record format of the log

The log is a header of sixteen bytes and then records, one after another.  A record is a 32-bit
length, a kind byte, a body and a CRC-32 of kind and body; all words are little-endian, and the
length counts everything after itself.

* `Record.encode` — the bytes of a record, unless it exceeds `Record.maxFramed`.
* `Record.decode` — one record from the front of a byte string, with the count of bytes it took.
* `Header.encode`, `Header.decode`, `Header.valid` — the first sixteen bytes of the file.
-/

/-- One line of the log, about the entry of one id. -/
inductive Record where
  /-- An entry was written, perhaps over an older one of its id. -/
  | put (entry : Entry)
  /-- The entry of an id was removed. -/
  | delete (id : BatchId)
deriving DecidableEq

/-- Why bytes are no record, or a record no bytes, as `decode` and `encode` say it. -/
inductive FormatError where
  /-- The bytes end before the record does. -/
  | insufficientData
  /-- The stored checksum is not that of the content. -/
  | checksumMismatch (expected computed : UInt32)
  /-- No such kind of record. -/
  | unknownKind (kind : UInt8)
  /-- The record is longer than any record may be. -/
  | tooLarge (size : Nat)
  /-- The body is not laid out as its kind demands. -/
  | invalidBody (reason : String)
deriving DecidableEq, Repr

/-- The text of a format error. -/
def FormatError.message : FormatError → String
  | .insufficientData => "Insufficient data for record"
  | .checksumMismatch expected computed =>
    "Checksum mismatch: expected " ++ Hex.word32 expected ++ ", computed " ++ Hex.word32 computed
  | .unknownKind kind => "Unknown record kind: " ++ toString kind.toNat
  | .tooLarge size => "Record too large: " ++ toString size ++ " bytes"
  | .invalidBody reason => "Invalid record body: " ++ reason

/-- What is said of a body that ends before its fields do: `invalidBody`. -/
def FormatError.shortBody : FormatError := .invalidBody "failed to fill whole buffer"

namespace Record

/-- The longest a record may be, its length prefix not counted: 64 MiB, `0x4000000` bytes. -/
def maxFramed : Nat := 64 * 1024 * 1024

/-- The id that a record is about: that of its entry for a `put`. -/
def id : Record → BatchId
  | .put e => e.id
  | .delete id => id

/-- The length of a record's bytes, prefix included: `4` for the length, `1` for the kind, the body,
    and `4` for the checksum. -/
def encodedLength : Record → Nat
  | .put e => 4 + 1 + (32 + e.payload.length) + 4
  | .delete _ => 4 + 1 + 16 + 4

/-- The kind byte, `1` for a `put` and `2` for a `delete`, and the body. -/
def content : Record → Bytes
  | .put e =>
    1 :: (e.id.bytes ++ (Bytes.littleEndian 8 e.written.micros.toNat
      ++ (Bytes.littleEndian 4 e.version.number.toNat
      ++ (Bytes.littleEndian 4 e.payload.length ++ e.payload))))
  | .delete id => 2 :: id.bytes

/-- **Writing a record.** Refused as `tooLarge`, with its framed length, when the reader would
    refuse it. -/
def encode (r : Record) : Except FormatError Bytes :=
  let framed := r.encodedLength - 4
  if maxFramed < framed then .error (.tooLarge framed)
  else
    let content := r.content
    .ok (Bytes.littleEndian 4 framed
      ++ (content ++ Bytes.littleEndian 4 (Crc32.checksum content).toNat))

/-- A field of `n` bytes from the front of a body. -/
def field (n : Nat) (bs : Bytes) : Except FormatError (Bytes × Bytes) :=
  match bs.split? n with
  | some r => .ok r
  | none => .error .shortBody

/-- An id from the front of a body: sixteen bytes. -/
def idField (bs : Bytes) : Except FormatError (BatchId × Bytes) :=
  match field 16 bs with
  | .error e => .error e
  | .ok (front, rest) =>
    match BatchId.ofBytes? front with
    | some id => .ok (id, rest)
    | none => .error .shortBody

/-- A word of `n` bytes from the front of a body. -/
def wordField (n : Nat) (bs : Bytes) : Except FormatError (Nat × Bytes) :=
  match field n bs with
  | .error e => .error e
  | .ok (front, rest) => .ok (Bytes.ofLittleEndian front, rest)

/-- **The body of a kind,** and what is left behind it; another kind than `1` and `2` is
    `unknownKind`. -/
def ofBody (kind : UInt8) (body : Bytes) : Except FormatError (Record × Bytes) :=
  if kind = 1 then do
    let (id, rest) ← idField body
    let (micros, rest) ← wordField 8 rest
    let (version, rest) ← wordField 4 rest
    let (length, rest) ← wordField 4 rest
    -- A length beyond the body fails whatever it is, so it need not be counted out.
    let (payload, rest) ← field (min length (body.length + 1)) rest
    return (.put ⟨id, ⟨UInt64.ofNat micros⟩, ⟨UInt32.ofNat version⟩, payload⟩, rest)
  else if kind = 2 then do
    let (id, rest) ← idField body
    return (.delete id, rest)
  else throw (.unknownKind kind)

/-- **The content of a record:** a kind, its body by `ofBody`, and nothing behind. -/
def ofContent : Bytes → Except FormatError Record
  | [] => .error .shortBody
  | kind :: body =>
    match ofBody kind body with
    | .error e => .error e
    | .ok (r, []) => .ok r
    | .ok (_, _ :: _) => .error (.invalidBody "trailing bytes in record body")

/-- **Reading a record** from the front of a byte string: the record and the count of bytes it took.
    The length comes first, then the checksum is compared, and only then the content is read by
    `ofContent`. -/
def decode (bs : Bytes) : Except FormatError (Record × Nat) :=
  match bs.split? 4 with
  | none => .error .insufficientData
  | some (front, rest) =>
    let length := Bytes.ofLittleEndian front
    if length < 5 then
      .error (.invalidBody ("record length " ++ toString length ++ " too small"))
    else if maxFramed < length then .error (.tooLarge length)
    else
      match rest.split? length with
      | none => .error .insufficientData
      | some (framed, _) =>
        -- The checksum is verified before anything is made of the content.
        let content := framed.take (length - 4)
        let expected := UInt32.ofNat (Bytes.ofLittleEndian (framed.drop (length - 4)))
        let computed := Crc32.checksum content
        if expected = computed then
          match ofContent content with
          | .error e => .error e
          | .ok r => .ok (r, 4 + length)
        else .error (.checksumMismatch expected computed)

end Record

/-! ### The header -/

/-- The first sixteen bytes of a log: `magic`, `version`, and eight that are reserved. -/
structure Header where
  /-- Four bytes that name the kind of file. -/
  magic : Bytes
  /-- The version of the record format. -/
  version : UInt32
deriving DecidableEq, Repr

namespace Header

/-- How long a header is: `16` bytes. -/
def length : Nat := 16

/-- The bytes that begin a log: `BLOG`. -/
def logMagic : Bytes := [0x42, 0x4C, 0x4F, 0x47]

/-- The header of a new log: `current.valid` holds. -/
def current : Header := ⟨logMagic, 1⟩

/-- The bytes of a header; the reserved ones are zero. -/
def encode (h : Header) : Bytes :=
  h.magic ++ (Bytes.littleEndian 4 h.version.toNat ++ List.replicate 8 0)

/-- The header in the first bytes of a file, of which there are `length`. -/
def decode (bs : Bytes) : Header :=
  ⟨bs.take 4, UInt32.ofNat (Bytes.ofLittleEndian ((bs.drop 4).take 4))⟩

/-- The file is a log in the format of this module: `magic` and `version` are those of `current`. -/
def valid (h : Header) : Bool := h.magic = logMagic && h.version = 1

end Header

end BatchJournal
