import BatchJournal.Codec.Error
import BatchJournal.Codec.FixedWidth
import BatchJournal.MessagePack.MutationSet

namespace BatchJournal

/-!
# Formats and their registry

A format turns mutation sets into payloads and back, under one version number.  The registry holds
one format for each version it knows and remembers which of them new batches are written with; an
entry is always read by the format of its own version.

* `Format.fixedWidth`, `Format.messagePack` — versions 1 and 2.
* `Format.counting` — a format that keeps nothing but the number of mutations.
* `Registry.encode`, `Registry.decode` — dispatch by version.
-/

/-- A mutation format: `encode` and `decode`, under a version and a name. -/
structure Format where
  /-- The version that its payloads carry. -/
  version : FormatVersion
  /-- Its name. -/
  name : String
  /-- Writes a mutation set. -/
  encode : List Mutation → Except CodecError Bytes
  /-- Reads a payload. -/
  decode : Bytes → Except CodecError (List Mutation)

namespace Format

/-- **Whole payloads only.** What `reader` makes of a payload, refused as `malformed` if it fails or
    stops before the end. -/
def readWhole (version : FormatVersion) (reader : Reader (List Mutation)) (payload : Bytes) :
    Except CodecError (List Mutation) :=
  match reader payload with
  | none => .error (.malformed version payload.length (.unreadable "not a mutation set"))
  | some (ms, []) => .ok ms
  | some (_, b :: rest) =>
    .error (.malformed version payload.length (.trailing (b :: rest).length))

/-- Version `1`, the fixed-width layout of `FixedWidth`. -/
def fixedWidth : Format where
  version := ⟨1⟩
  name := "bincode"
  encode ms := .ok (FixedWidth.encode ms)
  decode := readWhole ⟨1⟩ FixedWidth.mutations

/-- Version `2`, MessagePack. -/
def messagePack : Format where
  version := ⟨2⟩
  name := "msgpack"
  encode ms := .ok (MutationSet.encode ms)
  decode := readWhole ⟨2⟩ MutationSet.read

/-- A format of any version whose payload is the number of mutations, one byte.  Reading gives
    that many mutations without edits, with the keys 0, 1, … in the table `toy.t`. -/
def counting (version : FormatVersion) : Format where
  version
  name := "toy"
  encode ms :=
    if ms.length < 256 then .ok [UInt8.ofNat ms.length]
    else .error (.unencodable version "too many")
  decode
    | [n] => .ok ((List.range n.toNat).map fun i => ⟨⟨"toy", "t"⟩, [UInt8.ofNat i], []⟩)
    | payload => .error (.malformed version payload.length .notOneByte)

end Format

/-- The formats by version, with the one that is `current`. -/
structure Registry where
  /-- One format for each version. -/
  formats : OrderedMap FormatVersion Format
  /-- The version that new batches are written in. -/
  current : FormatVersion
  /-- The current version has a format. -/
  current_mem : formats.contains current

namespace Registry

/-- The registry of one format, which is `current`. -/
def single (f : Format) : Registry where
  formats := OrderedMap.empty.insert f.version f
  current := f.version
  current_mem := by simp [OrderedMap.contains, OrderedMap.get?_insert]

/-- **Registration:** a format takes the place of the former one of its version. `current` stays. -/
def register (r : Registry) (f : Format) : Registry where
  formats := r.formats.insert f.version f
  current := r.current
  current_mem := by
    have := r.current_mem
    simp only [OrderedMap.contains, OrderedMap.get?_insert] at this ⊢
    split <;> simp_all

/-- The format registered for a version, or `none`. -/
def format? (r : Registry) (v : FormatVersion) : Option Format := r.formats.get? v

/-- A `current` format and further ones, registered in order. -/
def ofFormats (current : Format) (more : List Format) : Registry :=
  more.foldl register (single current)

/-- `messagePack` is current, and `fixedWidth` is still read. -/
def standard : Registry := ofFormats .messagePack [.fixedWidth]

/-- The versions for which `format?` has an answer, ascending. -/
def versions (r : Registry) : List FormatVersion := r.formats.keys

/-- The version is among `r.versions`. -/
def supports (r : Registry) (v : FormatVersion) : Bool := r.formats.contains v

/-- Writes a mutation set in a version, or answers `unsupportedVersion`. -/
def encode (r : Registry) (v : FormatVersion) (ms : List Mutation) : Except CodecError Bytes :=
  match r.format? v with
  | none => .error (.unsupportedVersion v)
  | some f => f.encode ms

/-- Reads a payload of a version, or answers `unsupportedVersion`. -/
def decode (r : Registry) (v : FormatVersion) (payload : Bytes) :
    Except CodecError (List Mutation) :=
  match r.format? v with
  | none => .error (.unsupportedVersion v)
  | some f => f.decode payload

/-- The payload reads as the given mutation set: `decode` gives `ms`. -/
def readsAs (r : Registry) (v : FormatVersion) (payload : Bytes) (ms : List Mutation) : Bool :=
  match r.decode v payload with
  | .ok ms' => ms' == ms
  | .error _ => false

/-- A description: the current version, and version and name of every format. -/
def description (r : Registry) : String :=
  "MutationCodec \x7b current: CodecVersion(" ++ toString r.current.number.toNat
    ++ "), formats: ["
    ++ String.intercalate ", "
      (r.formats.entries.map fun (v, f) => "\"" ++ v.text ++ "=" ++ f.name ++ "\"")
    ++ "] \x7d"

end Registry

end BatchJournal
