import BatchJournal.Bytes.Reader

namespace BatchJournal

/-!
# Heads of MessagePack values

Every MessagePack value begins with a marker byte, which may hold a small number or length itself
or announce one in the bytes behind it.  A `Head` is what marker and announced word say together:
a whole scalar, or the kind and length of what follows.

* `Head.read` — the head at the front of a byte string, in whatever width it is spelled.
* `Head.arrayOf`, `Head.textOf`, `Head.mapOf`, `Head.byteOf` — the narrowest spellings.
* `Head.skip` — passes over one whole value, to a bounded depth.
-/

/-- The beginning of a value: what its marker and the word behind it say. -/
inductive Head where
  /-- No value. -/
  | nil
  /-- A truth value. -/
  | bool
  /-- A floating-point number. -/
  | float
  /-- An integer of an unsigned kind. -/
  | unsigned (n : Nat)
  /-- An integer of a signed kind. -/
  | signed (n : Int)
  /-- A text of so many bytes. -/
  | text (length : Nat)
  /-- A byte string. -/
  | binary (length : Nat)
  /-- A sequence of so many values. -/
  | array (length : Nat)
  /-- So many pairs of values. -/
  | map (length : Nat)
  /-- Foreign data of so many bytes, after a byte that names their kind. -/
  | extension (length : Nat)
deriving DecidableEq, Repr

namespace Head

/-! ### Writing -/

/-- The head of an `array` of `n` values. -/
def arrayOf (n : Nat) : Bytes :=
  if n < 16 then [UInt8.ofNat (0x90 + n)]
  else if n < UInt16.size then 0xdc :: Bytes.bigEndian 2 n
  else 0xdd :: Bytes.bigEndian 4 n

/-- The head of a `text` of `n` bytes. -/
def textOf (n : Nat) : Bytes :=
  if n < 32 then [UInt8.ofNat (0xa0 + n)]
  else if n < UInt8.size then 0xd9 :: Bytes.bigEndian 1 n
  else if n < UInt16.size then 0xda :: Bytes.bigEndian 2 n
  else 0xdb :: Bytes.bigEndian 4 n

/-- The head of a `map` of fewer than sixteen pairs. -/
def mapOf (n : Nat) : Bytes := [UInt8.ofNat (0x80 + n)]

/-- A byte, as a number: an `unsigned` one. -/
def byteOf (b : UInt8) : Bytes := if b < 128 then [b] else [0xcc, b]

/-! ### Reading -/

/-- What the marker byte announces; fails on `0xc1`, the one byte that is no marker. -/
def afterMarker (marker : UInt8) : Reader Head :=
  let m := marker.toNat
  if m < 0x80 then pure (.unsigned m)
  else if m < 0x90 then pure (.map (m - 0x80))
  else if m < 0xa0 then pure (.array (m - 0x90))
  else if m < 0xc0 then pure (.text (m - 0xa0))
  else if 0xe0 ≤ m then pure (.signed ((m : Int) - 256))
  else
    match m with
    | 0xc0 => pure .nil
    | 0xc2 | 0xc3 => pure .bool
    | 0xc4 => .binary <$> Reader.big 1
    | 0xc5 => .binary <$> Reader.big 2
    | 0xc6 => .binary <$> Reader.big 4
    | 0xc7 => .extension <$> Reader.big 1
    | 0xc8 => .extension <$> Reader.big 2
    | 0xc9 => .extension <$> Reader.big 4
    | 0xca => (fun _ => .float) <$> Reader.take 4
    | 0xcb => (fun _ => .float) <$> Reader.take 8
    | 0xcc => .unsigned <$> Reader.big 1
    | 0xcd => .unsigned <$> Reader.big 2
    | 0xce => .unsigned <$> Reader.big 4
    | 0xcf => .unsigned <$> Reader.big 8
    | 0xd0 => (fun n => .signed (Int.bmod n UInt8.size)) <$> Reader.big 1
    | 0xd1 => (fun n => .signed (Int.bmod n UInt16.size)) <$> Reader.big 2
    | 0xd2 => (fun n => .signed (Int.bmod n UInt32.size)) <$> Reader.big 4
    | 0xd3 => (fun n => .signed (Int.bmod n UInt64.size)) <$> Reader.big 8
    | 0xd4 => pure (.extension 1)
    | 0xd5 => pure (.extension 2)
    | 0xd6 => pure (.extension 4)
    | 0xd7 => pure (.extension 8)
    | 0xd8 => pure (.extension 16)
    | 0xd9 => .text <$> Reader.big 1
    | 0xda => .text <$> Reader.big 2
    | 0xdb => .text <$> Reader.big 4
    | 0xdc => .array <$> Reader.big 2
    | 0xdd => .array <$> Reader.big 4
    | 0xde => .map <$> Reader.big 2
    | 0xdf => .map <$> Reader.big 4
    | _ => Reader.fail

/-- **The next head:** a marker and what stands behind it. -/
def read : Reader Head := do afterMarker (← Reader.byte)

/-- **Passes over one value,** which may nest arrays, maps and extensions to `levels` levels. -/
def skip : Nat → Reader Unit
  | 0 => do
    match ← read with
    | .text n | .binary n => let _ ← Reader.take n
    | .array _ | .map _ | .extension _ => Reader.fail
    | _ => return
  | levels + 1 => do
    match ← read with
    | .text n | .binary n => let _ ← Reader.take n
    | .array n => Reader.fold (fun _ => skip levels) () n
    | .map n => Reader.fold (fun _ => skip levels) () (2 * n)
    | .extension n => let _ ← Reader.take (n + 1)
    | _ => return

end Head

end BatchJournal
