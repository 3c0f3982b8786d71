import BatchJournal.Log.Record

namespace BatchJournal

/-!
# What a log amounts to

The records of a log, folded from the first to the last, give the entries that are live and the
number of records that describe none of them any more.  A log is read up to the first place where
no record can be parsed; what stands behind is not part of it.

* `Entries` — entries by id, each under its own id.
* `Index.add` — the effect of one more record.
* `Log.parse` — the records of a byte string, back to back, and why the parse stopped.
* `Index.ofLog` — the index of everything that parses.
-/

/-! ### Entries by id -/

/-- Entries, each filed under its own id, as `keyed` says. -/
structure Entries where
  /-- The entries by id. -/
  byId : OrderedMap BatchId Entry
  /-- An entry is filed under its own id. -/
  keyed : ∀ id e, byId.get? id = some e → e.id = id

namespace Entries

/-- No entries: `OrderedMap.empty`. -/
def empty : Entries := ⟨.empty, by simp⟩

instance : Inhabited Entries := ⟨empty⟩

/-- The entry of an id, or `none`. -/
def get? (es : Entries) (id : BatchId) : Option Entry := es.byId.get? id

/-- The id has an entry. -/
def contains (es : Entries) (id : BatchId) : Bool := (es.get? id).isSome

/-- Files an entry under its id; a former one of this id gives way. -/
def put (es : Entries) (e : Entry) : Entries where
  byId := es.byId.insert e.id e
  keyed id e' h := by
    rw [OrderedMap.get?_insert] at h
    split at h
    · rename_i hid
      rw [← Option.some.inj h, hid]
    · exact es.keyed id e' h

/-- Removes the entry of an id, if there is one. -/
def delete (es : Entries) (id : BatchId) : Entries where
  byId := es.byId.erase id
  keyed id' e h := by
    rw [OrderedMap.get?_erase] at h
    split at h
    · simp at h
    · exact es.keyed id' e h

/-- The ids, ascending. -/
def ids (es : Entries) : List BatchId := es.byId.keys

/-- The entries in id order. -/
def toList (es : Entries) : List Entry := es.byId.values

/-- How many entries there are. -/
def count (es : Entries) : Nat := es.byId.size

/-- Entries with equal look-ups are equal: `es = es'`. -/
theorem ext_get? {es es' : Entries} (h : ∀ id, es.get? id = es'.get? id) : es = es' := by
  obtain ⟨m, _⟩ := es
  obtain ⟨m', _⟩ := es'
  have : m = m' := OrderedMap.ext_get? h
  subst this
  rfl

theorem get?_put (es : Entries) (e : Entry) (id : BatchId) :
    (es.put e).get? id = if id = e.id then some e else es.get? id :=
  OrderedMap.get?_insert _ _ _ _

theorem get?_delete (es : Entries) (id id' : BatchId) :
    (es.delete id).get? id' = if id' = id then none else es.get? id' :=
  OrderedMap.get?_erase _ _ _

end Entries

/-! ### The index of a log -/

/-- The live entries of a log with the count of its records, `dead` ones apart. -/
structure Index where
  /-- The entries that are live. -/
  entries : Entries
  /-- How many records there are. -/
  records : Nat
  /-- How many of them describe no live entry. -/
  dead : Nat

namespace Index

/-- The index of a log without records. -/
def empty : Index := ⟨.empty, 0, 0⟩

/-- **One more record.** An overwritten put is dead; a delete is `dead` itself and kills the put it
    removes. -/
def add (ix : Index) : Record → Index
  | .put e =>
    ⟨ix.entries.put e, ix.records + 1, ix.dead + if ix.entries.contains e.id then 1 else 0⟩
  | .delete id =>
    ⟨ix.entries.delete id, ix.records + 1, ix.dead + if ix.entries.contains id then 2 else 1⟩

/-- The index of a list of records: `add` for each. -/
def ofRecords (rs : List Record) : Index := rs.foldl add empty

end Index

/-! ### Parsing -/

namespace Log

/-- What was read from a byte string: records, each with the count of its bytes, and the error that
    stopped the reading before the end. -/
structure Parsed where
  /-- The records, each with the count of its bytes. -/
  records : List (Record × Nat)
  /-- Why the bytes behind them are no record; nothing if there are none. -/
  stop : Option FormatError
deriving DecidableEq

/-- How many bytes the records took, all counts together. -/
def Parsed.length (p : Parsed) : Nat := p.records.foldr (fun r n => r.2 + n) 0

/-- Reads at most `fuel` records. -/
def parseWith : Nat → Bytes → Parsed
  | 0, _ => ⟨[], none⟩
  | _ + 1, [] => ⟨[], none⟩
  | fuel + 1, b :: bs =>
    match Record.decode (b :: bs) with
    | .error e => ⟨[], some e⟩
    | .ok (r, n) =>
      let more := parseWith fuel ((b :: bs).drop n)
      ⟨(r, n) :: more.records, more.stop⟩

/-- **The longest sequence of records** that stand back to back at the front of a byte string:
    `Record.decode` again and again. A record takes at least one byte, so there are no more of them
    than bytes. -/
def parse (bs : Bytes) : Parsed := parseWith bs.length bs

/-- The same as `parse` for bytes that should hold a record: with none at all they are
    `insufficientData`. -/
def parseSome (bs : Bytes) : Parsed :=
  if bs.isEmpty then ⟨[], some .insufficientData⟩ else parse bs

end Log

/-- The index of all records at the front of a byte string: `ofRecords` of what `parse` gives. -/
def Index.ofLog (bs : Bytes) : Index := ofRecords ((Log.parse bs).records.map (·.1))

end BatchJournal
