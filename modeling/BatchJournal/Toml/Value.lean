import BatchJournal.Decimal.Binary64

namespace BatchJournal

/-!
# TOML documents

A document is a table from keys to items.  An item is a value, a table of its own, or an array of
tables.  How a table came about decides what may still be added to it, so each table remembers
whether a header or a brace defined it (*explicit*) or only its mention in a longer key, and whether
that was a dotted key.

* `Toml.Table.find?` — the item of a key.
* `Toml.Table.within` — a change deep inside a document, tables on the way created as needed.
-/

namespace Toml

/-- A value on the right of a `=`, tables in braces included. -/
inductive Value where
  /-- A text. -/
  | text (s : String)
  /-- A whole number. -/
  | integer (n : Int)
  /-- A floating-point number. -/
  | float (x : Binary64)
  /-- A truth value. -/
  | bool (b : Bool)
  /-- A date, a time, or both. -/
  | dateTime
  /-- Values in brackets. -/
  | array (elements : List Value)
  /-- A table in braces, by its fields, each under a key of one or more parts. -/
  | inline (fields : List (List String × Value))

mutual

/-- What stands under a key: a value, a table, or the tables of a repeated header. -/
inductive Item where
  /-- A value. -/
  | value (v : Value)
  /-- A table. -/
  | table (t : Table)
  /-- Tables under one repeated header. -/
  | tables (ts : List Table)

/-- A table: how it came about, and its `items`. -/
inductive Table where
  /-- A table with its items in order of arrival. -/
  | mk (explicit dotted : Bool) (items : List (String × Item))

end

namespace Table

/-- A header or a brace defined the table. -/
def explicit : Table → Bool
  | .mk e _ _ => e

/-- A dotted key brought the table about. -/
def dotted : Table → Bool
  | .mk _ d _ => d

/-- The items in order of arrival. -/
def items : Table → List (String × Item)
  | .mk _ _ is => is

/-- The table of a document before anything is read: `explicit`, without items. -/
def root : Table := .mk true false []

/-- The item of a key, if the table has it. -/
def find? (t : Table) (key : String) : Option Item :=
  (t.items.find? (·.1 = key)).map (·.2)

/-- The table with an item under a key, in the place of a former one or at the end. -/
def set (t : Table) (key : String) (item : Item) : Table :=
  if t.items.any (·.1 = key) then
    .mk t.explicit t.dotted (t.items.map fun p => if p.1 = key then (key, item) else p)
  else .mk t.explicit t.dotted (t.items ++ [(key, item)])

/-- **A change at the end of a path.** Tables that are missing on the way come about by mention.
    An array of tables stands for its last table; a value on the way fails, and so does a dotted
    key that passes through an explicit table. -/
def within (dotted : Bool) : List String → (Table → Option Table) → Table → Option Table
  | [], change, t => change t
  | key :: path, change, t =>
    match t.find? key with
    | none => do
      let inner ← within dotted path change (.mk false dotted [])
      return t.set key (.table inner)
    | some (.table inner) =>
      if dotted && inner.explicit then none
      else do return t.set key (.table (← within dotted path change inner))
    | some (.tables inners) =>
      match inners.getLast? with
      | none => none
      | some inner => do
        return t.set key (.tables (inners.dropLast ++ [← within dotted path change inner]))
    | some (.value _) => none

end Table

/-! ### Building a document -/

/-- A key and its value, the key by its parts, as `a.b = 1`. -/
abbrev Assignment := List String × Value

/-- A line of a document: it fills the table of the last header, or is a header. -/
inductive Line where
  /-- A key with its value. -/
  | assign (key : List String) (value : Value)
  /-- A header that defines a table. -/
  | header (key : List String)
  /-- A header that adds a table to an array. -/
  | element (key : List String)

/-- Puts a value under a new key of a table. A dotted key must end in a table that dotted keys
    brought about, and a plain one in one that they did not: `dotted` tells. -/
def Table.assign (t : Table) (key : List String) (value : Value) : Option Table :=
  match key.getLast? with
  | none => none
  | some last =>
    t.within true key.dropLast fun inner =>
      -- A dotted key ends in a table of dotted keys, a plain one in one that is not.
      if inner.dotted = key.dropLast.isEmpty ∨ (inner.find? last).isSome then none
      else some (inner.set last (.value value))

/-- Defines a table; it may have been mentioned before, but not defined: not `explicit`. -/
def Table.define (t : Table) (key : List String) : Option Table :=
  match key.getLast? with
  | none => none
  | some last =>
    t.within false key.dropLast fun outer =>
      match outer.find? last with
      | none => some (outer.set last (.table (.mk true false [])))
      | some (.table inner) =>
        if inner.explicit || inner.dotted then none
        else some (outer.set last (.table (.mk true false inner.items)))
      | some _ => none

/-- Adds a table to an array of tables: `Item.tables`. -/
def Table.extend (t : Table) (key : List String) : Option Table :=
  match key.getLast? with
  | none => none
  | some last =>
    t.within false key.dropLast fun outer =>
      match outer.find? last with
      | none => some (outer.set last (.tables [.mk true false []]))
      | some (.tables inners) =>
        some (outer.set last (.tables (inners ++ [.mk true false []])))
      | some _ => none

/-- A document under construction: its table, and the key of the header that lines stand under. -/
structure Draft where
  /-- The table of the document. -/
  table : Table
  /-- The key of the last header. -/
  header : List String

/-- One more line: `none` if it redefines what stands. -/
def Draft.add (d : Draft) : Line → Option Draft
  | .assign key value => do
    return { d with table := ← d.table.within false d.header (·.assign key value) }
  | .header key => do return ⟨← d.table.define key, key⟩
  | .element key => do return ⟨← d.table.extend key, key⟩

/-- **The table of the lines of a document;** `none` if one of them redefines what stands. -/
def Table.ofLines (lines : List Line) : Option Table :=
  (lines.foldlM Draft.add ⟨.root, []⟩).map (·.table)

/-! ### Tables in braces -/

/-- A table in braces under construction. Such a table is `explicit` at once, so only tables that
    its own dotted keys brought about can be added to. -/
def Table.ofFields (fields : List Assignment) : Option Table :=
  fields.foldlM (fun t (key, value) => t.assign key value) .root

end Toml

end BatchJournal
