import BatchJournal.Time.Duration

namespace BatchJournal

/-!
# Write timestamps

A batch carries one timestamp, taken when it is submitted.  Every edit of the batch is applied at
that time, however often and however late it is applied, and the batch becomes eligible for replay
once the timestamp is old enough.
-/

/-- Microseconds since the start of 1970, as many as a `UInt64` counts. -/
structure Timestamp where
  /-- The count of microseconds. -/
  micros : UInt64
deriving DecidableEq, Repr, Inhabited

namespace Timestamp

instance : LT Timestamp := ⟨fun a b => a.micros < b.micros⟩
instance : LE Timestamp := ⟨fun a b => a.micros ≤ b.micros⟩
instance (a b : Timestamp) : Decidable (a < b) := inferInstanceAs (Decidable (a.micros < b.micros))
instance (a b : Timestamp) : Decidable (a ≤ b) := inferInstanceAs (Decidable (a.micros ≤ b.micros))

instance : Ord Timestamp := ⟨fun a b => compare a.micros b.micros⟩

/-- The start of 1970: `0` microseconds. -/
def epoch : Timestamp := ⟨0⟩

/-- The last timestamp there is, `UInt64.size - 1`; an entry that carries it never becomes
    eligible. -/
def last : Timestamp := ⟨UInt64.ofNat (UInt64.size - 1)⟩

/-- Milliseconds since the start of 1970, `last` when they are too many. -/
def ofMillis (millis : UInt64) : Timestamp :=
  ⟨UInt64.ofNat (min (millis.toNat * 1000) (UInt64.size - 1))⟩

/-- Whole milliseconds: `micros / 1000`. -/
def millis (t : Timestamp) : UInt64 := t.micros / 1000

/-- The later of two timestamps: `b` if `a < b`. -/
def latest (a b : Timestamp) : Timestamp := if a.micros < b.micros then b else a

/-- **Time since an earlier timestamp;** nothing when `earlier` is in fact the later one. -/
def since (t earlier : Timestamp) : Option Duration :=
  if earlier.micros ≤ t.micros then some (.ofMicros (t.micros - earlier.micros)) else none

/-- The microseconds of a duration that enter timestamp arithmetic: the low 64 bits of
    `totalMicros`. -/
def step (d : Duration) : Nat := d.totalMicros % UInt64.size

/-- A later timestamp, never beyond `last`. -/
def after (t : Timestamp) (d : Duration) : Timestamp :=
  ⟨UInt64.ofNat (min (t.micros.toNat + step d) (UInt64.size - 1))⟩

/-- An earlier timestamp, never before `epoch`. -/
def before (t : Timestamp) (d : Duration) : Timestamp :=
  ⟨UInt64.ofNat (t.micros.toNat - step d)⟩

/-- Seconds, a point, and six digits of microseconds. -/
def text (t : Timestamp) : String :=
  let part := Nat.toDigits 10 (t.micros.toNat % 1000000)
  toString (t.micros.toNat / 1000000) ++ "."
    ++ String.ofList (List.replicate (6 - part.length) '0' ++ part)

end Timestamp

end BatchJournal
