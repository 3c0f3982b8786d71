namespace BatchJournal

/-!
# Durations

A length of time in whole seconds and a part of a second, as timeouts, intervals and ages are
given.  `Duration.text` is its short form with the largest unit that leaves a whole part.
-/

/-- A length of time: whole `seconds`, and `nanos` beside them. -/
structure Duration where
  /-- Whole seconds. -/
  seconds : UInt64
  /-- The rest, in nanoseconds. -/
  nanos : Fin 1000000000
deriving DecidableEq, Repr

namespace Duration

instance : Inhabited Duration := ⟨⟨0, 0⟩⟩

/-- No time at all: `0` seconds and `0` nanoseconds. -/
def zero : Duration := ⟨0, 0⟩

/-- The whole length in nanoseconds: `10 ^ 9` for each second. -/
def totalNanos (d : Duration) : Nat := d.seconds.toNat * 1000000000 + d.nanos

/-- The whole length in microseconds, what is smaller dropped. -/
def totalMicros (d : Duration) : Nat := d.seconds.toNat * 1000000 + d.nanos / 1000

/-- A number `n` of microseconds. -/
def ofMicros (n : UInt64) : Duration :=
  ⟨n / 1000000, Fin.ofNat _ (n.toNat % 1000000 * 1000)⟩

/-- A number `n` of milliseconds. -/
def ofMillis (n : UInt64) : Duration :=
  ⟨n / 1000, Fin.ofNat _ (n.toNat % 1000 * 1000000)⟩

instance : LE Duration := ⟨fun a b => a.totalNanos ≤ b.totalNanos⟩

instance (a b : Duration) : Decidable (a ≤ b) :=
  inferInstanceAs (Decidable (a.totalNanos ≤ b.totalNanos))

/-- A whole part and `places` further decimal digits, zeros at the end left out. -/
def decimalText (whole part places : Nat) : String :=
  let cs := Nat.toDigits 10 part
  let padded := List.replicate (places - cs.length) '0' ++ cs
  let kept := (padded.reverse.dropWhile (· = '0')).reverse
  toString whole ++ if kept.isEmpty then "" else "." ++ String.ofList kept

/-- **Short text:** seconds when there are any, else milliseconds, microseconds or nanoseconds, as
    `1.5s` or `20ms`. -/
def text (d : Duration) : String :=
  let n := d.nanos.val
  if d.seconds ≠ 0 then decimalText d.seconds.toNat n 9 ++ "s"
  else if 1000000 ≤ n then decimalText (n / 1000000) (n % 1000000) 6 ++ "ms"
  else if 1000 ≤ n then decimalText (n / 1000) (n % 1000) 3 ++ "µs"
  else toString n ++ "ns"

end Duration

end BatchJournal
