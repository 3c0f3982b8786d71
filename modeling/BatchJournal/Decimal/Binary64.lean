namespace BatchJournal

/-!
# Binary64 numbers as bits

The only fractions in the journal are the compaction ratio of the configuration and the share of
dead records it is compared with.  Both are IEEE double-precision numbers.  A number is kept as its
64 bits, so that every operation is integer arithmetic:

* `Binary64.value` — what the bits denote: a signed multiple of a power of two, an infinity, or no
  number.
* `Binary64.ofRatio` — the nearest number to a quotient of naturals, a tie going to the even
  significand.
* `Binary64.lt`, `Binary64.le` — the ordered comparisons; both are false next to a NaN.
-/

/-- A double-precision number, as its `bits`: sign, eleven exponent bits, 52 fraction bits. -/
structure Binary64 where
  bits : UInt64
deriving DecidableEq, Inhabited

namespace Binary64

/-- What a bit pattern denotes. -/
inductive Value where
  /-- No number. -/
  | nan
  /-- Beyond the largest finite number. -/
  | infinite (negative : Bool)
  /-- `± significand · 2 ^ exponent`. -/
  | finite (negative : Bool) (significand : Nat) (exponent : Int)
deriving DecidableEq, Repr

/-! ### Fields of the bit pattern -/

/-- The sign bit, `2 ^ 63`. -/
def signBit : Nat := 0x8000000000000000

/-- The bit of a significand that its fields do not show, `2 ^ 52`. -/
def hiddenBit : Nat := 0x10000000000000

/-- The magnitude of an infinity: every exponent bit and no fraction bit, `2047 * 2 ^ 52`. -/
def infinityBits : Nat := 0x7FF0000000000000

/-- The `signBit` is set. -/
def negative (x : Binary64) : Bool := signBit ≤ x.bits.toNat

/-- The bits without the `signBit`. -/
def magnitude (x : Binary64) : Nat := x.bits.toNat % signBit

/-- The exponent field: the eleven bits above the fraction. -/
def biased (x : Binary64) : Nat := x.magnitude / hiddenBit

/-- The fraction field: what is below the `hiddenBit`. -/
def fraction (x : Binary64) : Nat := x.magnitude % hiddenBit

/-- The bits denote no number: their `magnitude` is above that of an infinity. -/
def isNaN (x : Binary64) : Bool := infinityBits < x.magnitude

/-- **Meaning of the bits.** Exponent field `0` has no hidden bit, field `2047` is an infinity or a
    NaN, and every other field adds the hidden bit. -/
def value (x : Binary64) : Value :=
  if x.biased = 2047 then
    if x.fraction = 0 then .infinite x.negative else .nan
  else if x.biased = 0 then .finite x.negative x.fraction (-1074)
  else .finite x.negative (hiddenBit + x.fraction) (x.biased - 1075)

/-- The number with a given sign and a given `magnitude`. -/
def ofMagnitude (negative : Bool) (magnitude : Nat) : Binary64 :=
  ⟨UInt64.ofNat (if negative then signBit + magnitude else magnitude)⟩

/-- The infinity of a sign: `infinityBits` under it. -/
def infinity (negative : Bool) : Binary64 := ofMagnitude negative infinityBits

/-- The quiet NaN without a sign: `infinityBits` and the highest fraction bit. -/
def nan : Binary64 := ofMagnitude false (infinityBits + hiddenBit / 2)

/-! ### Order -/

/-- A number's place on the line: magnitudes grow with their bits, and both zeros are `0`. -/
def place (x : Binary64) : Int := if x.negative then -(x.magnitude : Int) else x.magnitude

/-- `x < y`, false next to a NaN. -/
def lt (x y : Binary64) : Bool := !x.isNaN && !y.isNaN && decide (x.place < y.place)

/-- `x ≤ y`, false next to a NaN. -/
def le (x y : Binary64) : Bool := !x.isNaN && !y.isNaN && decide (x.place ≤ y.place)

/-! ### Rounding -/

/-- The natural number nearest to `n / d`, an exact half going to the even neighbour. -/
def roundDiv (n d : Nat) : Nat :=
  let q := n / d
  let twice := 2 * (n % d)
  if twice < d then q else if d < twice then q + 1 else q + q % 2

/-- **Nearest number to a quotient.** The significand is the quotient over the largest power of two
    that leaves 53 bits (never below `2 ^ -1074`), rounded to even.  A significand that rounds up
    to 54 bits carries into the exponent field by itself, and an exponent field that reaches 2047
    is the infinity. -/
def ofRatio (negative : Bool) (n d : Nat) : Binary64 :=
  if n = 0 then ofMagnitude negative 0 else
  let guess : Int := (n.log2 : Int) - d.log2
  -- The logarithms of the two leave the quotient's own open by one.
  let below : Bool := if 0 ≤ guess then n < d <<< guess.toNat else n <<< (-guess).toNat < d
  let top := if below then guess - 1 else guess
  let exponent := max (top - 52) (-1074)
  let significand :=
    if 0 ≤ exponent then roundDiv n (d <<< exponent.toNat)
    else roundDiv (n <<< (-exponent).toNat) d
  -- A full significand brings its hidden bit along, which adds one to the exponent field.
  let magnitude := (exponent + 1074).toNat * hiddenBit + significand
  ofMagnitude negative (min magnitude infinityBits)

/-- The nearest number to a natural: `ofRatio` of `n` and `1`. -/
def ofNat (n : Nat) : Binary64 := ofRatio false n 1

/-- **Quotient of two counts,** each of them first rounded by `ofNat`. The second count is not
    `0`. -/
def ofCounts (n d : Nat) : Binary64 :=
  match (ofNat n).value, (ofNat d).value with
  | .finite _ a e, .finite _ b f =>
    if e ≤ f then ofRatio false a (b <<< (f - e).toNat)
    else ofRatio false (a <<< (e - f).toNat) b
  | _, _ => nan

/-- A power of ten: `10 ^ n`. -/
def tenTo (n : Nat) : Nat := Nat.pow 10 n

/-- **Nearest number to a decimal** `± digits · 10 ^ exponent`.  A decimal beyond `10 ^ 310` is an
    infinity and one below `10 ^ -330` a zero; in between the quotient is formed exactly. -/
def ofDecimal (negative : Bool) (digits : Nat) (exponent : Int) : Binary64 :=
  if digits = 0 then ofMagnitude negative 0 else
  let places : Int := (Nat.toDigits 10 digits).length + exponent
  if 310 < places then infinity negative
  else if places < -330 then ofMagnitude negative 0
  else if 0 ≤ exponent then ofRatio negative (digits * tenTo exponent.toNat) 1
  else ofRatio negative digits (tenTo (-exponent).toNat)

end Binary64

end BatchJournal
