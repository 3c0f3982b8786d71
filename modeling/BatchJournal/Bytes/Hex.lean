import BatchJournal.Bytes.Basic

namespace BatchJournal

/-!
# Hexadecimal text

Lower-case hexadecimal digits of words and byte strings, as they stand in ids and in the text of a
checksum mismatch.
-/

namespace Hex

/-- The lower-case digit of a value below sixteen. -/
def digit (n : Nat) : Char :=
  if n < 10 then Char.ofNat (48 + n) else Char.ofNat (87 + n)

/-- The value of a digit of either case. -/
def value? (c : Char) : Option Nat :=
  if '0' ≤ c ∧ c ≤ '9' then some (c.toNat - 48)
  else if 'a' ≤ c ∧ c ≤ 'f' then some (c.toNat - 87)
  else if 'A' ≤ c ∧ c ≤ 'F' then some (c.toNat - 55)
  else none

/-- The `count` low hexadecimal digits of `n`, highest first. -/
def digits : Nat → Nat → List Char
  | 0, _ => []
  | count + 1, n => digits count (n / 16) ++ [digit (n % 16)]

/-- Two digits for each byte. -/
def ofBytes (bs : Bytes) : List Char := bs.flatMap fun b => digits 2 b.toNat

/-- Reads pairs of digits; `none` on an odd count or a foreign character. -/
def toBytes? : List Char → Option Bytes
  | [] => some []
  | [_] => none
  | hi :: lo :: rest => do
    let h ← value? hi
    let l ← value? lo
    let bs ← toBytes? rest
    return UInt8.ofNat (16 * h + l) :: bs

/-- A 32-bit word as `0x` and eight digits. -/
def word32 (n : UInt32) : String := "0x" ++ String.ofList (digits 8 n.toNat)

end Hex

end BatchJournal
