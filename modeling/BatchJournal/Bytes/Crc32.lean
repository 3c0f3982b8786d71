import BatchJournal.Bytes.Basic

namespace BatchJournal

/-!
# The IEEE CRC-32

The checksum that closes every record.  The remainder is kept bit-reversed, so one bit of input is
one right shift, with the polynomial added when a one falls out (`Crc32.shift`); a byte is added to
the low end and shifted through (`Crc32.feed`); a byte string is fed from the all-ones remainder
and the result complemented (`Crc32.checksum`).
-/

namespace Crc32

/-- The bit-reversed generator polynomial, `0x04C11DB7`. -/
def polynomial : UInt32 := 0xEDB88320

/-- One bit of division. The `polynomial` is masked with all ones or all zeros, as a one falls out
    or not. -/
@[inline] def shift (r : UInt32) : UInt32 := (r >>> 1) ^^^ (polynomial &&& (0 - (r &&& 1)))

/-- The `polynomial` is added exactly when a one falls out. -/
theorem shift_eq_ite (r : UInt32) :
    shift r = if r &&& 1 = 0 then r >>> 1 else (r >>> 1) ^^^ polynomial := by
  have h : r &&& 1 = 0 ∨ r &&& 1 = 1 := by
    have : (r &&& 1).toNat < 2 := by
      rw [UInt32.toNat_and]
      exact Nat.lt_of_le_of_lt Nat.and_le_right (by decide)
    rw [← UInt32.toNat_inj, ← UInt32.toNat_inj]
    simp only [UInt32.toNat_zero, UInt32.toNat_one]
    omega
  rcases h with h | h <;> simp [shift, h]

/-- One byte of division: eight times `shift`. -/
@[inline] def feed (r : UInt32) (b : UInt8) : UInt32 :=
  shift (shift (shift (shift (shift (shift (shift (shift (r ^^^ b.toUInt32))))))))

/-- The remainder after more bytes: `feed` for each. -/
def run (r : UInt32) (bs : Bytes) : UInt32 := bs.foldl feed r

/-- The checksum of a byte string: `run` from all ones, all bits inverted. -/
def checksum (bs : Bytes) : UInt32 := run 0xFFFFFFFF bs ^^^ 0xFFFFFFFF

end Crc32

end BatchJournal
