namespace BatchJournal

/-!
# Byte strings

A byte string is a list of bytes, first byte first.  Everything the journal writes to disk, hands
to a codec or keeps in a cell is one, and its `<` is the order in which partitions, values and
batch ids are compared: byte by byte, a proper beginning coming first.

* `Bytes.split? n bs` — the first `n` bytes and the rest, or nothing when there are fewer.
* `Bytes.littleEndian`, `Bytes.bigEndian` — fixed-width words, and their readers.
-/

/-- A string of bytes, first byte first. -/
abbrev Bytes := List UInt8

namespace Bytes

/-! ### Cutting -/

/-- **Exact cut.** The first `n` bytes and what follows them; `none` when fewer than `n` are left.
    Only the `n` bytes asked for are walked. -/
def split? (n : Nat) (bs : Bytes) : Option (Bytes × Bytes) :=
  if (bs.take n).length = n then some (bs.take n, bs.drop n) else none

/-- A cut succeeds exactly on strings of the form `front ++ rest` with `front` of the length
    asked for. -/
theorem split?_eq_some_iff {n : Nat} {bs front rest : Bytes} :
    bs.split? n = some (front, rest) ↔ bs = front ++ rest ∧ front.length = n := by
  unfold split?
  constructor
  · intro h
    split at h
    · simp only [Option.some.injEq, Prod.mk.injEq] at h
      obtain ⟨rfl, rfl⟩ := h
      exact ⟨(List.take_append_drop n bs).symm, by assumption⟩
    · simp at h
  · rintro ⟨rfl, rfl⟩
    simp

/-- A cut fails exactly when the string is too short: fewer than `n` bytes. -/
theorem split?_eq_none_iff {n : Nat} {bs : Bytes} : bs.split? n = none ↔ bs.length < n := by
  simp only [split?, List.length_take]
  split <;> simp <;> omega

@[simp] theorem split?_append (front rest : Bytes) :
    Bytes.split? front.length (front ++ rest) = some (front, rest) :=
  split?_eq_some_iff.2 ⟨rfl, rfl⟩

/-! ### Words -/

/-- **Little-endian words.** The `width` low bytes of `n`, the lowest first. -/
def littleEndian : Nat → Nat → Bytes
  | 0, _ => []
  | width + 1, n => UInt8.ofNat n :: littleEndian width (n / 256)

/-- The number whose little-endian bytes are given, the inverse of `littleEndian`. -/
def ofLittleEndian : Bytes → Nat
  | [] => 0
  | b :: bs => b.toNat + 256 * ofLittleEndian bs

/-- **Big-endian words.** The `width` low bytes of `n`, the highest first. -/
def bigEndian (width n : Nat) : Bytes := (littleEndian width n).reverse

/-- The number whose big-endian bytes are given: `ofLittleEndian` from the other end. -/
def ofBigEndian (bs : Bytes) : Nat := ofLittleEndian bs.reverse

/-- How many words of a width there are: `256 ^ width`. -/
def wordCount : Nat → Nat
  | 0 => 1
  | width + 1 => 256 * wordCount width

@[simp] theorem length_littleEndian (width n : Nat) : (littleEndian width n).length = width := by
  induction width generalizing n with
  | zero => rfl
  | succ w ih => simp [littleEndian, ih]

@[simp] theorem length_bigEndian (width n : Nat) : (bigEndian width n).length = width := by
  simp [bigEndian]

/-- Reading a written word gives its value modulo `wordCount width`. -/
theorem ofLittleEndian_littleEndian (width n : Nat) :
    ofLittleEndian (littleEndian width n) = n % wordCount width := by
  induction width generalizing n with
  | zero => simp [littleEndian, ofLittleEndian, wordCount, Nat.mod_one]
  | succ w ih =>
    simp only [littleEndian, ofLittleEndian, wordCount, ih]
    rw [Nat.mod_mul]
    simp

/-- Every byte string is the written form of the word it reads as: `littleEndian` undoes
    `ofLittleEndian`. -/
theorem littleEndian_ofLittleEndian (bs : Bytes) :
    littleEndian bs.length (ofLittleEndian bs) = bs := by
  induction bs with
  | nil => rfl
  | cons b bs ih =>
    have hb := b.toNat_lt
    have hq : (b.toNat + 256 * ofLittleEndian bs) / 256 = ofLittleEndian bs := by omega
    have hm : UInt8.ofNat (b.toNat + 256 * ofLittleEndian bs) = b := by
      apply UInt8.toNat_inj.1
      rw [UInt8.toNat_ofNat']
      omega
    simp only [List.length_cons, littleEndian, ofLittleEndian, hq, hm, ih]

/-- A word of `bs.length` bytes stays below its bound. -/
theorem ofLittleEndian_lt (bs : Bytes) : ofLittleEndian bs < wordCount bs.length := by
  induction bs with
  | nil => simp [ofLittleEndian, wordCount]
  | cons b bs ih =>
    have hb := b.toNat_lt
    simp only [ofLittleEndian, List.length_cons, wordCount]
    omega

theorem ofBigEndian_bigEndian (width n : Nat) :
    ofBigEndian (bigEndian width n) = n % wordCount width := by
  simp [ofBigEndian, bigEndian, ofLittleEndian_littleEndian]

end Bytes

end BatchJournal
