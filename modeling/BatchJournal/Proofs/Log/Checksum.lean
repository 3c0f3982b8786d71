import BatchJournal.Proofs.Log.Framing
import Mathlib.Algebra.Order.Ring.Nat
import Mathlib.Logic.Function.Iterate

namespace BatchJournal

/-!
# What the checksum detects

One bit of division is linear and loses nothing, so different remainders stay different under the
same bytes.  Up to four bytes are one word that is added to the remainder and shifted through
(`Crc32.run_eq`), so different bytes of one length up to four lead from the same remainder to
different ones.  A content and its checksum together always leave one and the same remainder
(`Crc32.run_append_eq_residue_iff`), so it does not matter which of the two the damage is in, or
that it lies across both.

* `Crc32.shift_xor`, `Crc32.shift_injective` — one bit of division.
* `Crc32.run_window_ne` — bytes that differ within a window leave different remainders.
* `Record.Damaged` — damage within a window of four bytes behind the length prefix.
* `Record.decode_damaged` — the reader finds it, however long the record is.
-/

theorem Bytes.wordCount_mono {m n : Nat} (h : m ≤ n) : wordCount m ≤ wordCount n := by
  induction h with
  | refl => exact Nat.le_refl _
  | step _ ih =>
    rw [wordCount]
    omega

/-- What stands above the low `width` bits is added without a carry, as by `^^^`. -/
theorem Bytes.add_two_pow_mul_eq_xor {low width : Nat} (h : low < 2 ^ width) (high : Nat) :
    low + 2 ^ width * high = low ^^^ 2 ^ width * high := by
  apply Nat.eq_of_testBit_eq
  intro i
  rw [Nat.add_comm, Nat.testBit_two_pow_mul_add high h, Nat.testBit_xor, Nat.testBit_two_pow_mul]
  by_cases hi : i < width
  · simp [hi, Nat.not_le.2 hi]
  · have hwidth : width ≤ i := Nat.le_of_not_lt hi
    have hlow : low.testBit i = false :=
      Nat.testBit_lt_two_pow (Nat.lt_of_lt_of_le h (Nat.pow_le_pow_right (by decide) hwidth))
    simp [hi, hwidth, hlow]

namespace Crc32

/-! ### One bit of division -/

/-- The bit that falls out, as a number. -/
theorem and_one_eq_zero_iff {r : UInt32} : r &&& 1 = 0 ↔ r.toNat % 2 = 0 := by
  rw [← UInt32.toNat_inj, UInt32.toNat_and, UInt32.toNat_zero, UInt32.toNat_one, Nat.and_one_is_mod]

theorem toNat_shiftRight_one (r : UInt32) : (r >>> 1).toNat = r.toNat / 2 := by
  simp [UInt32.toNat_shiftRight, Nat.shiftRight_eq_div_pow]

/-- From `r ^^^ r'` a one falls out if it does from just one of the two. -/
theorem xor_and_one_eq_zero_iff (r r' : UInt32) :
    (r ^^^ r') &&& 1 = 0 ↔ (r &&& 1 = 0 ↔ r' &&& 1 = 0) := by
  have hsum : (r.toNat ^^^ r'.toNat) % 2 = 1 ↔ ¬(r.toNat % 2 = 1 ↔ r'.toNat % 2 = 1) :=
    Nat.xor_mod_two_eq_one
  simp only [and_one_eq_zero_iff, UInt32.toNat_xor]
  omega

/-- **A bit of division is linear:** `shift` is additive for `^^^`. -/
theorem shift_xor (r r' : UInt32) : shift (r ^^^ r') = shift r ^^^ shift r' := by
  simp only [shift_eq_ite, xor_and_one_eq_zero_iff, UInt32.shiftRight_xor]
  by_cases h : r &&& 1 = 0 <;> by_cases h' : r' &&& 1 = 0
  all_goals simp only [h, h', iff_self, iff_true, iff_false, not_true, if_true, if_false]
  · ac_rfl
  · ac_rfl
  · -- Both parts have added the polynomial, and the two cancel out.
    calc r >>> 1 ^^^ r' >>> 1
        = r >>> 1 ^^^ r' >>> 1 ^^^ (polynomial ^^^ polynomial) := by
          rw [UInt32.xor_self, UInt32.xor_zero]
      _ = r >>> 1 ^^^ polynomial ^^^ (r' >>> 1 ^^^ polynomial) := by ac_rfl

/-- Only `0` is divided to `0`. -/
theorem eq_zero_of_shift_eq_zero {r : UInt32} (h : shift r = 0) : r = 0 := by
  have hhalf := toNat_shiftRight_one r
  rw [shift_eq_ite] at h
  split at h
  · rename_i hlow
    rw [h, UInt32.toNat_zero] at hhalf
    rw [and_one_eq_zero_iff] at hlow
    rw [← UInt32.toNat_inj, UInt32.toNat_zero]
    omega
  · -- The polynomial has a one at the top, where the shift has left a zero.
    rw [UInt32.xor_eq_zero_iff.1 h] at hhalf
    have hlt := r.toNat_lt
    have hvalue : polynomial.toNat = 0xEDB88320 := rfl
    omega

/-- **A bit of division loses nothing:** `shift` is injective. -/
theorem shift_injective : Function.Injective shift := by
  intro r r' h
  have hzero : shift (r ^^^ r') = 0 := by rw [shift_xor, h, UInt32.xor_self]
  exact UInt32.xor_eq_zero_iff.1 (eq_zero_of_shift_eq_zero hzero)

/-- Many bits of division are linear too. -/
theorem shift_iterate_xor (k : Nat) (r r' : UInt32) :
    shift^[k] (r ^^^ r') = shift^[k] r ^^^ shift^[k] r' := by
  induction k generalizing r r' with
  | zero => rfl
  | succ k ih => simp only [Function.iterate_succ_apply, shift_xor, ih]

/-- A zero that falls out adds nothing: `shift` halves. -/
theorem shift_double {m : Nat} (h : 2 * m < UInt32.size) :
    shift (UInt32.ofNat (2 * m)) = UInt32.ofNat m := by
  have htwice : (UInt32.ofNat (2 * m)).toNat = 2 * m := UInt32.toNat_ofNat_of_lt' h
  rw [shift_eq_ite, if_pos (and_one_eq_zero_iff.2 (by omega)), ← UInt32.toNat_inj,
    toNat_shiftRight_one, htwice, UInt32.toNat_ofNat_of_lt' (by omega)]
  omega

/-- So do `k` of them: `shift^[k]` divides by `2 ^ k`. -/
theorem shift_iterate_zeros (k : Nat) {m : Nat} (h : 2 ^ k * m < UInt32.size) :
    shift^[k] (UInt32.ofNat (2 ^ k * m)) = UInt32.ofNat m := by
  induction k with
  | zero => simp
  | succ k ih =>
    have hdouble : 2 ^ (k + 1) * m = 2 * (2 ^ k * m) := by
      rw [Nat.pow_succ', Nat.mul_assoc]
    rw [hdouble] at h ⊢
    rw [Function.iterate_succ_apply, shift_double h, ih (by omega)]

/-! ### Bytes -/

/-- To `feed` a byte is to `shift` eight times. -/
theorem feed_eq (r : UInt32) (b : UInt8) : feed r b = shift^[8] (r ^^^ b.toUInt32) := rfl

@[simp] theorem run_nil (r : UInt32) : run r [] = r := rfl

theorem run_cons (r : UInt32) (b : UInt8) (bs : Bytes) : run r (b :: bs) = run (feed r b) bs := rfl

theorem run_append (r : UInt32) (bs bs' : Bytes) : run r (bs ++ bs') = run (run r bs) bs' :=
  List.foldl_append

/-- **Different remainders stay different** under the same bytes. -/
theorem run_injective (bs : Bytes) : Function.Injective fun r => run r bs := by
  induction bs with
  | nil => exact Function.injective_id
  | cons b bs ih =>
    intro r r' h
    have hfed : feed r b = feed r' b := ih h
    rw [feed_eq, feed_eq] at hfed
    exact (UInt32.xor_left_inj _).1 (shift_injective.iterate 8 hfed)

/-! ### Words -/

/-- The little-endian word that up to four bytes are. -/
def word (bs : Bytes) : UInt32 := UInt32.ofNat (Bytes.ofLittleEndian bs)

theorem ofLittleEndian_lt_size {bs : Bytes} (h : bs.length ≤ 4) :
    Bytes.ofLittleEndian bs < UInt32.size := by
  refine Nat.lt_of_lt_of_le (Bytes.ofLittleEndian_lt bs) ?_
  rw [← Bytes.wordCount_four]
  exact Bytes.wordCount_mono h

/-- Bytes of one length up to four are told by their `word`. -/
theorem word_injective {bs bs' : Bytes} (h : bs.length ≤ 4) (hlength : bs'.length = bs.length)
    (hword : word bs' = word bs) : bs' = bs := by
  have hvalue := congrArg UInt32.toNat hword
  rw [word, word, UInt32.toNat_ofNat_of_lt' (ofLittleEndian_lt_size (hlength ▸ h)),
    UInt32.toNat_ofNat_of_lt' (ofLittleEndian_lt_size h)] at hvalue
  rw [← Bytes.littleEndian_ofLittleEndian bs', ← Bytes.littleEndian_ofLittleEndian bs, hvalue,
    hlength]

/-- The first byte of a `word` is its low end. -/
theorem word_cons (b : UInt8) (bs : Bytes) :
    word (b :: bs) = b.toUInt32 ^^^ UInt32.ofNat (2 ^ 8 * Bytes.ofLittleEndian bs) := by
  have hsum : Bytes.ofLittleEndian (b :: bs) = b.toNat ^^^ 2 ^ 8 * Bytes.ofLittleEndian bs :=
    Bytes.add_two_pow_mul_eq_xor b.toNat_lt _
  rw [word, hsum, UInt32.ofNat_xor, UInt32.ofNat_uInt8ToNat]

/-- **Up to four bytes are a `word`** that is added to the remainder and then shifted through. -/
theorem run_eq {bs : Bytes} (h : bs.length ≤ 4) (r : UInt32) :
    run r bs = shift^[8 * bs.length] (r ^^^ word bs) := by
  induction bs generalizing r with
  | nil => simp [word, Bytes.ofLittleEndian]
  | cons b bs ih =>
    have hrest : 2 ^ 8 * Bytes.ofLittleEndian bs < UInt32.size := by
      have hlt := ofLittleEndian_lt_size h
      rw [Bytes.ofLittleEndian] at hlt
      omega
    rw [List.length_cons] at h
    have hword : shift^[8] (UInt32.ofNat (2 ^ 8 * Bytes.ofLittleEndian bs)) = word bs :=
      shift_iterate_zeros 8 hrest
    -- The bytes behind the first wait above it until its eight bits are gone.
    calc run r (b :: bs)
        = shift^[8 * bs.length] (feed r b ^^^ word bs) := by rw [run_cons, ih (by omega)]
      _ = shift^[8 * bs.length] (shift^[8] (r ^^^ word (b :: bs))) := by
        rw [feed_eq, ← hword, ← shift_iterate_xor, word_cons, UInt32.xor_assoc]
      _ = shift^[8 * (b :: bs).length] (r ^^^ word (b :: bs)) := by
        rw [← Function.iterate_add_apply, List.length_cons, Nat.mul_succ]

/-- **Bytes that differ within a window** of up to four leave different remainders, whatever stands
    in front of them and behind. -/
theorem run_window_ne {old new : Bytes} (hshort : old.length ≤ 4) (hsame : new.length = old.length)
    (hdiffers : new ≠ old) (r : UInt32) (front back : Bytes) :
    run r (front ++ (new ++ back)) ≠ run r (front ++ (old ++ back)) := by
  intro h
  -- The bytes behind the window cannot bring two remainders together again.
  rw [run_append, run_append, run_append _ front, run_append _ old] at h
  have hwindow : run (run r front) new = run (run r front) old := run_injective back h
  rw [run_eq (hsame ▸ hshort), run_eq hshort, hsame] at hwindow
  have hword := (UInt32.xor_right_inj _).1 (shift_injective.iterate _ hwindow)
  exact hdiffers (word_injective hshort hsame hword)

/-! ### Content and checksum together -/

/-- The remainder that a content leaves together with its checksum. -/
def residue : UInt32 := shift^[32] 0xFFFFFFFF

/-- **A content and its checksum** leave the `residue`, and a content and any other word do not. -/
theorem run_append_eq_residue_iff {content stored : Bytes} (h : stored.length = 4) :
    run 0xFFFFFFFF (content ++ stored) = residue ↔ word stored = checksum content := by
  rw [run_append, run_eq (by omega), h]
  constructor
  · intro hresidue
    have hsum : run 0xFFFFFFFF content ^^^ word stored = 0xFFFFFFFF :=
      shift_injective.iterate 32 hresidue
    calc word stored
        = run 0xFFFFFFFF content ^^^ (run 0xFFFFFFFF content ^^^ word stored) := by
          rw [← UInt32.xor_assoc, UInt32.xor_self, UInt32.zero_xor]
      _ = checksum content := by rw [hsum, checksum]
  · intro hword
    rw [hword, checksum, ← UInt32.xor_assoc, UInt32.xor_self, UInt32.zero_xor]
    rfl

/-- The residue of this polynomial. -/
example : residue = 0xDEBB20E3 := by decide

end Crc32

namespace Record

/-! ### Damaged records -/

/-- **Damage within a window** of four bytes somewhere behind the length prefix: what stands there
    is something else. -/
inductive Damaged : Bytes → Bytes → Prop where
  /-- The bytes `new` stand in the place of `old`, as many as before. -/
  | window {front old new back : Bytes} (behind : 4 ≤ front.length) (short : old.length ≤ 4)
    (same : new.length = old.length) (differs : new ≠ old) :
    Damaged (front ++ (old ++ back)) (front ++ (new ++ back))

/-- The content and the checksum of a record leave the `residue`. -/
theorem run_content (r : Record) :
    Crc32.run 0xFFFFFFFF (r.content ++ Bytes.littleEndian 4 (Crc32.checksum r.content).toNat)
      = Crc32.residue :=
  (Crc32.run_append_eq_residue_iff (Bytes.length_littleEndian _ _)).2
    (Bytes.ofNat_ofLittleEndian_toNat _)

/-- A `Damaged` record still tells its length, but what stands behind no longer leaves the
    `residue`. -/
theorem Damaged.exists_eq_prefix_append {r : Record} {damaged : Bytes}
    (h : Damaged r.bytes damaged) :
    ∃ inner, damaged = Bytes.littleEndian 4 (r.encodedLength - 4) ++ inner
      ∧ inner.length = r.encodedLength - 4 ∧ Crc32.run 0xFFFFFFFF inner ≠ Crc32.residue := by
  generalize hbytes : r.bytes = bs at h
  obtain @⟨front, old, new, back, hbehind, hshort, hsame, hdiffers⟩ := h
  have hfour : (front.take 4).length = 4 := by
    rw [List.length_take]
    omega
  -- The damage leaves the length prefix alone, and so the bytes behind it are those of the same
  -- record but for the window.
  rw [← List.take_append_drop 4 front, List.append_assoc, bytes] at hbytes
  obtain ⟨hannounced, hinner⟩ := List.append_inj hbytes
    ((Bytes.length_littleEndian 4 (r.encodedLength - 4)).trans hfour.symm)
  refine ⟨front.drop 4 ++ (new ++ back), ?_, ?_, ?_⟩
  · rw [hannounced, ← List.append_assoc (front.take 4), List.take_append_drop]
  · have hold := congrArg List.length hinner
    have hcontent := r.length_content
    simp only [List.length_append, Bytes.length_littleEndian] at hold ⊢
    omega
  · rw [← r.run_content, hinner]
    exact Crc32.run_window_ne hshort hsame hdiffers _ _ _

/-- **Damage to a record is found** by its checksum, however long the record is and whatever stands
    behind it. -/
theorem decode_damaged {r : Record} {bs damaged : Bytes} (h : r.encode = .ok bs)
    (hdamaged : Damaged bs damaged) :
    ∃ content stored, damaged = bs.take 4 ++ (content ++ stored) ∧ stored.length = 4
      ∧ Crc32.word stored ≠ Crc32.checksum content
      ∧ ∀ rest, decode (damaged ++ rest)
        = .error (.checksumMismatch (Crc32.word stored) (Crc32.checksum content)) := by
  obtain ⟨hfits, rfl⟩ := encode_eq_ok_iff.1 h
  obtain ⟨inner, rfl, hlength, hresidue⟩ := hdamaged.exists_eq_prefix_append
  have hge := r.encodedLength_ge
  obtain ⟨content, stored, rfl, hstored⟩ : ∃ content stored, inner = content ++ stored
      ∧ stored.length = 4 :=
    ⟨inner.take (inner.length - 4), inner.drop (inner.length - 4),
      (List.take_append_drop _ inner).symm, by rw [List.length_drop]; omega⟩
  -- A word that is the checksum of what stands in front would leave the residue with it.
  have hmismatch : Crc32.word stored ≠ Crc32.checksum content := fun hword =>
    hresidue ((Crc32.run_append_eq_residue_iff hstored).2 hword)
  have htake : r.bytes.take 4 = Bytes.littleEndian 4 (r.encodedLength - 4) :=
    List.take_left' (Bytes.length_littleEndian _ _)
  rw [List.length_append, hstored] at hlength
  refine ⟨content, stored, by rw [htake], hstored, hmismatch, fun rest => ?_⟩
  rw [decode_framed (by omega) hfits hlength hstored]
  exact if_neg hmismatch

end Record

end BatchJournal
