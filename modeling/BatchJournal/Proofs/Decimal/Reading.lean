import Mathlib.Data.Nat.Digits.Defs
import BatchJournal.Proofs.Decimal.Rounding

namespace BatchJournal

/-!
# Decimals that read as a number

A decimal is read by forming its quotient, unless it is so large or so small that it can only be an
infinity or a zero.  No decimal in the interval of a finite number is either.

* `Binary64.two_zpow_le_ten`, `Binary64.ten_zpow_le_two` — powers of two and of ten.
* `Binary64.ofDecimal_around` — a decimal in the interval of a number reads as the number.
-/

namespace Binary64

/-! ### Powers of ten -/

theorem ten_zpow_pos (p : ℤ) : (0 : ℚ) < 10 ^ p := zpow_pos (by norm_num) p

theorem ten_zpow_add (p q : ℤ) : (10 : ℚ) ^ (p + q) = 10 ^ p * 10 ^ q :=
  zpow_add₀ (by norm_num) p q

theorem ten_zpow_lt_iff {p q : ℤ} : (10 : ℚ) ^ p < 10 ^ q ↔ p < q :=
  zpow_lt_zpow_iff_right₀ (by norm_num)

/-- **A power of two below a power of ten:** the ratio of the exponents lies between the fractions
    `93 / 28` and `196 / 59`, of which the one or the other is sharp enough. -/
theorem two_zpow_le_ten {a b : ℤ} (h₁ : 28 * a ≤ 93 * b) (h₂ : 59 * a ≤ 196 * b) :
    (2 : ℚ) ^ a ≤ 10 ^ b := by
  have hpower : ∀ (n : ℕ) (k : ℤ), n ≠ 0 → n * a ≤ k * b → ((2 : ℚ) ^ k) ^ b ≤ (10 ^ n) ^ b →
      (2 : ℚ) ^ a ≤ 10 ^ b := by
    intro n k hn hle hbase
    refine (pow_le_pow_iff_left₀ (two_zpow_pos a).le (ten_zpow_pos b).le hn).1 ?_
    calc ((2 : ℚ) ^ a) ^ n = 2 ^ (n * a) := by rw [mul_comm, zpow_mul, zpow_natCast]
      _ ≤ 2 ^ (k * b) := two_zpow_le hle
      _ = (2 ^ k) ^ b := zpow_mul 2 k b
      _ ≤ (10 ^ n) ^ b := hbase
      _ = (10 ^ b) ^ n := by rw [← zpow_natCast, ← zpow_natCast, zpow_comm]
  rcases le_total 0 b with hb | hb
  · exact hpower 28 93 (by decide) (by exact_mod_cast h₁)
      (zpow_le_zpow_left₀ hb (by positivity) (by norm_num))
  · refine hpower 59 196 (by decide) (by exact_mod_cast h₂) ?_
    -- Below 0 the greater base has the lesser power.
    obtain ⟨c, rfl⟩ : ∃ c, b = -c := ⟨-b, (neg_neg b).symm⟩
    rw [zpow_neg, zpow_neg]
    exact inv_anti₀ (by positivity)
      (zpow_le_zpow_left₀ (by omega) (by positivity) (by norm_num))

theorem ten_zpow_le_two {a b : ℤ} (h₁ : 93 * b ≤ 28 * a) (h₂ : 196 * b ≤ 59 * a) :
    (10 : ℚ) ^ b ≤ 2 ^ a := by
  have h := @two_zpow_le_ten (-a) (-b) (by omega) (by omega)
  rw [zpow_neg, zpow_neg] at h
  exact (inv_le_inv₀ (two_zpow_pos a) (ten_zpow_pos b)).1 h

theorem cast_tenTo {p : ℤ} (hp : 0 ≤ p) : (tenTo p.toNat : ℚ) = 10 ^ p := by
  obtain ⟨k, rfl⟩ := Int.eq_ofNat_of_zero_le hp
  rw [Int.toNat_natCast, zpow_natCast]
  exact Nat.cast_pow 10 k

/-- How many digits a natural has: with `k` of them it is at least `10 ^ (k - 1)` and below
    `10 ^ k`. -/
theorem length_toDigits_bounds {n : ℕ} (hn : n ≠ 0) :
    10 ^ ((Nat.toDigits 10 n).length - 1) ≤ n ∧ n < 10 ^ (Nat.toDigits 10 n).length := by
  have hpos : 0 < (Nat.toDigits 10 n).length := Nat.length_toDigits_pos
  refine ⟨?_, (Nat.length_toDigits_le_iff (by decide) hpos).1 le_rfl⟩
  by_contra hlt
  rcases Nat.eq_zero_or_pos ((Nat.toDigits 10 n).length - 1) with hone | hmore
  · rw [hone, pow_zero] at hlt
    omega
  · have := (Nat.length_toDigits_le_iff (by decide) hmore).2 (not_le.1 hlt)
    omega

/-! ### Reading a decimal -/

variable {x : Binary64} {negative : Bool} {m : ℕ} {e : ℤ}

/-- The interval of a number that is not `0` stays off `0`: it begins at `2 ^ (e - 1)` or above. -/
theorem Around.two_zpow_le {v : ℚ} (h : Around m e v) (hm : m ≠ 0) : (2 : ℚ) ^ (e - 1) ≤ v := by
  have hone : (1 : ℚ) ≤ m := by exact_mod_cast Nat.pos_of_ne_zero hm
  have hgap := gap_le m e
  have hhalf : (2 : ℚ) ^ e = 2 * 2 ^ (e - 1) := by
    rw [← zpow_one_add₀ two_ne_zero, add_sub_cancel]
  have hlow := h.low
  have hpos := two_zpow_pos (e - 1)
  rw [hhalf] at hlow
  nlinarith

/-- **A decimal in the interval of a number reads as the number:** `ofDecimal` gives `x`. -/
theorem ofDecimal_around {digits : ℕ} {exponent : ℤ} (hx : Finite x negative m e) (hm : m ≠ 0)
    (h : Around m e (digits * 10 ^ exponent)) : ofDecimal negative digits exponent = x := by
  have hlow := h.two_zpow_le hm
  have hhigh := h.lt_two_zpow hx.significand_lt
  have hxlow := hx.low
  have hxhigh := hx.high
  have hdigits : digits ≠ 0 := by
    rintro rfl
    rw [Nat.cast_zero, zero_mul] at hlow
    exact absurd hlow (two_zpow_pos _).not_ge
  obtain ⟨hcount, hcount'⟩ := length_toDigits_bounds hdigits
  have hpos : 0 < (Nat.toDigits 10 digits).length := Nat.length_toDigits_pos
  rw [ofDecimal, if_neg hdigits]
  generalize hn : (Nat.toDigits 10 digits).length = n at hcount hcount' hpos
  -- The number of digits tells the decimal to a factor of ten.
  have hhuge : (n : ℤ) - 1 + exponent < 310 := by
    refine ten_zpow_lt_iff.1 ?_
    calc (10 : ℚ) ^ ((n : ℤ) - 1 + exponent)
        = (10 ^ (n - 1) : ℕ) * 10 ^ exponent := by
          rw [ten_zpow_add, ← Nat.cast_pred hpos, zpow_natCast]
          push_cast
          rfl
      _ ≤ digits * 10 ^ exponent :=
          mul_le_mul_of_nonneg_right (by exact_mod_cast hcount) (ten_zpow_pos _).le
      _ < 2 ^ (e + 53) := hhigh
      _ ≤ 10 ^ (310 : ℤ) := two_zpow_le_ten (by omega) (by omega)
  have htiny : -331 < (n : ℤ) + exponent := by
    refine ten_zpow_lt_iff.1 ?_
    calc (10 : ℚ) ^ (-331 : ℤ) ≤ 2 ^ (e - 1) := ten_zpow_le_two (by omega) (by omega)
      _ ≤ digits * 10 ^ exponent := hlow
      _ < (10 ^ n : ℕ) * 10 ^ exponent :=
          mul_lt_mul_of_pos_right (by exact_mod_cast hcount') (ten_zpow_pos _)
      _ = 10 ^ ((n : ℤ) + exponent) := by
          rw [ten_zpow_add, zpow_natCast]
          push_cast
          rfl
  rw [if_neg (by omega), if_neg (by omega)]
  split_ifs with hexponent
  · refine ofRatio_around hx (Nat.mul_ne_zero hdigits (pow_ne_zero _ (by decide))) one_pos ?_
    rwa [Nat.cast_mul, cast_tenTo hexponent, Nat.cast_one, div_one]
  · refine ofRatio_around hx hdigits (pow_pos (by decide) _) ?_
    rwa [cast_tenTo (by omega), zpow_neg, div_inv_eq_mul]

/-- A zero reads as the zero of its sign: `ofDecimal negative 0` is `x`, which has the significand
    `0`. -/
theorem ofDecimal_zero (hx : Finite x negative 0 e) (exponent : ℤ) :
    ofDecimal negative 0 exponent = x := by
  rcases hx.normal with hbit | rfl
  · exact absurd hbit (by decide)
  · exact hx.bits_eq.symm

end Binary64

end BatchJournal
