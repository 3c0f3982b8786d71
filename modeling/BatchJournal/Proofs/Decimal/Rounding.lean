import Mathlib.Algebra.Order.Field.Power
import Mathlib.Tactic.FieldSimp
import Mathlib.Tactic.Linarith
import Mathlib.Tactic.Ring
import BatchJournal.Decimal.Binary64

namespace BatchJournal

/-!
# What rounds to a number

A finite number is `significand · 2 ^ exponent`, and the fractions that round to it make up an
interval around it.  The interval is a quarter of the exponent's step wide below a power of two and
a half of it everywhere else.

* `Binary64.ofRatio_nearest` — the number of a fraction, from the exponent it lies under.
* `Binary64.Around` — the interval of a number.
* `Binary64.ofRatio_around` — a fraction in the interval rounds to the number.
-/

namespace Binary64

/-! ### Nearest naturals -/

/-- The natural `m` is nearest to the fraction `x`; of two that are equally near, the even one. -/
structure Nearest (x : ℚ) (m : ℕ) : Prop where
  /-- The fraction is not further below than a half. -/
  low : m - 1 / 2 ≤ x
  /-- The fraction is not further above than a half. -/
  high : x ≤ m + 1 / 2
  /-- At either end the natural is even. -/
  even : x = m - 1 / 2 ∨ x = m + 1 / 2 → m % 2 = 0

theorem roundDiv_eq {n d m : ℕ} (hd : 0 < d) (h : Nearest (n / d) m) : roundDiv n d = m := by
  have hd' : (0 : ℚ) < d := by exact_mod_cast hd
  -- The bounds of `Nearest`, as bounds of naturals.
  have hlow : 2 * (m * d) ≤ 2 * n + d := by
    have := (le_div_iff₀ hd').1 h.low
    have : (2 * (m * d) : ℚ) ≤ 2 * n + d := by linarith
    exact_mod_cast this
  have hhigh : 2 * n ≤ 2 * (m * d) + d := by
    have := (div_le_iff₀ hd').1 h.high
    have : (2 * n : ℚ) ≤ 2 * (m * d) + d := by linarith
    exact_mod_cast this
  have heven : 2 * (m * d) = 2 * n + d ∨ 2 * n = 2 * (m * d) + d → m % 2 = 0 := by
    intro h'
    refine h.even (h'.imp (fun heq => ?_) fun heq => ?_)
    · have : (2 * (m * d) : ℚ) = 2 * n + d := by exact_mod_cast heq
      rw [div_eq_iff hd'.ne']
      linarith
    · have : (2 * n : ℚ) = 2 * (m * d) + d := by exact_mod_cast heq
      rw [div_eq_iff hd'.ne']
      linarith
  have hmod := Nat.mod_lt n hd
  have hdiv := Nat.div_add_mod n d
  generalize hq : n / d = q at hdiv
  generalize hr : n % d = r at hmod hdiv
  -- So `m` is the quotient or the one behind it.
  have hbelow : ¬ m < q := by
    intro hlt
    have := Nat.mul_le_mul_right d (Nat.succ_le_of_lt hlt)
    rw [Nat.succ_mul, Nat.mul_comm q] at this
    omega
  have habove : ¬ q + 1 < m := by
    intro hlt
    have := Nat.mul_le_mul_right d (Nat.succ_le_of_lt hlt)
    rw [Nat.succ_mul, Nat.succ_mul, Nat.mul_comm q] at this
    omega
  rw [roundDiv, hq, hr]
  obtain rfl | rfl : m = q ∨ m = q + 1 := by omega
  · rw [Nat.mul_comm m] at hlow hhigh heven
    split_ifs <;> omega
  · rw [Nat.add_one_mul q, Nat.mul_comm q] at hlow hhigh heven
    split_ifs <;> omega

/-! ### Powers of two -/

theorem two_zpow_pos (e : ℤ) : (0 : ℚ) < 2 ^ e := zpow_pos two_pos e

theorem two_zpow_le {e f : ℤ} (h : e ≤ f) : (2 : ℚ) ^ e ≤ 2 ^ f :=
  zpow_le_zpow_right₀ one_le_two h

theorem two_zpow_add (e f : ℤ) : (2 : ℚ) ^ (e + f) = 2 ^ e * 2 ^ f := zpow_add₀ two_ne_zero e f

/-- A shift is a product with a power of two: `n <<< e` is `n * 2 ^ e`. -/
theorem cast_shiftLeft {e : ℤ} (he : 0 ≤ e) (n : ℕ) :
    ((n <<< e.toNat : ℕ) : ℚ) = n * 2 ^ e := by
  obtain ⟨k, rfl⟩ := Int.eq_ofNat_of_zero_le he
  rw [Int.toNat_natCast, Nat.shiftLeft_eq, zpow_natCast]
  push_cast
  rfl

/-- A natural lies between two neighbouring powers of two, `2 ^ n.log2` and the next. -/
theorem log2_bounds {n : ℕ} (hn : n ≠ 0) :
    (2 : ℚ) ^ (n.log2 : ℤ) ≤ n ∧ (n : ℚ) < 2 ^ ((n.log2 : ℤ) + 1) := by
  constructor
  · rw [zpow_natCast]
    exact_mod_cast Nat.log2_self_le hn
  · rw [← Nat.cast_succ, zpow_natCast]
    exact_mod_cast Nat.lt_log2_self

/-! ### Rounding a quotient -/

section

variable {n d : ℕ}

/-- Dividing by `2 ^ e` shifts the side that grows by it: the divisor, or for a negative `e` the
    dividend. -/
theorem cast_div_shiftLeft (e : ℤ) (n d : ℕ) :
    if 0 ≤ e then (n : ℚ) / (d <<< e.toNat : ℕ) = n / d / 2 ^ e
    else ((n <<< (-e).toNat : ℕ) : ℚ) / d = n / d / 2 ^ e := by
  split_ifs with he
  · rw [cast_shiftLeft he, div_div]
  · rw [cast_shiftLeft (by omega), zpow_neg]
    field_simp

theorem lt_shiftLeft_iff (hd : 0 < d) (e : ℤ) :
    (if 0 ≤ e then n < d <<< e.toNat else n <<< (-e).toNat < d) ↔ (n / d : ℚ) < 2 ^ e := by
  have hd' : (0 : ℚ) < d := by exact_mod_cast hd
  rw [div_lt_iff₀ hd']
  split_ifs with he
  · rw [← @Nat.cast_lt ℚ, cast_shiftLeft he, mul_comm]
  · rw [← @Nat.cast_lt ℚ, cast_shiftLeft (by omega), zpow_neg, mul_inv_lt_iff₀ (two_zpow_pos e),
      mul_comm]

/-- The two exponents that `n.log2 - d.log2` leaves open for `n / d`. -/
theorem quotient_bounds (hn : n ≠ 0) (hd : 0 < d) :
    (2 : ℚ) ^ ((n.log2 : ℤ) - d.log2 - 1) < n / d
      ∧ (n / d : ℚ) < 2 ^ ((n.log2 : ℤ) - d.log2 + 1) := by
  have hd' : (0 : ℚ) < d := by exact_mod_cast hd
  obtain ⟨hn₁, hn₂⟩ := log2_bounds hn
  obtain ⟨hd₁, hd₂⟩ := log2_bounds hd.ne'
  rw [lt_div_iff₀ hd', div_lt_iff₀ hd']
  constructor
  · calc (2 : ℚ) ^ ((n.log2 : ℤ) - d.log2 - 1) * d
        < 2 ^ ((n.log2 : ℤ) - d.log2 - 1) * 2 ^ ((d.log2 : ℤ) + 1) :=
          mul_lt_mul_of_pos_left hd₂ (two_zpow_pos _)
      _ = 2 ^ (n.log2 : ℤ) := by rw [← two_zpow_add]; congr 1; omega
      _ ≤ n := hn₁
  · calc (n : ℚ) < 2 ^ ((n.log2 : ℤ) + 1) := hn₂
      _ = 2 ^ ((n.log2 : ℤ) - d.log2 + 1) * 2 ^ (d.log2 : ℤ) := by
          rw [← two_zpow_add]; congr 1; omega
      _ ≤ 2 ^ ((n.log2 : ℤ) - d.log2 + 1) * d := mul_le_mul_of_nonneg_left hd₁ (two_zpow_pos _).le

/-- **Rounding under a known exponent:** `k` leaves 53 bits, or it is the least one, `-1074`. Then
    `ofRatio` gives the significand that is `Nearest`. -/
theorem ofRatio_nearest (negative : Bool) (hn : n ≠ 0) (hd : 0 < d) {k : ℤ} (hk : -1074 ≤ k)
    (hlow : (2 : ℚ) ^ (k + 52) ≤ n / d ∨ k = -1074) (hhigh : (n / d : ℚ) < 2 ^ (k + 53)) {m : ℕ}
    (hm : Nearest (n / d / 2 ^ k) m) :
    ofRatio negative n d
      = ofMagnitude negative (min ((k + 1074).toNat * hiddenBit + m) infinityBits) := by
  obtain ⟨hn₁, hn₂⟩ := quotient_bounds hn hd
  have hbelow := @lt_shiftLeft_iff n d hd ((n.log2 : ℤ) - d.log2)
  rw [ofRatio, if_neg hn]
  generalize (n.log2 : ℤ) - d.log2 = guess at *
  -- The power of two that the quotient begins with.
  have hexponent : max ((if (if 0 ≤ guess then decide (n < d <<< guess.toNat)
      else decide (n <<< (-guess).toNat < d)) = true then guess - 1 else guess) - 52) (-1074)
      = k := by
    have hcond : ((if 0 ≤ guess then decide (n < d <<< guess.toNat)
        else decide (n <<< (-guess).toNat < d)) = true) ↔ (n / d : ℚ) < 2 ^ guess := by
      rw [← hbelow]
      split_ifs <;> exact decide_eq_true_iff
    rw [if_congr hcond rfl rfl]
    have hexp : ∀ {e f : ℤ}, (2 : ℚ) ^ e ≤ n / d → (n / d : ℚ) < 2 ^ f → e < f :=
      fun h h' => (zpow_lt_zpow_iff_right₀ one_lt_two).1 (h.trans_lt h')
    split_ifs with h
    · have h₁ := hexp hn₁.le hhigh
      rcases hlow with hlow | hlow
      · have h₂ := hexp hlow h
        omega
      · omega
    · have h₁ := hexp (not_lt.1 h) hhigh
      rcases hlow with hlow | hlow
      · have h₂ := hexp hlow hn₂
        omega
      · omega
  have hround : (if 0 ≤ k then roundDiv n (d <<< k.toNat) else roundDiv (n <<< (-k).toNat) d)
      = m := by
    have hshift := cast_div_shiftLeft k n d
    split_ifs at hshift ⊢ with h
    · exact roundDiv_eq (by rw [Nat.shiftLeft_eq]; positivity) (hshift ▸ hm)
    · exact roundDiv_eq hd (hshift ▸ hm)
  dsimp only
  rw [hexponent, hround]

end

/-! ### Finite numbers -/

/-- The bits `x` are those of the finite number `m * 2 ^ e`. -/
structure Finite (x : Binary64) (negative : Bool) (m : ℕ) (e : ℤ) : Prop where
  /-- The exponent field and the fraction field stand one behind the other. -/
  bits_eq : x = ofMagnitude negative ((e + 1074).toNat * hiddenBit + m)
  /-- The significand has 53 bits. -/
  significand_lt : m < 2 * hiddenBit
  /-- The least exponent. -/
  low : -1074 ≤ e
  /-- The greatest exponent. -/
  high : e ≤ 971
  /-- The number is no infinity. -/
  magnitude_lt : (e + 1074).toNat * hiddenBit + m < infinityBits
  /-- Only under the least exponent is the hidden bit missing. -/
  normal : hiddenBit ≤ m ∨ e = -1074

theorem ofMagnitude_magnitude (x : Binary64) : ofMagnitude x.negative x.magnitude = x := by
  have hlt := x.bits.toNat_lt
  have hbits : (if x.negative then signBit + x.magnitude else x.magnitude) = x.bits.toNat := by
    by_cases hsign : signBit ≤ x.bits.toNat
    · have hnegative : x.negative = true := decide_eq_true hsign
      rw [if_pos hnegative, magnitude]
      simp only [signBit] at hsign ⊢
      omega
    · have hnegative : x.negative = false := decide_eq_false hsign
      rw [hnegative, if_neg Bool.false_ne_true, magnitude]
      simp only [signBit] at hsign ⊢
      omega
  rw [ofMagnitude, hbits, UInt64.ofNat_toNat]

theorem fields_eq (x : Binary64) : x.biased * hiddenBit + x.fraction = x.magnitude :=
  Nat.div_add_mod' _ _

/-- The infinities are the two numbers that mean one: `infinity negative`. -/
theorem eq_infinity_of_value {x : Binary64} {negative : Bool}
    (h : x.value = .infinite negative) : x = infinity negative := by
  have hfields := fields_eq x
  rw [value] at h
  split_ifs at h with hspecial hinfinite
  obtain rfl := Value.infinite.inj h
  rw [hspecial, hinfinite] at hfields
  rw [infinity, show infinityBits = x.magnitude from hfields, ofMagnitude_magnitude]

/-- The NaNs are the numbers that mean none: `x.isNaN`. -/
theorem isNaN_iff_value {x : Binary64} : x.isNaN = true ↔ x.value = .nan := by
  have hfields := fields_eq x
  have hlt : x.magnitude < 2048 * hiddenBit := Nat.mod_lt _ (by decide)
  have hfraction : x.fraction < hiddenBit := Nat.mod_lt _ (by decide)
  have hinfinity : infinityBits = 2047 * hiddenBit := rfl
  have hfield : x.biased < 2048 := (Nat.div_lt_iff_lt_mul (by decide)).2 hlt
  rw [isNaN, decide_eq_true_iff, hinfinity, value, ← hfields]
  by_cases hspecial : x.biased = 2047
  · rw [if_pos hspecial, hspecial]
    split_ifs with hinfinite
    · exact ⟨fun h => by omega, fun h => nomatch h⟩
    · exact ⟨fun _ => rfl, fun _ => by omega⟩
  · have hle : x.biased * hiddenBit ≤ 2046 * hiddenBit := Nat.mul_le_mul_right _ (by omega)
    rw [if_neg hspecial]
    refine ⟨fun h => by omega, fun h => ?_⟩
    split_ifs at h

/-- **The meaning of finite bits** gives the bits back: `x.value` as `finite negative m e` makes `x`
    the bits of that number. -/
theorem Finite.of_value {x : Binary64} {negative : Bool} {m : ℕ} {e : ℤ}
    (h : x.value = .finite negative m e) : Finite x negative m e := by
  have hmagnitude := fields_eq x
  have hlt : x.magnitude < 2048 * hiddenBit := Nat.mod_lt _ (by decide)
  have hfraction : x.fraction < hiddenBit := Nat.mod_lt _ (by decide)
  have hinfinity : infinityBits = 2047 * hiddenBit := rfl
  have hbits := ofMagnitude_magnitude x
  have hfield : x.biased < 2048 := (Nat.div_lt_iff_lt_mul (by decide)).2 hlt
  rw [← hmagnitude] at hbits
  rw [value] at h
  -- Subnormal numbers and the others; what is special is no finite number.
  split_ifs at h with hspecial hinfinite hleast
  · obtain ⟨rfl, rfl, rfl⟩ := Value.finite.inj h
    rw [hleast] at hbits
    refine ⟨hbits.symm, by omega, by decide, by decide, ?_, .inr rfl⟩
    rw [hinfinity]
    show 0 * hiddenBit + _ < _
    omega
  · obtain ⟨rfl, rfl, rfl⟩ := Value.finite.inj h
    have hfields : ((x.biased : ℤ) - 1075 + 1074).toNat * hiddenBit + (hiddenBit + x.fraction)
        = x.biased * hiddenBit + x.fraction := by
      rw [← Nat.add_assoc, ← Nat.succ_mul]
      have : ((x.biased : ℤ) - 1075 + 1074).toNat.succ = x.biased := by omega
      rw [this]
    have hle : x.biased * hiddenBit ≤ 2046 * hiddenBit := Nat.mul_le_mul_right _ (by omega)
    refine ⟨?_, by omega, by omega, by omega, ?_, .inl (by omega)⟩
    · rw [hfields, hbits]
    · rw [hfields, hinfinity]
      omega

/-! ### The interval of a number -/

/-- How many quarters of a step the interval reaches down: `2`, or `1` where the numbers below stand
    twice as close. -/
def gap (m : ℕ) (e : ℤ) : ℕ := if m = hiddenBit ∧ -1074 < e then 1 else 2

theorem gap_le (m : ℕ) (e : ℤ) : (gap m e : ℚ) ≤ 2 := by
  rw [gap]
  split_ifs <;> norm_num

/-- **The fractions that round to a finite number** `m * 2 ^ e`, its ends among them if `m` is
    even. -/
structure Around (m : ℕ) (e : ℤ) (v : ℚ) : Prop where
  /-- The lower end. -/
  low : (m - gap m e / 4) * 2 ^ e ≤ v
  /-- The upper end. -/
  high : v ≤ (m + 1 / 2) * 2 ^ e
  /-- Only an even significand takes the ends in. -/
  even : (m - gap m e / 4) * 2 ^ e = v ∨ v = (m + 1 / 2) * 2 ^ e → m % 2 = 0

variable {x : Binary64} {negative : Bool} {m : ℕ} {e : ℤ}

/-- Away from the next lower exponent the number's own significand `m` is `Nearest`. -/
theorem Around.nearest {v : ℚ} (h : Around m e v) : Nearest (v / 2 ^ e) m := by
  have hpos := two_zpow_pos e
  have hgap := gap_le m e
  have hlow := (le_div_iff₀ hpos).2 h.low
  have hhigh := (div_le_iff₀ hpos).2 h.high
  refine ⟨by linarith, hhigh, fun hend => h.even (hend.imp (fun hlower => ?_) fun hupper => ?_)⟩
  · rw [← le_antisymm (by linarith) hlow, div_mul_cancel₀ _ hpos.ne']
  · rw [← hupper, div_mul_cancel₀ _ hpos.ne']

/-- A fraction in the interval of a number lies under the next exponent but one: below
    `2 ^ (e + 53)`. -/
theorem Around.lt_two_zpow {v : ℚ} (h : Around m e v) (hm : m < 2 * hiddenBit) :
    v < 2 ^ (e + 53) := by
  have hm' : (m : ℚ) + 1 ≤ 2 ^ (53 : ℤ) := by exact_mod_cast hm
  calc v ≤ (m + 1 / 2) * 2 ^ e := h.high
    _ < 2 ^ (53 : ℤ) * 2 ^ e := mul_lt_mul_of_pos_right (by linarith) (two_zpow_pos e)
    _ = 2 ^ (e + 53) := by rw [← two_zpow_add, add_comm]

/-- **Below the power of two** that a number is, the numbers stand twice as close: the significand
    under `e - 1` is `Nearest`. -/
theorem Around.nearest_below {v : ℚ} (h : Around m e v) (hx : Finite x negative m e)
    (hlow : v < 2 ^ (e + 52)) (hleast : -1074 < e) :
    m = hiddenBit ∧ 2 ^ (e - 1 + 52) ≤ v ∧ Nearest (v / 2 ^ (e - 1)) (2 * m) := by
  have hpos := two_zpow_pos e
  have hbit : (hiddenBit : ℚ) = 2 ^ (52 : ℤ) := by norm_num [hiddenBit]
  rw [two_zpow_add, ← hbit, mul_comm] at hlow
  -- Below `2 ^ (e + 52)` only the end of the interval is left, and it belongs to the power of two.
  have hhidden : m = hiddenBit := by
    have hgap := gap_le m e
    have hlt : (m : ℚ) - gap m e / 4 < hiddenBit :=
      (mul_lt_mul_iff_left₀ hpos).1 (h.low.trans_lt hlow)
    have hle : (m : ℚ) < (hiddenBit + 1 : ℕ) := by
      push_cast
      linarith
    exact le_antisymm (Nat.le_of_lt_succ (Nat.cast_lt.1 hle)) (hx.normal.resolve_right hleast.ne')
  -- Hence the interval reaches down by a quarter of a step, which is half a step under `e - 1`.
  have hgap : gap m e = 1 := if_pos ⟨hhidden, hleast⟩
  have hpos' := two_zpow_pos (e - 1)
  have hhalf : (2 : ℚ) ^ e = 2 * 2 ^ (e - 1) := by
    rw [← zpow_one_add₀ two_ne_zero, add_sub_cancel]
  have hbelow := h.low
  rw [hgap, hhalf] at hbelow
  rw [← hhidden, hhalf] at hlow
  refine ⟨hhidden, ?_, (le_div_iff₀ hpos').2 ?_, (div_le_iff₀ hpos').2 ?_, fun _ => by omega⟩
  · have hone : (1 : ℚ) ≤ m := by rw [hhidden]; norm_num [hiddenBit]
    rw [two_zpow_add, ← hbit, ← hhidden, mul_comm]
    nlinarith
  all_goals push_cast; linarith

/-- **A fraction in the interval of a number rounds to the number:** `ofRatio negative n d` is
    `x`. -/
theorem ofRatio_around {n d : ℕ} (hx : Finite x negative m e) (hn : n ≠ 0) (hd : 0 < d)
    (h : Around m e (n / d)) : ofRatio negative n d = x := by
  have hmin := Nat.min_eq_left hx.magnitude_lt.le
  by_cases hlow : (2 : ℚ) ^ (e + 52) ≤ n / d ∨ e = -1074
  · rw [ofRatio_nearest negative hn hd hx.low hlow (h.lt_two_zpow hx.significand_lt) h.nearest,
      hmin, hx.bits_eq]
  · rw [not_or, not_le] at hlow
    have hleast : -1074 < e := lt_of_le_of_ne hx.low (Ne.symm hlow.2)
    obtain ⟨hhidden, hlow', hnearest⟩ := h.nearest_below hx hlow.1 hleast
    -- A carry out of the significand is one more in the exponent field.
    have hfields : (e - 1 + 1074).toNat * hiddenBit + 2 * m = (e + 1074).toNat * hiddenBit + m := by
      rw [show (e + 1074).toNat = (e - 1 + 1074).toNat + 1 by omega, ← hhidden]
      ring
    rw [ofRatio_nearest negative hn hd (by omega) (.inl hlow')
      (by rw [show e - 1 + 53 = e + 52 by omega]; exact hlow.1) hnearest, hfields, hmin, hx.bits_eq]

end Binary64

end BatchJournal
