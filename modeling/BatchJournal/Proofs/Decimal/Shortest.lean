import Mathlib.Tactic.LinearCombination
import BatchJournal.Decimal.Shortest
import BatchJournal.Proofs.Decimal.Reading

namespace BatchJournal

/-!
# The shortest digits round to the number

The digits of a number are sought on one decimal grid after the other, and every hit lies in the
number's interval.  On the grid of seventeen digits there is a hit, since its step is narrower than
the interval.

* `Shortest.places_bounds` — the place of the point.
* `Shortest.Written` — a decimal with as many digits as it says, in the interval of a number.
* `Shortest.written_ofFinite` — the shortest digits are such a decimal.
-/

/-- The number that a decimal stands for: `0.d₁d₂… * 10 ^ point`. -/
def Decimal.value (d : Decimal) : ℚ := d.digits * 10 ^ (d.point - d.count)

namespace Shortest

open Binary64

variable {negative : Bool} {x : Binary64} {m : ℕ} {e : ℤ}

/-! ### The interval over its denominator -/

/-- The interval of the number `m * 2 ^ e`, its ends as multiples of `1 / t.unit`. -/
structure Spans (t : Target) (m : ℕ) (e : ℤ) : Prop where
  /-- The denominator is no zero. -/
  unit_pos : 0 < t.unit
  /-- The lower end. -/
  low_eq : (t.low : ℚ) = (m - gap m e / 4) * 2 ^ e * t.unit
  /-- The number. -/
  mid_eq : (t.mid : ℚ) = m * 2 ^ e * t.unit
  /-- The upper end. -/
  high_eq : (t.high : ℚ) = (m + 1 / 2) * 2 ^ e * t.unit
  /-- The ends of an even number belong to it. -/
  closed_eq : t.closed = decide (m % 2 = 0)

theorem spans_target (hm : m ≠ 0) (e : ℤ) : Spans (target m e) m e := by
  have hgap : gap m e ≤ 4 * m := by
    rw [gap]
    split_ifs <;> omega
  -- Both cases of `target` scale four times the number and its ends by the same factor.
  have hspans : ∀ scale unit : ℕ, 0 < unit → (4 * scale : ℚ) = 2 ^ e * unit →
      Spans ⟨(4 * m - gap m e) * scale, 4 * m * scale, (4 * m + 2) * scale, unit, m % 2 = 0⟩
        m e := by
    intro scale unit hunit hscale
    refine ⟨hunit, ?_, ?_, ?_, rfl⟩
    · rw [Nat.cast_mul, Nat.cast_sub hgap]
      push_cast
      linear_combination ((m : ℚ) - gap m e / 4) * hscale
    · push_cast
      linear_combination (m : ℚ) * hscale
    · push_cast
      linear_combination ((m : ℚ) + 1 / 2) * hscale
  have hfour : (4 : ℚ) = 2 ^ (2 : ℤ) := by norm_num
  by_cases he : 0 ≤ e - 2
  · have h := hspans (1 <<< (e - 2).toNat) 1 one_pos (by
      rw [cast_shiftLeft he, Nat.cast_one, one_mul, mul_one, hfour, ← two_zpow_add, add_sub_cancel])
    simpa only [target, gap, if_pos he] using h
  · have h := hspans 1 (1 <<< (2 - e).toNat) (Nat.shiftLeft_eq _ _ ▸ by positivity) (by
      rw [cast_shiftLeft (by omega), Nat.cast_one, one_mul, mul_one, ← two_zpow_add,
        add_sub_cancel, hfour])
    simpa only [target, gap, if_neg he] using h

section

variable {t : Target}

/-- **The test of a fraction**, `t.holds`, is whether it lies in the interval of the number,
    `Around m e`. -/
theorem Spans.holds_iff (ht : Spans t m e) {n d : ℕ} (hd : 0 < d) :
    t.holds n d = true ↔ Around m e (n / d) := by
  have hd' : (0 : ℚ) < d := by exact_mod_cast hd
  have hunit : (0 : ℚ) < t.unit := by exact_mod_cast ht.unit_pos
  -- Comparing with a numerator over the common denominator is comparing with the end itself.
  have hbelow : ∀ {k : ℕ} {q : ℚ}, (k : ℚ) = q * t.unit →
      (k * d ≤ n * t.unit ↔ q ≤ n / d) ∧ (k * d < n * t.unit ↔ q < n / d) := by
    intro k q hk
    rw [← @Nat.cast_le ℚ, ← @Nat.cast_lt ℚ, le_div_iff₀ hd', lt_div_iff₀ hd', Nat.cast_mul,
      Nat.cast_mul, hk, mul_right_comm]
    exact ⟨mul_le_mul_iff_left₀ hunit, mul_lt_mul_iff_left₀ hunit⟩
  have habove : ∀ {k : ℕ} {q : ℚ}, (k : ℚ) = q * t.unit →
      (n * t.unit ≤ k * d ↔ n / d ≤ q) ∧ (n * t.unit < k * d ↔ n / d < q) := by
    intro k q hk
    obtain ⟨hle, hlt⟩ := @hbelow k q hk
    exact ⟨not_lt.symm.trans (hlt.not.trans not_lt), not_le.symm.trans (hle.not.trans not_le)⟩
  rw [Target.holds, ht.closed_eq]
  by_cases heven : m % 2 = 0
  · rw [if_pos (decide_eq_true heven), Bool.and_eq_true, decide_eq_true_iff, decide_eq_true_iff,
      (hbelow ht.low_eq).1, (habove ht.high_eq).1]
    exact ⟨fun h => ⟨h.1, h.2, fun _ => heven⟩, fun h => ⟨h.low, h.high⟩⟩
  · -- The ends of an odd number are outside, so both comparisons are strict.
    rw [if_neg (by simpa using heven), Bool.and_eq_true, decide_eq_true_iff, decide_eq_true_iff,
      (hbelow ht.low_eq).2, (habove ht.high_eq).2]
    refine ⟨fun h => ⟨h.1.le, h.2.le, fun hend => ?_⟩, fun h => ⟨?_, ?_⟩⟩
    · exact absurd hend (not_or.2 ⟨h.1.ne, h.2.ne⟩)
    · exact lt_of_le_of_ne h.low fun hend => heven (h.even (.inl hend))
    · exact lt_of_le_of_ne h.high fun hend => heven (h.even (.inr hend))

/-! ### Grids -/

theorem onGrid_pos (c : ℕ) (step : ℤ) : 0 < (onGrid c step).2 := by
  rw [onGrid]
  split_ifs
  · exact one_pos
  · exact pow_pos (by decide) _

theorem onGrid_eq (c : ℕ) (step : ℤ) :
    ((onGrid c step).1 / (onGrid c step).2 : ℚ) = c * 10 ^ step := by
  rw [onGrid]
  split_ifs with hstep
  · rw [Nat.cast_mul, cast_tenTo hstep, Nat.cast_one, div_one]
  · rw [cast_tenTo (by omega), zpow_neg, div_inv_eq_mul]

/-- The grid points on either side of the number, `t.floor step` and the next one. -/
theorem Spans.floor_bounds (ht : Spans t m e) (step : ℤ) :
    t.floor step * 10 ^ step ≤ m * (2 : ℚ) ^ e
      ∧ m * (2 : ℚ) ^ e < (t.floor step + 1) * 10 ^ step := by
  have hunit : (0 : ℚ) < t.unit := by exact_mod_cast ht.unit_pos
  -- The quotient of two naturals is the floor of their fraction.
  have hdiv : ∀ {n k : ℕ} {w : ℚ}, 0 < k → (n : ℚ) = w * k → (n / k : ℕ) ≤ w
      ∧ w < (n / k : ℕ) + 1 := by
    intro n k w hk hw
    have hk' : (0 : ℚ) < k := by exact_mod_cast hk
    have hlow : ((n / k * k : ℕ) : ℚ) ≤ n := by exact_mod_cast Nat.div_mul_le_self n k
    have hhigh : (n : ℚ) < ((n / k * k + k : ℕ) : ℚ) := by exact_mod_cast Nat.lt_div_mul_add hk
    rw [hw] at hlow hhigh
    push_cast at hlow hhigh
    exact ⟨le_of_mul_le_mul_right hlow hk', lt_of_mul_lt_mul_right (by linarith) hk'.le⟩
  have hpos := ten_zpow_pos step
  rw [← le_div_iff₀ hpos, ← div_lt_iff₀ hpos, Target.floor]
  split_ifs with hstep
  · refine hdiv (Nat.mul_pos ht.unit_pos (pow_pos (by decide) _)) ?_
    rw [Nat.cast_mul, cast_tenTo hstep, ht.mid_eq]
    field_simp
  · refine hdiv ht.unit_pos ?_
    rw [Nat.cast_mul, cast_tenTo (by omega), ht.mid_eq, zpow_neg]
    field_simp

/-- The test of a grid point: `c * 10 ^ step` is `Around m e`. -/
theorem Spans.holds_onGrid (ht : Spans t m e) (c : ℕ) (step : ℤ) :
    t.holds (onGrid c step).1 (onGrid c step).2 = true ↔ Around m e (c * 10 ^ step) := by
  rw [ht.holds_iff (onGrid_pos c step), onGrid_eq]

/-- **A hit lies in the interval,** and is one of the two neighbours of the number. -/
theorem Spans.hit_some (ht : Spans t m e) {step : ℤ} {c : ℕ} (h : t.hit step = some c) :
    Around m e (c * 10 ^ step) ∧ (c = t.floor step ∨ c = t.floor step + 1) := by
  rw [Target.hit] at h
  split at h
  · next hlower hupper =>
    rw [Bool.and_eq_true, ht.holds_onGrid] at hlower
    rw [ht.holds_onGrid] at hupper
    obtain rfl := Option.some.inj h
    -- Both neighbours qualify, and the nearer one is taken.
    split_ifs
    · exact ⟨hlower.1, .inl rfl⟩
    · exact ⟨hupper, .inr rfl⟩
  · next hlower _ =>
    rw [Bool.and_eq_true, ht.holds_onGrid] at hlower
    obtain rfl := Option.some.inj h
    exact ⟨hlower.1, .inl rfl⟩
  · next _ hupper =>
    rw [ht.holds_onGrid] at hupper
    obtain rfl := Option.some.inj h
    exact ⟨hupper, .inr rfl⟩
  · exact nomatch h

/-- Without a `hit`, both neighbours of the number lie outside the interval. -/
theorem Spans.hit_none (ht : Spans t m e) {step : ℤ} (h : t.hit step = none)
    (hfloor : t.floor step ≠ 0) :
    ¬ Around m e (t.floor step * 10 ^ step)
      ∧ ¬ Around m e ((t.floor step + 1 : ℕ) * 10 ^ step) := by
  rw [Target.hit] at h
  split at h
  · exact nomatch h
  · exact nomatch h
  · exact nomatch h
  · next hlower hupper =>
    rw [← ht.holds_onGrid, ← ht.holds_onGrid]
    refine ⟨fun hholds => ?_, Bool.eq_false_iff.1 hupper⟩
    rw [hholds, Bool.true_and] at hlower
    exact absurd (bne_iff_ne.2 hfloor) (Bool.eq_false_iff.1 hlower)

end

/-! ### Seventeen digits -/

/-- The number lies in its own interval, and so does all that is nearer than the ends:
    `Around m e v`. -/
theorem around_of_lt {v : ℚ} (hlow : (m - gap m e / 4) * 2 ^ e < v)
    (hhigh : v < (m + 1 / 2) * 2 ^ e) : Around m e v :=
  ⟨hlow.le, hhigh.le, fun hend => absurd hend (not_or.2 ⟨hlow.ne, hhigh.ne⟩)⟩

theorem around_self (m : ℕ) (e : ℤ) : Around m e (m * 2 ^ e) := by
  have hpos := two_zpow_pos e
  have hgap : (0 : ℚ) < gap m e := by
    rw [gap]
    split_ifs <;> norm_num
  refine around_of_lt ?_ ?_
  · exact mul_lt_mul_of_pos_right (by linarith) hpos
  · exact mul_lt_mul_of_pos_right (by linarith) hpos

/-- The significand `m` is too small for the interval to lie within a step of seventeen digits. -/
theorem significand_lt_grid (hx : Finite x negative m e) :
    (m : ℚ) < 10 ^ (16 : ℤ) * (1 / 2 + gap m e / 4) := by
  have hm : (m : ℚ) < 2 ^ (53 : ℤ) := by exact_mod_cast hx.significand_lt
  rw [gap]
  split_ifs with hbit
  · rw [hbit.1]
    norm_num [hiddenBit]
  · norm_num at hm ⊢
    linarith

/-- **A grid of seventeen digits is narrower than the interval,** so that `hit` finds a point of
    it. -/
theorem hit_seventeen (hx : Finite x negative m e) (hm : m ≠ 0) {step : ℤ}
    (hstep : 10 ^ (step + 16) ≤ m * (2 : ℚ) ^ e) : (target m e).hit step ≠ none := by
  intro hnone
  have ht := spans_target hm e
  obtain ⟨hfloor, hfloor'⟩ := ht.floor_bounds step
  have hgrid := ten_zpow_pos step
  have hpos := two_zpow_pos e
  have hself := around_self m e
  rw [ten_zpow_add] at hstep
  have hne : (target m e).floor step ≠ 0 := by
    intro hzero
    rw [hzero, Nat.cast_zero, zero_add, one_mul] at hfloor'
    norm_num at hstep
    linarith
  obtain ⟨hlower, hupper⟩ := ht.hit_none hnone hne
  push_cast at hupper
  generalize ((target m e).floor step : ℚ) = c at hfloor hfloor' hlower hupper
  -- The interval lies between the two neighbours, so the step is at least as wide.
  have hlow : c * 10 ^ step ≤ (m - gap m e / 4) * 2 ^ e := by
    by_contra hlt
    refine hlower (around_of_lt (not_le.1 hlt) (hfloor.trans_lt ?_))
    exact mul_lt_mul_of_pos_right (by linarith) hpos
  have hhigh : (m + 1 / 2) * 2 ^ e ≤ (c + 1) * 10 ^ step := by
    by_contra hlt
    refine hupper (around_of_lt (lt_of_le_of_lt ?_ hfloor') (not_le.1 hlt))
    exact hself.low
  have hwide : (1 / 2 + gap m e / 4) * 2 ^ e ≤ (10 : ℚ) ^ step := by linarith
  have hmany : 10 ^ (16 : ℤ) * (1 / 2 + gap m e / 4) * 2 ^ e ≤ (m : ℚ) * 2 ^ e :=
    calc 10 ^ (16 : ℤ) * (1 / 2 + gap m e / 4) * 2 ^ e
        = (1 / 2 + gap m e / 4) * 2 ^ e * (10 : ℚ) ^ (16 : ℤ) := by ring
      _ ≤ 10 ^ step * 10 ^ (16 : ℤ) := mul_le_mul_of_nonneg_right hwide (ten_zpow_pos _).le
      _ ≤ m * 2 ^ e := hstep
  exact absurd (le_of_mul_le_mul_right hmany hpos) (significand_lt_grid hx).not_ge

/-! ### The place of the point -/

/-- The test of a number of places: whether `m * 2 ^ e` is below `10 ^ p`. -/
theorem Spans.lt_places_iff {t : Target} (ht : Spans t m e) (p : ℤ) :
    (t.mid < t.unit * tenTo p.toNat ∧ 0 ≤ p ∨ t.mid * tenTo (-p).toNat < t.unit ∧ p < 0)
      ↔ m * (2 : ℚ) ^ e < 10 ^ p := by
  have hunit : (0 : ℚ) < t.unit := by exact_mod_cast ht.unit_pos
  rw [← @Nat.cast_lt ℚ, ← @Nat.cast_lt ℚ, Nat.cast_mul, Nat.cast_mul, ht.mid_eq]
  rcases le_or_gt 0 p with hp | hp
  · rw [cast_tenTo hp, mul_comm (t.unit : ℚ), mul_lt_mul_iff_left₀ hunit]
    simp only [hp, hp.not_gt, and_true, and_false, or_false]
  · rw [@cast_tenTo (-p) (by omega), mul_right_comm _ (t.unit : ℚ), mul_lt_iff_lt_one_left hunit,
      zpow_neg, mul_inv_lt_iff₀ (ten_zpow_pos p), one_mul]
    simp only [hp, hp.not_ge, and_true, and_false, false_or]

/-- **The estimate of the logarithm** is at most two too low, and not too high: so `places` need
    only try three. -/
theorem estimate_bounds (hx : Finite x negative m e) (hm : m ≠ 0) {l : ℤ}
    (hlow : (2 : ℚ) ^ l < m * 2 ^ e) (hhigh : m * (2 : ℚ) ^ e < 2 ^ (l + 2)) :
    10 ^ (l * 30103 / 100000 - 1) ≤ m * (2 : ℚ) ^ e
      ∧ m * (2 : ℚ) ^ e < 10 ^ (l * 30103 / 100000 + 3) := by
  have hself := around_self m e
  have hexp : ∀ {a b : ℤ} {v : ℚ}, (2 : ℚ) ^ a ≤ v → v < 2 ^ b → a < b :=
    fun h h' => (zpow_lt_zpow_iff_right₀ one_lt_two).1 (h.trans_lt h')
  have h₁ := hexp hlow.le (hself.lt_two_zpow hx.significand_lt)
  have h₂ := hexp (hself.two_zpow_le hm) hhigh
  have h₃ := hx.low
  have h₄ := hx.high
  exact ⟨(ten_zpow_le_two (by omega) (by omega)).trans hlow.le,
    hhigh.trans_le (two_zpow_le_ten (by omega) (by omega))⟩

/-- The powers of ten that a number lies between: `places` is the upper one. -/
theorem places_bounds (hx : Finite x negative m e) (hm : m ≠ 0) :
    10 ^ ((target m e).places - 1) ≤ m * (2 : ℚ) ^ e
      ∧ m * (2 : ℚ) ^ e < 10 ^ (target m e).places := by
  have ht := spans_target hm e
  generalize target m e = t at ht
  have hunit : (0 : ℚ) < t.unit := by exact_mod_cast ht.unit_pos
  have hmid : t.mid ≠ 0 := by
    have hpos : (0 : ℚ) < t.mid := by
      rw [ht.mid_eq]
      have : (0 : ℚ) < m := by exact_mod_cast Nat.pos_of_ne_zero hm
      have := two_zpow_pos e
      positivity
    exact (Nat.cast_pos.1 hpos).ne'
  obtain ⟨hlow, hhigh⟩ := quotient_bounds hmid ht.unit_pos
  rw [ht.mid_eq, mul_div_cancel_right₀ _ hunit.ne'] at hlow hhigh
  have hestimate := estimate_bounds hx hm hlow (by
    rwa [show ∀ a b : ℤ, a - b - 1 + 2 = a - b + 1 by omega])
  rw [Target.places]
  simp only [decide_eq_true_iff, ht.lt_places_iff]
  generalize ((t.mid.log2 : ℤ) - t.unit.log2 - 1) * 30103 / 100000 = p at hestimate
  -- A test that fails bounds the number from below, and one that holds from above.
  split_ifs with h₀ h₁ h₂
  · exact ⟨hestimate.1, h₀⟩
  · exact ⟨by rw [add_sub_cancel_right]; exact not_lt.1 h₀, h₁⟩
  · exact ⟨by rw [show p + 2 - 1 = p + 1 by omega]; exact not_lt.1 h₁, h₂⟩
  · exact ⟨by rw [show p + 3 - 1 = p + 2 by omega]; exact not_lt.1 h₂, hestimate.2⟩

/-! ### The search -/

/-- **A decimal that stands for a number:** it has `count` digits, the first of them no zero, and
    its value is `Around m e`. -/
structure Written (m : ℕ) (e : ℤ) (d : Decimal) : Prop where
  /-- There is a digit. -/
  count_pos : 0 < d.count
  /-- The first digit is no zero. -/
  first : 10 ^ (d.count - 1) ≤ d.digits
  /-- There are not more digits. -/
  last : d.digits < 10 ^ d.count
  /-- The decimal rounds to the number. -/
  around : Around m e d.value

/-- A hit on the grid of `n` digits is a decimal of so many digits, or the next power of ten. -/
theorem written_of_hit (hx : Finite x negative m e) (hm : m ≠ 0) {n c : ℕ} (hn : 0 < n)
    (h : (target m e).hit ((target m e).places - n) = some c) :
    Written m e
      (if c = tenTo n then ⟨1, 1, (target m e).places + 1⟩ else ⟨c, n, (target m e).places⟩) := by
  have ht := spans_target hm e
  obtain ⟨haround, hneighbour⟩ := ht.hit_some h
  obtain ⟨hlow, hhigh⟩ := places_bounds hx hm
  obtain ⟨hfloor, hfloor'⟩ := ht.floor_bounds ((target m e).places - n)
  generalize (target m e).places = p at *
  generalize (target m e).floor (p - n) = f at *
  have hgrid := ten_zpow_pos (p - n)
  have hpower : (10 : ℚ) ^ p = (10 ^ n : ℕ) * 10 ^ (p - n) := by
    rw [Nat.cast_pow, ← zpow_natCast, Nat.cast_ofNat, ← ten_zpow_add]
    congr 1
    omega
  have hpower' : (10 : ℚ) ^ (p - 1) = (10 ^ (n - 1) : ℕ) * 10 ^ (p - n) := by
    rw [Nat.cast_pow, ← zpow_natCast, Nat.cast_ofNat, ← ten_zpow_add]
    congr 1
    omega
  have hfew : f < 10 ^ n := by
    refine (@Nat.cast_lt ℚ _ _ _ _ _ _).1 (lt_of_mul_lt_mul_right ?_ hgrid.le)
    exact hfloor.trans_lt (hpower ▸ hhigh)
  have hmany : 10 ^ (n - 1) ≤ f := by
    have hlt : ((10 ^ (n - 1) : ℕ) : ℚ) < (f + 1 : ℕ) := by
      refine lt_of_mul_lt_mul_right ?_ hgrid.le
      push_cast at hfloor' hpower' ⊢
      exact (hpower' ▸ hlow).trans_lt hfloor'
    exact Nat.le_of_lt_succ (Nat.cast_lt.1 hlt)
  -- The grid point above the greatest number of `n` digits is the next power of ten.
  split_ifs with hten
  · refine ⟨one_pos, le_rfl, Nat.one_lt_pow one_ne_zero (by decide), ?_⟩
    rw [hten] at haround
    show Around m e ((1 : ℕ) * 10 ^ (p + 1 - (1 : ℕ)))
    rw [Nat.cast_one, one_mul, Nat.cast_one, add_sub_cancel_right, hpower]
    exact haround
  · have hten' : c ≠ 10 ^ n := hten
    refine ⟨hn, ?_, ?_, haround⟩
    all_goals
      dsimp only
      omega

/-- **The search ends with a hit,** on the grid of seventeen digits if not before: `search` gives a
    decimal that is `Written`. -/
theorem written_search (hx : Finite x negative m e) (hm : m ≠ 0) :
    ∀ fuel n, 0 < n → n + fuel = 17 →
      Written m e ((target m e).search (target m e).places (fuel + 1) n) := by
  -- The fuel counts the grids that are left, the last of which has seventeen digits.
  intro fuel
  induction fuel with
  | zero =>
    rintro n hn rfl
    rw [Target.search]
    split
    · next c h => exact written_of_hit hx hm hn h
    · next hnone =>
      refine absurd hnone (hit_seventeen hx hm ?_)
      exact (places_bounds hx hm).1.trans_eq' (congrArg _ (by push_cast; ring))
  | succ fuel ih =>
    intro n hn hsum
    rw [Target.search]
    split
    · next c h => exact written_of_hit hx hm hn h
    · exact ih (n + 1) (Nat.succ_pos n) (by omega)

/-- Zeros at the end of the digits say nothing: without them the decimal is still `Written`. -/
theorem written_dropZeros : ∀ {digits count : ℕ} {point : ℤ},
    Written m e ⟨digits, count, point⟩ →
      Written m e ⟨(dropZeros digits count).1, (dropZeros digits count).2, point⟩ := by
  intro digits count
  induction count generalizing digits with
  | zero => exact fun h => h
  | succ count ih =>
    intro point h
    rw [dropZeros]
    split_ifs with hzero
    · obtain ⟨hmod, hcount⟩ := hzero
      have hdiv : digits = digits / 10 * 10 := by omega
      refine ih ⟨Nat.pos_of_ne_zero hcount, ?_, ?_, ?_⟩
      · have hfirst : 10 ^ (count - 1) * 10 ≤ digits := by
          rw [← pow_succ, Nat.sub_add_cancel (Nat.pos_of_ne_zero hcount)]
          exact h.first
        exact (Nat.le_div_iff_mul_le (by decide)).2 hfirst
      · exact Nat.div_lt_of_lt_mul (pow_succ' 10 count ▸ h.last)
      · -- The value stays, for the exponent grows by one as the digit is lost.
        have hvalue : Decimal.value ⟨digits / 10, count, point⟩
            = Decimal.value ⟨digits, count + 1, point⟩ := by
          have hexponent : point - (count : ℤ) = 1 + (point - (count + 1 : ℕ)) := by
            push_cast
            ring
          rw [Decimal.value, Decimal.value]
          dsimp only
          rw [hexponent, ten_zpow_add, zpow_one, ← mul_assoc]
          congr 1
          exact_mod_cast hdiv.symm
        exact hvalue ▸ h.around
    · exact h

/-- **The shortest digits of a number** round to it: `ofFinite m e` is `Written m e`. -/
theorem written_ofFinite (hx : Finite x negative m e) (hm : m ≠ 0) :
    Written m e (ofFinite m e) :=
  written_dropZeros (written_search hx hm 16 1 one_pos rfl)

end Shortest

end BatchJournal
