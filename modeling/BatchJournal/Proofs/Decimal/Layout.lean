import BatchJournal.Decimal.Notation
import BatchJournal.Proofs.Decimal.Shortest
import BatchJournal.Proofs.Text.Digits

namespace BatchJournal

/-!
# A number in positional layout reads as the number

However the point falls, the digits on its two sides are the digits of the decimal with zeros before
or behind them, and the length of the fraction makes up for the zeros.

* `Notation.Positional` — the two sides of a point, and what they stand for.
* `Notation.positional_eq` — the positional layout has two sides.
* `Notation.saved_finite` — the saved text of a finite number, which reads as the number.
-/

namespace Notation

open Binary64 (Finite Around)

/-- Digits on either side of a point: `whole` and `fraction` stand for `v`. -/
structure Positional (whole fraction : List Char) (v : ℚ) : Prop where
  /-- The whole part. -/
  whole_digits : WholeDigits whole
  /-- There is a fraction. -/
  fraction_ne : fraction ≠ []
  /-- The fraction has decimal digits. -/
  fraction_digits : ∀ c ∈ fraction, c.isDigit = true
  /-- The number that they stand for. -/
  value_eq : (Nat.ofDigitChars 10 (whole ++ fraction) 0 : ℚ) * 10 ^ (-(fraction.length : ℤ)) = v

theorem isDigit_replicate_zero {n : ℕ} {c : Char} (h : c ∈ List.replicate n '0') :
    c.isDigit = true := by
  rw [(List.mem_replicate.1 h).2]
  rfl

/-- **The positional layout of digits** that begin with no zero, one fraction digit at least:
    `positional 1` gives two sides that are `Positional`. -/
theorem positional_eq {cs : List Char} (h : WholeDigits cs) (hfirst : cs.head? ≠ some '0')
    (point : ℤ) : ∃ whole fraction, positional 1 cs point = whole ++ '.' :: fraction
      ∧ Positional whole fraction
        (Nat.ofDigitChars 10 cs 0 * 10 ^ (point - (cs.length : ℤ))) := by
  rcases le_or_gt point 0 with hpoint | hpoint
  · -- Zeros before the digits.
    obtain ⟨k, rfl⟩ : ∃ k : ℕ, point = -k := ⟨(-point).toNat, by omega⟩
    have hpadding : 1 - (List.replicate k '0' ++ cs).length = 0 := by
      have hpos := List.length_pos_iff.2 h.ne_nil
      rw [List.length_append]
      omega
    refine ⟨['0'], List.replicate k '0' ++ cs, ?_, ⟨by simp, by simp, fun _ => rfl⟩, ?_, ?_, ?_⟩
    · simp only [positional, if_pos hpoint, neg_neg, Int.toNat_natCast, hpadding,
        List.replicate_zero, List.append_nil]
      rw [if_neg (by simp [h.ne_nil])]
    · simp [h.ne_nil]
    · intro c hc
      exact (List.mem_append.1 hc).elim isDigit_replicate_zero (h.digits c)
    · have hvalue : Nat.ofDigitChars 10 (['0'] ++ (List.replicate k '0' ++ cs)) 0
          = Nat.ofDigitChars 10 cs 0 := by
        rw [Nat.ofDigitChars_append, Nat.ofDigitChars_append, Nat.ofDigitChars_replicate_zero]
        rfl
      rw [hvalue, List.length_append, List.length_replicate]
      congr 2
      push_cast
      ring
  obtain ⟨k, rfl⟩ : ∃ k : ℕ, point = k := ⟨point.toNat, by omega⟩
  have hwhole : ∀ n, WholeDigits (cs.take k ++ List.replicate n '0') := by
    intro n
    obtain ⟨c, cs, rfl⟩ := List.exists_cons_of_ne_nil h.ne_nil
    obtain ⟨k, rfl⟩ : ∃ j, k = j + 1 := ⟨k - 1, by omega⟩
    refine ⟨by simp, fun d hd => ?_, fun hzero => absurd hzero hfirst⟩
    exact (List.mem_append.1 hd).elim (fun hd => h.digits d (List.mem_of_mem_take hd))
      isDigit_replicate_zero
  have hfraction : cs.drop k ++ List.replicate (1 - (cs.length - k)) '0' ≠ [] := by
    rw [ne_eq, List.append_eq_nil_iff, List.drop_eq_nil_iff, List.replicate_eq_nil_iff]
    omega
  have hpositional : positional 1 cs k = cs.take k ++ List.replicate (k - cs.length) '0'
      ++ '.' :: (cs.drop k ++ List.replicate (1 - (cs.length - k)) '0') := by
    simp only [positional, if_neg hpoint.not_ge, Int.toNat_natCast, List.length_drop]
    rw [if_neg (by rwa [List.isEmpty_iff])]
  refine ⟨_, _, hpositional, hwhole _, hfraction, ?_, ?_⟩
  · intro c hc
    exact (List.mem_append.1 hc).elim (fun hd => h.digits c (List.mem_of_mem_drop hd))
      isDigit_replicate_zero
  · rcases Nat.lt_or_ge k cs.length with hk | hk
    · -- The point between two digits.
      rw [Nat.sub_eq_zero_of_le hk.le, show 1 - (cs.length - k) = 0 by omega, List.replicate_zero,
        List.append_nil, List.append_nil, List.take_append_drop, List.length_drop,
        Nat.cast_sub hk.le, neg_sub]
    · -- Zeros behind the digits, and one more for the fraction.
      rw [List.take_of_length_le hk, List.drop_of_length_le hk, Nat.sub_eq_zero_of_le hk,
        List.nil_append, Nat.ofDigitChars_append, Nat.ofDigitChars_append,
        Nat.ofDigitChars_replicate_zero, Nat.ofDigitChars_replicate_zero, List.length_replicate]
      generalize Nat.ofDigitChars 10 cs 0 = n
      have hshift : (k : ℤ) - cs.length = (k - cs.length : ℕ) := by omega
      rw [hshift, zpow_natCast]
      push_cast
      ring

/-- The digits of a `Written` decimal are those that it counts. -/
theorem digitChars_eq {m : ℕ} {e : ℤ} {d : Decimal} (h : Shortest.Written m e d) :
    digitChars d = Nat.toDigits 10 d.digits ∧ (Nat.toDigits 10 d.digits).length = d.count := by
  have hpos := h.count_pos
  have hlength : (Nat.toDigits 10 d.digits).length = d.count := by
    refine le_antisymm ((Nat.length_toDigits_le_iff (by decide) hpos).2 h.last) ?_
    rcases Nat.eq_or_lt_of_le hpos with hone | hmore
    · exact hone ▸ Nat.length_toDigits_pos
    · by_contra hlt
      have := (Nat.length_toDigits_le_iff (by decide) (Nat.sub_pos_of_lt hmore)).1
        (Nat.le_sub_one_of_lt (not_le.1 hlt))
      exact absurd h.first this.not_ge
  refine ⟨?_, hlength⟩
  rw [digitChars, hlength, Nat.sub_self, List.replicate_zero, List.nil_append]

/-! ### Saved numbers -/

/-- A sign in front of a text: `-`, if the number is `negative`. -/
def signed (negative : Bool) (cs : List Char) : List Char :=
  if negative then '-' :: cs else cs

theorem signed_append (negative : Bool) (cs rest : List Char) :
    signed negative cs ++ rest = signed negative (cs ++ rest) := by
  cases negative <;> rfl

/-- **The saved text of a finite number:** two sides of a `.` that are `Positional` for a number
    which `ofDecimal` reads as `x`. -/
theorem saved_finite {x : Binary64} {negative : Bool} {m : ℕ} {e : ℤ}
    (h : x.value = .finite negative m e) : ∃ whole fraction v,
      (saved.text x).toList = signed negative (whole ++ '.' :: fraction)
        ∧ Positional whole fraction v
        ∧ Binary64.ofDecimal negative (Nat.ofDigitChars 10 (whole ++ fraction) 0)
          (-(fraction.length : ℤ)) = x := by
  have hx := Finite.of_value h
  have hsign : ∀ cs, (if negative = true then ['-'] else []) ++ cs = signed negative cs := by
    intro cs
    cases negative <;> rfl
  rw [text, h]
  cases m with
  -- Zero has a layout of its own, for its digits are not the shortest of anything.
  | zero =>
    refine ⟨['0'], ['0'], 0, ?_,
      ⟨wholeDigits_toDigits 0, by simp, by simp, by simp [Nat.ofDigitChars]⟩, ?_⟩
    · show (String.ofList ((if negative = true then ['-'] else []) ++ ['0', '.', '0'])).toList = _
      rw [String.toList_ofList, hsign]
      rfl
    · exact Binary64.ofDecimal_zero hx _
  | succ m =>
    have hwritten := Shortest.written_ofFinite hx (Nat.succ_ne_zero m)
    show ∃ whole fraction v, (String.ofList ((if negative = true then ['-'] else []) ++
      saved.ofDecimal (Shortest.ofFinite (m + 1) e))).toList = _ ∧ _
    generalize Shortest.ofFinite (m + 1) e = d at hwritten ⊢
    obtain ⟨hchars, hcount⟩ := digitChars_eq hwritten
    have hpositive : d.digits ≠ 0 := by
      have := hwritten.first
      have := pow_pos (show 0 < 10 by decide) (d.count - 1)
      omega
    -- No zero stands in front, so that the layout keeps all digits and adds only zeros to them.
    obtain ⟨whole, fraction, htext, hpositional⟩ := positional_eq (wholeDigits_toDigits d.digits)
      (fun hhead => hpositive (head?_toDigits d.digits hhead)) d.point
    refine ⟨whole, fraction, _, ?_, hpositional, ?_⟩
    · rw [String.toList_ofList, hsign, ← htext, ← hchars]
      rfl
    · -- The digits are in the interval of the number, and all that is there reads as the number.
      refine Binary64.ofDecimal_around hx (Nat.succ_ne_zero m) ?_
      rw [hpositional.value_eq, Nat.ofDigitChars_ten_toDigits, hcount]
      exact hwritten.around

/-- The saved text of an infinity: `inf`, with its sign. -/
theorem saved_infinite {x : Binary64} {negative : Bool} (h : x.value = .infinite negative) :
    (saved.text x).toList = signed negative "inf".toList := by
  rw [text, h]
  show (String.ofList ((if negative = true then ['-'] else []) ++ "inf".toList)).toList = _
  rw [String.toList_ofList]
  cases negative <;> rfl

/-- The saved text of a NaN: `nan`, whatever its bits. -/
theorem saved_nan {x : Binary64} (h : x.value = .nan) : (saved.text x).toList = "nan".toList := by
  rw [text, h]
  rfl

end Notation

end BatchJournal
