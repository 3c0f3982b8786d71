import Mathlib.Data.List.Basic
import Mathlib.Tactic.IntervalCases

namespace BatchJournal

/-!
# Decimal digits

* `WholeDigits` — the digits of a whole number, none of them in vain.
* `wholeDigits_toDigits` — a number is written with such digits.
-/

/-- A number other than zero has no `'0'` in front. -/
theorem head?_toDigits (n : Nat) (h : (Nat.toDigits 10 n).head? = some '0') : n = 0 := by
  induction n using Nat.strongRecOn with
  | ind n ih =>
    by_cases hlt : n < 10
    · rw [Nat.toDigits_of_lt_base hlt] at h
      interval_cases n <;> first | rfl | exact nomatch h
    · have hle := Nat.le_of_not_lt hlt
      have hne : Nat.toDigits 10 (n / 10) ≠ [] := List.ne_nil_of_length_pos Nat.length_toDigits_pos
      rw [Nat.toDigits_of_base_le (by decide) hle, List.head?_append_of_ne_nil _ hne] at h
      have hzero := ih (n / 10) (by omega) h
      omega

/-- The digits of a whole number: a `'0'` comes first only if it is the only one. -/
structure WholeDigits (cs : List Char) : Prop where
  /-- There is a digit. -/
  ne_nil : cs ≠ []
  /-- All are decimal digits. -/
  digits : ∀ c ∈ cs, c.isDigit = true
  /-- No zero stands before others. -/
  first : cs.head? = some '0' → cs = ['0']

/-- **A number is written with its digits:** `Nat.toDigits 10 n` are `WholeDigits`. -/
theorem wholeDigits_toDigits (n : Nat) : WholeDigits (Nat.toDigits 10 n) where
  ne_nil := List.ne_nil_of_length_pos Nat.length_toDigits_pos
  digits _ hc := Nat.isDigit_of_mem_toDigits (by decide) (by decide) hc
  first h := by rw [head?_toDigits n h, Nat.toDigits_zero]

end BatchJournal
