import BatchJournal.Proofs.Decimal.Layout
import BatchJournal.Proofs.Text.Parsing
import BatchJournal.Toml.Reader

namespace BatchJournal

/-!
# Numbers are read back

A value is tried as a text, a truth value, a date, a number with a point, a special number and a
whole number, in this order, so a number is read by the parser that is meant for it only because
the ones before it fail.

* `Toml.dateTime_none` — digits without a hyphen or a colon are no date.
* `Toml.scalar_count` — the digits of a count are read as the count.
* `Toml.scalar_saved` — the saved text of a number is read as the number.
-/

namespace Toml

open BatchJournal.Parser

/-! ### Digits -/

/-- The value of a decimal digit: its distance from `'0'`. -/
def digitValue (c : Char) : Nat := c.toNat - 48

theorem isDigit_iff (c : Char) : c.isDigit = true ↔ '0' ≤ c ∧ c ≤ '9' := by
  rw [Char.isDigit, Bool.and_eq_true, decide_eq_true_iff, decide_eq_true_iff]
  rfl

theorem toNat_le_toNat {c d : Char} (h : c ≤ d) : c.toNat ≤ d.toNat := h

/-- The digits below ten are the decimal ones: `Char.isDigit` and `digitValue`. -/
theorem value?_lt_ten (c : Char) : (Hex.value? c).any (· < 10) = c.isDigit
    ∧ (c.isDigit = true → (Hex.value? c).getD 0 = digitValue c) := by
  by_cases hdigit : c.isDigit = true
  · have hrange := (isDigit_iff c).1 hdigit
    have hle := toNat_le_toNat hrange.2
    rw [Hex.value?, if_pos hrange, hdigit]
    refine ⟨decide_eq_true ?_, fun _ => rfl⟩
    change c.toNat ≤ 57 at hle
    omega
  · have hrange : ¬ ('0' ≤ c ∧ c ≤ '9') := fun h => hdigit ((isDigit_iff c).2 h)
    rw [Hex.value?, if_neg hrange, Bool.eq_false_iff.2 hdigit]
    refine ⟨?_, fun h => nomatch h⟩
    split_ifs with hlower hupper
    · have hle : 97 ≤ c.toNat := toNat_le_toNat hlower.1
      exact decide_eq_false (by omega)
    · have hle : 65 ≤ c.toNat := toNat_le_toNat hupper.1
      exact decide_eq_false (by omega)
    · rfl

theorem digitBelow_digit {c : Char} (h : c.isDigit = true) (s : List Char) :
    digitBelow 10 (c :: s) = some (digitValue c, s) := by
  obtain ⟨hbelow, hvalue⟩ := value?_lt_ten c
  refine (bind_some (satisfy_cons (hbelow.trans h) s) _).trans ?_
  rw [hvalue h]
  rfl

theorem digitBelow_none {s : List Char} (h : Stops Char.isDigit s) : digitBelow 10 s = none :=
  bind_none (satisfy_none (h.imp fun c hc => (value?_lt_ten c).1 ▸ hc)) _

theorem ne_of_isDigit {c d : Char} (hc : c.isDigit = true) (hd : d.isDigit = false) : c ≠ d := by
  rintro rfl
  exact absurd hc (Bool.eq_false_iff.1 hd)

/-- A character that goes on with digits: a decimal digit or `_`. -/
def goesOn (c : Char) : Bool := c.isDigit || c = '_'

theorem rounds_digits {cs rest : List Char} (h : ∀ c ∈ cs, c.isDigit = true)
    (hrest : Stops goesOn rest) :
    Rounds (do let _ ← Parser.optional (char '_'); digitBelow 10) (cs.map digitValue) (cs ++ rest)
      rest := by
  induction cs with
  | nil =>
    have hmark : Stops (· = '_') rest := hrest.imp fun c hc => by
      rw [goesOn, hc, Bool.or_true]
    have hdigit : Stops Char.isDigit rest := hrest.imp fun c hc => by rw [goesOn, hc, Bool.true_or]
    exact .stop ((bind_some (optional_none (char_none hmark)) _).trans (digitBelow_none hdigit))
  | cons c cs ih =>
    obtain ⟨hc, hcs⟩ := List.forall_mem_cons.1 h
    have hmark : char '_' (c :: (cs ++ rest)) = none := char_ne (ne_of_isDigit hc rfl) _
    exact .round ((bind_some (optional_none hmark) _).trans (digitBelow_digit hc _))
      (Nat.lt_succ_self _) (ih hcs)

/-- `digits 10` takes digits up to a character that does not go on with them. -/
theorem digits_eq {cs rest : List Char} (hne : cs ≠ []) (h : ∀ c ∈ cs, c.isDigit = true)
    (hrest : Stops goesOn rest) : digits 10 (cs ++ rest) = some (cs.map digitValue, rest) := by
  obtain ⟨c, cs, rfl⟩ := List.exists_cons_of_ne_nil hne
  obtain ⟨hc, hcs⟩ := List.forall_mem_cons.1 h
  refine (bind_some (digitBelow_digit hc _) _).trans ?_
  exact (bind_some (many_eq (rounds_digits hcs hrest)) _).trans rfl

/-- The number of the digits: `ofDigits 10` is `Nat.ofDigitChars 10`. -/
theorem ofDigits_map (cs : List Char) :
    ofDigits 10 (cs.map digitValue) = Nat.ofDigitChars 10 cs 0 :=
  List.foldl_map

/-! ### Whole numbers -/

open Notation (signed)

/-- A character other than `+` and `-` is no sign. -/
theorem sign_none {c : Char} (hplus : c ≠ '+') (hminus : c ≠ '-') (s : List Char) :
    sign (c :: s) = some (false, c :: s) := by
  have hnone : Stops (fun c => c = '+' || c = '-') (c :: s) :=
    .cons (Bool.or_eq_false_iff.2 ⟨decide_eq_false hplus, decide_eq_false hminus⟩) s
  exact (bind_some (optional_none (satisfy_none hnone)) _).trans rfl

theorem sign_minus (s : List Char) : sign ('-' :: s) = some (true, s) :=
  (bind_some (optional_some (satisfy_cons rfl s)) _).trans rfl

theorem sign_signed (negative : Bool) {c : Char} (hplus : c ≠ '+') (hminus : c ≠ '-')
    (s : List Char) : sign (signed negative (c :: s)) = some (negative, c :: s) := by
  cases negative with
  | false => exact sign_none hplus hminus s
  | true => exact sign_minus _

/-- **A whole number** with its sign: `decimal` takes its digits. -/
theorem decimal_eq (negative : Bool) {cs rest : List Char} (h : WholeDigits cs)
    (hrest : Stops goesOn rest) :
    decimal (signed negative (cs ++ rest)) = some ((negative, cs.map digitValue), rest) := by
  obtain ⟨c, cs, rfl⟩ := List.exists_cons_of_ne_nil h.ne_nil
  have hc := h.digits c List.mem_cons_self
  have hsign := sign_signed negative (@ne_of_isDigit c '+' hc rfl)
    (@ne_of_isDigit c '-' hc rfl) (cs ++ rest)
  refine (bind_some hsign _).trans ?_
  refine (@bind_some _ _ peek _ _ _ rfl _).trans ?_
  rw [List.head?_cons]
  by_cases hzero : c = '0'
  · obtain rfl := hzero
    obtain rfl := (List.cons.inj (h.first rfl)).2
    rw [if_pos rfl]
    exact (bind_some (char_cons '0' rest) _).trans rfl
  · rw [if_neg fun hhead => hzero (Option.some.inj hhead)]
    exact (bind_some (digits_eq h.ne_nil h.digits hrest) _).trans rfl

/-- No whole number begins with a character that is neither a sign nor a digit: `decimal` fails. -/
theorem decimal_none (negative : Bool) {c : Char} (hplus : c ≠ '+') (hminus : c ≠ '-')
    (hdigit : c.isDigit = false) (s : List Char) : decimal (signed negative (c :: s)) = none := by
  refine (bind_some (sign_signed negative hplus hminus s) _).trans ?_
  refine (@bind_some _ _ peek _ _ _ rfl _).trans ?_
  rw [List.head?_cons, if_neg]
  · exact bind_none (bind_none (digitBelow_none (.cons hdigit s)) _) _
  · rintro ⟨⟩
    exact nomatch hdigit

theorem inRange_eq {n : Int} (h : -0x8000000000000000 ≤ n ∧ n < 0x8000000000000000)
    (s : List Char) : inRange n s = some (n, s) := by
  rw [inRange, if_pos h]
  rfl

/-- The mark of a base is a zero and a letter, as `0x`, and no whole number begins so. -/
theorem literal_mark {cs rest : List Char} (h : WholeDigits cs) {mark : String} {letter : Char}
    (hmark : mark.toList = ['0', letter]) (hrest : Stops (· = letter) rest) :
    literal mark (cs ++ rest) = none := by
  obtain ⟨c, cs, rfl⟩ := List.exists_cons_of_ne_nil h.ne_nil
  by_cases hzero : c = '0'
  · obtain rfl := hzero
    obtain rfl := (List.cons.inj (h.first rfl)).2
    refine literal_none ?_
    rw [hmark]
    exact (Bool.and_eq_false_iff.2 (.inr (isPrefixOf_stops hrest [])))
  · exact literal_ne hmark (Ne.symm hzero) _

/-- **The digits of a count are read as the count** by `integer`, below `2 ^ 63`. -/
theorem integer_eq {cs rest : List Char} (h : WholeDigits cs) (hrest : Stops goesOn rest)
    (hmark : ∀ letter ∈ ['x', 'o', 'b'], Stops (· = letter) rest)
    (hrange : Nat.ofDigitChars 10 cs 0 < 0x8000000000000000) :
    integer (cs ++ rest) = some ((Nat.ofDigitChars 10 cs 0 : Int), rest) := by
  refine (either_right (bind_none (literal_mark h rfl (hmark 'x' (by simp))) _) _).trans ?_
  refine (either_right (bind_none (literal_mark h rfl (hmark 'o' (by simp))) _) _).trans ?_
  refine (either_right (bind_none (literal_mark h rfl (hmark 'b' (by simp))) _) _).trans ?_
  refine either_left ((bind_some (decimal_eq false h hrest) _).trans ?_) _
  have hcount : ofDigits 10 (cs.map digitValue) = Nat.ofDigitChars 10 cs 0 := ofDigits_map cs
  show inRange (ofDigits 10 (cs.map digitValue) : Int) rest = _
  rw [hcount]
  exact inRange_eq (by omega) rest

/-! ### Numbers with a point -/

/-- Digits with neither a point nor an exponent are no number with a point: `fractional` fails. -/
theorem fractional_none {cs rest : List Char} (h : WholeDigits cs) (hrest : Stops goesOn rest)
    (hpoint : Stops (· = '.') rest) (hexponent : Stops (fun c => c = 'e' || c = 'E') rest) :
    fractional (cs ++ rest) = none := by
  refine (bind_some (decimal_eq false h hrest) _).trans ?_
  refine (bind_some (optional_none (bind_none (char_none hpoint) _)) _).trans ?_
  exact (bind_some (optional_none (bind_none (satisfy_none hexponent) _)) _).trans rfl

/-- **Two sides of a point** are the number of all digits, scaled by the length of the fraction:
    `fractional` takes them. -/
theorem fractional_eq {negative : Bool} {whole fraction rest : List Char} {v : Rat} {x : Binary64}
    (h : Notation.Positional whole fraction v) (hrest : Stops goesOn rest)
    (hexponent : Stops (fun c => c = 'e' || c = 'E') rest)
    (hx : Binary64.ofDecimal negative (Nat.ofDigitChars 10 (whole ++ fraction) 0)
      (-(fraction.length : Int)) = x) (hfinite : x ≠ .infinity false) :
    fractional (signed negative (whole ++ '.' :: (fraction ++ rest))) = some (x, rest) := by
  have hpoint : Stops goesOn ('.' :: (fraction ++ rest)) := .cons rfl _
  have hfraction : (do char '.'; digits 10) ('.' :: (fraction ++ rest))
      = some (fraction.map digitValue, rest) :=
    (bind_some (char_cons '.' _) _).trans (digits_eq h.fraction_ne h.fraction_digits hrest)
  have hpower : Parser.optional exponent rest = some (none, rest) :=
    optional_none (bind_none (satisfy_none hexponent) _)
  refine (bind_some (decimal_eq negative h.whole_digits hpoint) _).trans ?_
  refine (bind_some (optional_some hfraction) _).trans ?_
  refine (bind_some hpower _).trans ?_
  have hdigits : ofDigits 10 (whole.map digitValue ++ fraction.map digitValue)
      = Nat.ofDigitChars 10 (whole ++ fraction) 0 := by
    rw [← List.map_append, ofDigits_map]
  have hread : Binary64.ofDecimal negative
      (ofDigits 10 (whole.map digitValue ++ fraction.map digitValue))
      (0 - ((fraction.map digitValue).length : Int)) = x := by
    rw [hdigits, List.length_map, Int.zero_sub, hx]
  -- What is left is the refusal of too large a number, which `x` is not.
  have hresult : ∀ y, y = x →
      (if y = .infinity false then Parser.fail else pure y : Parser Binary64) rest
        = some (x, rest) := by
    rintro y rfl
    rw [if_neg hfinite]
    rfl
  exact hresult _ hread

/-- A letter begins no number with a point: `fractional` fails. -/
theorem fractional_letter (negative : Bool) {c : Char} (hplus : c ≠ '+') (hminus : c ≠ '-')
    (hdigit : c.isDigit = false) (s : List Char) : fractional (signed negative (c :: s)) = none :=
  bind_none (decimal_none negative hplus hminus hdigit s) _

/-! ### Special numbers -/

theorem special_inf (negative : Bool) (s : List Char) :
    special (signed negative ("inf".toList ++ s)) = some (.infinity negative, s) := by
  refine (bind_some (sign_signed negative (by decide) (by decide) ('n' :: 'f' :: s)) _).trans ?_
  exact either_left ((bind_some (literal_append "inf" s) _).trans rfl) _

theorem special_nan (s : List Char) : special ("nan".toList ++ s) = some (.nan, s) := by
  refine (bind_some (sign_none (by decide) (by decide) ('a' :: 'n' :: s)) _).trans ?_
  have hinf : literal "inf" ("nan".toList ++ s) = none := rfl
  refine (either_right (bind_none hinf _) _).trans ?_
  exact (bind_some (literal_append "nan" s) _).trans rfl

/-- A digit begins no `special` number. -/
theorem special_digit {c : Char} (h : c.isDigit = true) (s : List Char) :
    special (c :: s) = none := by
  refine (bind_some (sign_none (ne_of_isDigit h rfl) (ne_of_isDigit h rfl) s) _).trans ?_
  have hinf : literal "inf" (c :: s) = none := literal_ne rfl (ne_of_isDigit h rfl).symm s
  have hnan : literal "nan" (c :: s) = none := literal_ne rfl (ne_of_isDigit h rfl).symm s
  exact (either_right (bind_none hinf _) _).trans (bind_none hnan _)

/-! ### Dates and times -/

/-- Digits without a `-` or a `:` behind them. -/
def Undated (s : List Char) : Prop :=
  ∃ cs rest, s = cs ++ rest ∧ (∀ c ∈ cs, c.isDigit = true)
    ∧ Stops (fun c => c.isDigit || c = '-' || c = ':') rest

/-- Neither `-` nor `:` comes first. -/
theorem Undated.char_none {s : List Char} (h : Undated s) {c : Char} (hc : c = '-' ∨ c = ':') :
    char c s = none := by
  obtain ⟨cs, rest, rfl, hcs, hrest⟩ := h
  cases cs with
  | nil =>
    refine Parser.char_none (hrest.imp fun d hd => ?_)
    obtain rfl := of_decide_eq_true hd
    rcases hc with rfl | rfl <;> rfl
  | cons d cs =>
    refine char_ne (ne_of_isDigit (hcs d List.mem_cons_self) ?_) _
    rcases hc with rfl | rfl <;> rfl

/-- A `field` takes digits only, and leaves what is `Undated`. -/
theorem Undated.field {s s' : List Char} (h : Undated s) {count low high n : Nat}
    (hfield : field count low high s = some (n, s')) : Undated s' := by
  -- Each round takes a digit off, or fails in front of what is none.
  have hloop : ∀ (l : List Nat) (n : Nat) (s : List Char), Undated s → ∀ n' s',
      (forIn l n fun _ n => do return ForInStep.yield (10 * n + (← digitBelow 10)) : Parser Nat) s
        = some (n', s') → Undated s' := by
    intro l
    induction l with
    | nil =>
      rintro n s hs n' s' heq
      obtain ⟨rfl, rfl⟩ := Prod.mk.inj (Option.some.inj heq)
      exact hs
    | cons i l ih =>
      rintro n s ⟨cs, rest, rfl, hcs, hrest⟩ n' s' heq
      rw [List.forIn_cons] at heq
      cases cs with
      | nil =>
        have hdigit : Stops Char.isDigit rest := hrest.imp fun c hc => by rw [hc]; rfl
        rw [List.nil_append, bind_none (bind_none (digitBelow_none hdigit) _) _] at heq
        exact nomatch heq
      | cons c cs =>
        obtain ⟨hc, hcs⟩ := List.forall_mem_cons.1 hcs
        rw [List.cons_append,
          bind_some ((bind_some (digitBelow_digit hc (cs ++ rest)) _).trans rfl) _] at heq
        exact ih _ _ ⟨cs, rest, rfl, hcs, hrest⟩ _ _ heq
  obtain ⟨k, t, hk, hn⟩ := of_bind_some hfield
  have ht := hloop _ 0 s h k t hk
  dsimp only at hn
  split_ifs at hn
  · obtain ⟨-, rfl⟩ := Prod.mk.inj (Option.some.inj hn)
    exact ht
  · exact nomatch hn

/-- **Digits without a hyphen or a colon are no date and no time:** `dateTime` fails. -/
theorem dateTime_none {s : List Char} (h : Undated s) : dateTime s = none := by
  have hdate : date s = none := by
    rw [Option.eq_none_iff_forall_ne_some]
    intro r hr
    obtain ⟨year, s', hyear, hmonth⟩ := of_bind_some hr
    exact nomatch (bind_none ((h.field hyear).char_none (.inl rfl)) _).symm.trans hmonth
  have htime : time s = none := by
    rw [Option.eq_none_iff_forall_ne_some]
    intro r hr
    obtain ⟨hour, s', hhour, hminute⟩ := of_bind_some hr
    exact nomatch (bind_none ((h.field hhour).char_none (.inr rfl)) _).symm.trans hminute
  exact (either_right (bind_none hdate _) _).trans htime

/-- No `field` begins with a character that is no digit. -/
theorem field_none {s : List Char} (h : Stops Char.isDigit s) (count low high : Nat) :
    field (count + 1) low high s = none := by
  refine bind_none ?_ _
  rw [List.range_succ_eq_map, List.forIn_cons]
  exact bind_none (bind_none (digitBelow_none h) _) _

theorem dateTime_start {s : List Char} (h : Stops Char.isDigit s) : dateTime s = none :=
  (either_right (bind_none (bind_none (field_none h 3 0 9999) _) _) _).trans
    (bind_none (field_none h 1 0 23) _)

/-! ### Values -/

/-- No `string` begins with a character that is no quote. -/
theorem string_none {c : Char} (hdouble : c ≠ '"') (hsingle : c ≠ '\'') (s : List Char) :
    string (c :: s) = none := by
  have htripled : ∀ {q : Char} {piece : Parser (List Char)}, c ≠ q →
      tripled q piece (c :: s) = none := by
    intro q piece hq
    refine bind_none (@literal_ne _ q c [q, q] ?_ hq.symm s) _
    rw [String.toList_ofList]
  have hbasic : basic (c :: s) = none := bind_none (char_ne hdouble s) _
  have hplain : plain (c :: s) = none := bind_none (char_ne hsingle s) _
  refine (either_right (htripled hdouble) _).trans ?_
  refine (either_right hbasic _).trans ?_
  refine (either_right (htripled hsingle) _).trans ?_
  exact (either_right hplain _).trans rfl

/-- A value that is no text and no truth value: a date, a number with a point or a whole one. -/
def numeric : Parser Value := choice
  [ (do dateTime; return .dateTime), (do return .float (← fractional)),
    (do return .float (← special)), (do return .integer (← integer)) ]

section

variable {s rest : List Char} (hdate : dateTime s = none)

include hdate

theorem numeric_fractional {x : Binary64} (h : fractional s = some (x, rest)) :
    numeric s = some (.float x, rest) :=
  (either_right (bind_none hdate _) _).trans (either_left ((bind_some h _).trans rfl) _)

variable (hfractional : fractional s = none)

include hfractional

theorem numeric_special {x : Binary64} (h : special s = some (x, rest)) :
    numeric s = some (.float x, rest) := by
  refine (either_right (bind_none hdate _) _).trans ?_
  refine (either_right (bind_none hfractional _) _).trans ?_
  exact either_left ((bind_some h _).trans rfl) _

theorem numeric_integer (hspecial : special s = none) {n : Int} (h : integer s = some (n, rest)) :
    numeric s = some (.integer n, rest) := by
  refine (either_right (bind_none hdate _) _).trans ?_
  refine (either_right (bind_none hfractional _) _).trans ?_
  refine (either_right (bind_none hspecial _) _).trans ?_
  exact either_left ((bind_some h _).trans rfl) _

end

/-- A value that begins with none of the quotes and letters of the texts and truth values is
    `numeric`. -/
theorem scalar_number {c : Char} (hc : c ∉ ['"', '\'', 't', 'f']) (s : List Char) :
    scalar (c :: s) = numeric (c :: s) := by
  simp only [List.mem_cons, List.not_mem_nil, or_false, not_or] at hc
  obtain ⟨hdouble, hsingle, htrue, hfalse⟩ := hc
  refine (either_right (bind_none (string_none hdouble hsingle s) _) _).trans ?_
  refine (either_right (bind_none (literal_ne (t := "true") rfl (Ne.symm htrue) s) _) _).trans ?_
  exact either_right (bind_none (literal_ne (t := "false") rfl (Ne.symm hfalse) s) _) _

theorem digit_not_mem {c : Char} (h : c.isDigit = true) : c ∉ ['"', '\'', 't', 'f'] := by
  rintro hc
  simp only [List.mem_cons, List.not_mem_nil, or_false] at hc
  rcases hc with rfl | rfl | rfl | rfl <;> exact nomatch h

/-- **A count is read as the count** where its line ends: `scalar` gives `integer n`. -/
theorem scalar_count {n : Nat} (h : n < 0x8000000000000000) (s : List Char) :
    scalar (Nat.toDigits 10 n ++ '\n' :: s) = some (.integer n, '\n' :: s) := by
  have hdigits := wholeDigits_toDigits n
  have hend : Stops goesOn ('\n' :: s) := .cons rfl s
  have hundated : Undated (Nat.toDigits 10 n ++ '\n' :: s) :=
    ⟨_, _, rfl, hdigits.digits, .cons rfl s⟩
  have hfractional := fractional_none hdigits hend (.cons rfl s) (.cons rfl s)
  have hinteger := integer_eq hdigits hend (by simp; exact ⟨.cons rfl s, .cons rfl s, .cons rfl s⟩)
    (by rwa [Nat.ofDigitChars_ten_toDigits])
  rw [Nat.ofDigitChars_ten_toDigits] at hinteger
  generalize Nat.toDigits 10 n = cs at *
  obtain ⟨c, cs, rfl⟩ := List.exists_cons_of_ne_nil hdigits.ne_nil
  have hc := hdigits.digits c List.mem_cons_self
  have hspecial := special_digit hc (cs ++ '\n' :: s)
  refine (scalar_number (digit_not_mem hc) _).trans ?_
  exact numeric_integer (dateTime_none hundated) hfractional hspecial hinteger

/-- What is left of a number that is saved: one `nan` stands for all. -/
def unmarked (x : Binary64) : Binary64 := if x.isNaN then .nan else x

theorem unmarked_eq {x : Binary64} (h : x.value ≠ .nan) : unmarked x = x :=
  if_neg (mt Binary64.isNaN_iff_value.1 h)

/-- A sign, a digit or another letter begins a value that is `numeric`. -/
theorem scalar_signed (negative : Bool) {c : Char} (hc : c ∉ ['"', '\'', 't', 'f'])
    (s : List Char) : scalar (signed negative (c :: s)) = numeric (signed negative (c :: s)) := by
  cases negative with
  | false => exact scalar_number hc s
  | true => exact scalar_number (by decide) (c :: s)

/-- **A number is read as the number** where its line ends: `scalar` gives `float (unmarked x)`. -/
theorem scalar_saved (x : Binary64) (s : List Char) :
    scalar ((Notation.saved.text x).toList ++ '\n' :: s)
      = some (.float (unmarked x), '\n' :: s) := by
  cases hvalue : x.value with
  -- A NaN has one text, whatever its bits, and so is read as one NaN.
  | nan =>
    rw [Notation.saved_nan hvalue, unmarked, if_pos (Binary64.isNaN_iff_value.2 hvalue)]
    have hdigit : Char.isDigit 'n' = false := rfl
    have hspecial := special_nan ('\n' :: s)
    have hdate : dateTime ('n' :: 'a' :: 'n' :: '\n' :: s) = none :=
      dateTime_start (.cons hdigit _)
    have hfractional := fractional_letter false (by decide) (by decide) hdigit
      ('a' :: 'n' :: '\n' :: s)
    exact (scalar_number (by decide) _).trans (numeric_special hdate hfractional hspecial)
  | infinite negative =>
    rw [Notation.saved_infinite hvalue, unmarked_eq (by simp [hvalue]), Notation.signed_append]
    have hdigit : Char.isDigit 'i' = false := rfl
    have hdate : dateTime (signed negative ("inf".toList ++ '\n' :: s)) = none := by
      refine dateTime_start ?_
      cases negative <;> exact .cons rfl _
    have hfractional := fractional_letter negative (by decide) (by decide) hdigit
      ('n' :: 'f' :: '\n' :: s)
    have hspecial := special_inf negative ('\n' :: s)
    rw [Binary64.eq_infinity_of_value hvalue]
    refine (scalar_signed negative (by decide) _).trans ?_
    exact numeric_special hdate hfractional hspecial
  | finite negative m e =>
    obtain ⟨whole, fraction, v, htext, hpositional, hread⟩ := Notation.saved_finite hvalue
    rw [htext, unmarked_eq (by simp [hvalue]), Notation.signed_append, List.append_assoc,
      List.cons_append]
    -- A number with a point is no date, for neither `-` nor `:` follows its first digits.
    have hdate : dateTime (signed negative (whole ++ '.' :: (fraction ++ '\n' :: s))) = none := by
      cases negative with
      | false => exact dateTime_none ⟨_, _, rfl, hpositional.whole_digits.digits, .cons rfl _⟩
      | true => exact dateTime_start (.cons rfl _)
    have hfinite : x ≠ .infinity false := by
      rintro rfl
      exact nomatch hvalue
    have hend : Stops (fun c => c = 'e' || c = 'E') ('\n' :: s) := .cons rfl s
    have hfractional := fractional_eq hpositional (.cons rfl s) hend hread hfinite
    have hdigits := hpositional.whole_digits
    generalize '.' :: (fraction ++ '\n' :: s) = rest at *
    obtain ⟨c, whole, rfl⟩ := List.exists_cons_of_ne_nil hdigits.ne_nil
    have hc := hdigits.digits c List.mem_cons_self
    refine (scalar_signed negative (digit_not_mem hc) _).trans ?_
    exact numeric_fractional hdate hfractional

end Toml

end BatchJournal
