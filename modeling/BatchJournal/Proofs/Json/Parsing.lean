import BatchJournal.Proofs.Json.Grammar

namespace BatchJournal

/-!
# The parser of JSON takes every text

Each parser takes the texts of its rule and leaves what follows.  A number alone does not show where
it ends: what follows it must not go on with it.

* `Json.quoted_eq`, `Json.numeral_eq`, `Json.value_eq` — what the parsers take.
* `Json.parse_document` — every document of a value is parsed.
-/

open BatchJournal.Parser

namespace Json

/-! ### Blanks -/

theorem blanks_append {cs rest : List Char} (h : Blanks cs) (hrest : Stops isBlank rest) :
    blanks (cs ++ rest) = some ((), rest) :=
  bind_some (takeWhile_append h hrest) _

/-! ### Quoted texts -/

/-- Four digits make a unit: the number that they are to the base `16`. -/
theorem unitEscape_eq {d₁ d₂ d₃ d₄ : Char} {n₁ n₂ n₃ n₄ : Nat} (h₁ : Hex.value? d₁ = some n₁)
    (h₂ : Hex.value? d₂ = some n₂) (h₃ : Hex.value? d₃ = some n₃) (h₄ : Hex.value? d₄ = some n₄)
    (rest : List Char) : unitEscape (d₁ :: d₂ :: d₃ :: d₄ :: rest)
      = some (16 * (16 * (16 * n₁ + n₂) + n₃) + n₄, rest) := by
  have hnext : ∀ d (s : List Char), satisfy (fun _ => true) (d :: s) = some (d, s) := fun _ _ => rfl
  simp only [unitEscape, List.forIn_cons, List.forIn_nil, bind_assoc]
  rw [bind_some (hnext _ _), h₁]
  simp only [pure_bind, bind_assoc]
  rw [bind_some (hnext _ _), h₂]
  simp only [pure_bind, bind_assoc]
  rw [bind_some (hnext _ _), h₃]
  simp only [pure_bind, bind_assoc]
  rw [bind_some (hnext _ _), h₄, Nat.mul_zero, Nat.zero_add]
  rfl

theorem piece_eq {p : Piece} {cs : List Char} (h : PieceSpelled p cs) (rest : List Char) :
    piece (cs ++ rest) = some (p, rest) := by
  cases h with
  | @plain c quote backslash printable =>
    have hc : (decide (c ≠ '"') && decide (0x20 ≤ c.toNat)) = true := by simp [quote, printable]
    refine (bind_some (satisfy_cons hc rest) _).trans ?_
    rw [if_neg backslash]
    rfl
  | @short letter c escape =>
    have hbackslash : (decide ('\\' ≠ '"') && decide (0x20 ≤ '\\'.toNat)) = true := by decide
    refine (bind_some (satisfy_cons hbackslash (letter :: rest)) _).trans ?_
    rw [if_pos rfl]
    refine (bind_some (satisfy_cons rfl rest) _).trans ?_
    -- The letter of a short escape decides what `piece` makes of it.
    simp only [shortEscapes, List.mem_cons, Prod.mk.injEq, List.not_mem_nil, or_false] at escape
    rcases escape with ⟨rfl, rfl⟩ | ⟨rfl, rfl⟩ | ⟨rfl, rfl⟩ | ⟨rfl, rfl⟩ | ⟨rfl, rfl⟩ | ⟨rfl, rfl⟩
      | ⟨rfl, rfl⟩ | ⟨rfl, rfl⟩ <;> rfl
  | @unit d₁ d₂ d₃ d₄ n₁ n₂ n₃ n₄ first second third fourth =>
    have hbackslash : (decide ('\\' ≠ '"') && decide (0x20 ≤ '\\'.toNat)) = true := by decide
    refine (bind_some (satisfy_cons hbackslash _) _).trans ?_
    rw [if_pos rfl]
    refine (bind_some (satisfy_cons rfl _) _).trans ?_
    exact bind_some (unitEscape_eq first second third fourth rest) _

theorem PieceSpelled.length_pos {p : Piece} {cs : List Char} (h : PieceSpelled p cs) :
    0 < cs.length := by
  cases h <;> exact Nat.succ_pos _

/-- The pieces of a quoted text are `Rounds` up to the quote. -/
theorem rounds_piece {pieces : List Piece} {parts : List (List Char)}
    (h : List.Forall₂ PieceSpelled pieces parts) (rest : List Char) :
    Rounds piece pieces (parts.flatten ++ '"' :: rest) ('"' :: rest) := by
  induction h with
  | nil => exact .stop (bind_none (satisfy_none (.cons rfl rest)) _)
  | @cons p cs pieces parts hpiece _ ih =>
    rw [List.flatten_cons, List.append_assoc]
    refine .round (piece_eq hpiece _) ?_ ih
    have hpos := hpiece.length_pos
    simp only [List.length_append]
    omega

theorem Quoted.start {s : Option String} {cs : List Char} (h : Quoted s cs) :
    ∃ cs', cs = '"' :: cs' := by
  cases h with
  | mk => exact ⟨_, rfl⟩

/-- **A quoted text is taken:** `quoted` gives `s` and leaves `rest`. -/
theorem quoted_eq {s : Option String} {cs : List Char} (h : Quoted s cs) (rest : List Char) :
    quoted (cs ++ rest) = some (s, rest) := by
  cases h with
  | @mk pieces parts spelled =>
    rw [List.cons_append, List.append_assoc]
    refine (bind_some (char_cons '"' _) _).trans ?_
    refine (bind_some (many_eq (rounds_piece spelled rest)) _).trans ?_
    exact bind_some (char_cons '"' rest) _

/-! ### Numbers -/

/-- A character that could go on with a number: a digit, a point or the mark of an exponent. -/
def goesOn (c : Char) : Bool := digit c || c = '.' || c = 'e' || c = 'E'

/-- What does not go on with a number has no `digit` first. -/
theorem stops_digit {s : List Char} (h : Stops goesOn s) : Stops digit s :=
  h.imp fun c hc => by simp [goesOn, hc]

/-- What passes a `test` is not what fails it. -/
theorem ne_of_test {test : Char → Bool} {c d : Char} (hc : test c = true) (hd : test d = false) :
    c ≠ d := by
  rintro rfl
  exact nomatch hc.symm.trans hd

/-- `Digits` begin with no character that fails to be a digit. -/
theorem Digits.stops {cs : List Char} (h : Digits cs) {test : Char → Bool}
    (htest : ∀ c, digit c = true → test c = false) (s : List Char) : Stops test (cs ++ s) := by
  obtain ⟨c, cs, rfl⟩ := List.exists_cons_of_ne_nil h.1
  exact .cons (htest c (h.2 c List.mem_cons_self)) _

/-- A fraction, or none: `Parser.optional` takes its digits. -/
theorem fraction_eq {cs s : List Char} (h : Fraction cs) (hs : Stops Json.digit s)
    (hpoint : Stops (· = '.') s) :
    ∃ digits, Parser.optional (do char '.'; takeWhile1 digit) (cs ++ s) = some (digits, s)
      ∧ digits.isNone = cs.isEmpty := by
  cases h with
  | none => exact ⟨none, optional_none (bind_none (char_none hpoint) _), rfl⟩
  | @some cs digits =>
    refine ⟨some cs, optional_some ?_, rfl⟩
    exact (bind_some (char_cons '.' _) _).trans (takeWhile1_append digits.1 digits.2 hs)

/-- An exponent, or none: `Parser.optional` takes its sign and digits. -/
theorem exponent_eq {cs s : List Char} (h : Exponent cs) (hs : Stops goesOn s) :
    ∃ digits, Parser.optional (do
        let _ ← satisfy fun c => c = 'e' || c = 'E'
        let _ ← Parser.optional (satisfy fun c => c = '+' || c = '-')
        takeWhile1 digit) (cs ++ s) = some (digits, s)
      ∧ digits.isNone = cs.isEmpty := by
  have hmark : ∀ {mark : Char}, mark = 'e' ∨ mark = 'E' →
      (decide (mark = 'e') || decide (mark = 'E')) = true := by simp
  cases h with
  -- Without an exponent neither mark comes first, for the marks go on with a number.
  | none =>
    have hstop : Stops (fun c => decide (c = 'e') || decide (c = 'E')) s :=
      hs.imp fun c hc => by
        simp only [Bool.or_eq_true, decide_eq_true_eq] at hc
        rcases hc with rfl | rfl <;> rfl
    exact ⟨none, optional_none (bind_none (satisfy_none hstop) _), rfl⟩
  -- The digits begin with no sign, so that the optional one takes nothing.
  | @plain mark cs is_mark digits =>
    have hsign : Stops (fun c => decide (c = '+') || decide (c = '-')) (cs ++ s) := by
      refine digits.stops (fun c hc => ?_) s
      have hplus : c ≠ '+' := ne_of_test hc rfl
      have hminus : c ≠ '-' := ne_of_test hc rfl
      simp [hplus, hminus]
    refine ⟨some cs, optional_some ?_, rfl⟩
    refine (bind_some (satisfy_cons (hmark is_mark) _) _).trans ?_
    refine (bind_some (optional_none (satisfy_none hsign)) _).trans ?_
    exact takeWhile1_append digits.1 digits.2 (stops_digit hs)
  | @signed mark sign cs is_mark is_sign digits =>
    have hsign : (decide (sign = '+') || decide (sign = '-')) = true := by simp [is_sign]
    refine ⟨some cs, optional_some ?_, rfl⟩
    refine (bind_some (satisfy_cons (hmark is_mark) _) _).trans ?_
    refine (bind_some (optional_some (satisfy_cons hsign _)) _).trans ?_
    exact takeWhile1_append digits.1 digits.2 (stops_digit hs)

/-- The parts of a number, one after another, are what `numeral` takes. -/
theorem numeral_eq_of_parts {minus cs fraction exponent rest : List Char}
    (sign : minus = [] ∨ minus = ['-']) (whole : Whole cs) (is_fraction : Fraction fraction)
    (is_exponent : Exponent exponent) (hrest : Stops goesOn rest) :
    numeral (minus ++ (cs ++ (fraction ++ (exponent ++ rest))))
      = some (if minus = [] ∧ fraction = [] ∧ exponent = [] then .natural (ofDigits cs)
        else .number, rest) := by
  obtain ⟨digits, hexponent, hexponent'⟩ := exponent_eq is_exponent hrest
  have hmark : Stops digit (exponent ++ rest) ∧ Stops (· = '.') (exponent ++ rest) := by
    cases is_exponent with
    | none => exact ⟨stops_digit hrest, hrest.imp fun c hc => by simp_all [goesOn]⟩
    | plain is_mark | signed is_mark =>
      rcases is_mark with rfl | rfl <;> exact ⟨.cons rfl _, .cons rfl _⟩
  obtain ⟨digits', hfraction, hfraction'⟩ := fraction_eq is_fraction hmark.1 hmark.2
  have hpoint : Stops digit (fraction ++ (exponent ++ rest)) := by
    cases is_fraction with
    | none => exact hmark.1
    | some => exact .cons rfl _
  have hdone : (digits'.isNone && decide ((exponent ++ rest).head? = some '.')) = false := by
    rw [Bool.and_eq_false_iff, decide_eq_false_iff_not]
    refine .inr fun hhead => ?_
    exact nomatch (hmark.2 '.' hhead).symm.trans rfl
  obtain ⟨negative, hminus, hminus'⟩ : ∃ negative, Parser.optional (char '-')
      (minus ++ (cs ++ (fraction ++ (exponent ++ rest))))
        = some (negative, cs ++ (fraction ++ (exponent ++ rest)))
      ∧ negative.isNone = minus.isEmpty := by
    rcases sign with rfl | rfl
    · have hstop : Stops (· = '-') (cs ++ (fraction ++ (exponent ++ rest))) :=
        whole.1.stops (fun c hc => decide_eq_false (ne_of_test hc rfl)) _
      exact ⟨none, optional_none (char_none hstop), rfl⟩
    · exact ⟨some (), optional_some (char_cons '-' _), rfl⟩
  have hzero : (decide (cs.head? = some '0') && decide (cs.length ≠ 1)) = false := by
    simpa using whole.2
  refine (bind_some hminus _).trans ?_
  refine (bind_some (takeWhile1_append whole.1.1 whole.1.2 hpoint) _).trans ?_
  simp only [hzero, Bool.false_eq_true, if_false]
  refine (bind_some hfraction _).trans ?_
  refine (bind_some (p := peek) rfl _).trans ?_
  simp only [hdone, Bool.false_eq_true, if_false]
  refine (bind_some hexponent _).trans ?_
  simp only [hminus', hfraction', hexponent', Bool.and_eq_true, List.isEmpty_iff, and_assoc]
  generalize (if minus = [] ∧ fraction = [] ∧ exponent = [] then Json.natural (ofDigits cs)
    else .number) = j
  -- Without an exponent the parser makes sure that none begins.
  split
  · refine (bind_some (p := peek) rfl _).trans ?_
    generalize hhead : rest.head? = next
    split
    · exact nomatch (hrest 'e' hhead).symm.trans rfl
    · exact nomatch (hrest 'E' hhead).symm.trans rfl
    · rfl
  · rfl

/-- **A number is taken** if nothing goes on with it: `numeral` gives `j` and leaves `rest`. -/
theorem numeral_eq {j : Json} {cs rest : List Char} (h : Numeral j cs) (hrest : Stops goesOn rest) :
    numeral (cs ++ rest) = some (j, rest) := by
  cases h with
  | natural whole =>
    refine (numeral_eq_of_parts (.inl rfl) whole .none .none hrest).trans ?_
    rw [if_pos ⟨rfl, rfl, rfl⟩]
  | number sign whole is_fraction is_exponent other =>
    simp only [List.append_assoc]
    refine (numeral_eq_of_parts sign whole is_fraction is_exponent hrest).trans ?_
    rw [if_neg (by tauto)]

/-! ### Sequences between brackets -/

theorem goesOn_of_isBlank {c : Char} (h : isBlank c = true) : goesOn c = false := by
  simp only [isBlank, Bool.or_eq_true, decide_eq_true_eq] at h
  rcases h with ((rfl | rfl) | rfl) | rfl <;> rfl

/-- `Blanks` do not go on with a number. -/
theorem Blanks.stops {cs s : List Char} (h : Blanks cs) (hs : Stops goesOn s) :
    Stops goesOn (cs ++ s) := by
  cases cs with
  | nil => exact hs
  | cons c cs => exact .cons (goesOn_of_isBlank (h c List.mem_cons_self)) _

/-- A character that closes a sequence: `]` or `}`. -/
structure Closing (c : Char) : Prop where
  /-- It is no blank. -/
  not_blank : isBlank c = false
  /-- It does not go on with a number. -/
  not_goesOn : goesOn c = false
  /-- It is no comma. -/
  ne_comma : c ≠ ','

section Listed

variable {α β : Type} {opening closing : Char} {element : Parser α} {text : β → List Char}
  {val : β → α} {items : List (Padded β)}

/-- **The items of a sequence** are taken by `element`, each before what may follow it. -/
structure Taken (closing : Char) (element : Parser α) (text : β → List Char) (val : β → α)
    (items : List (Padded β)) : Prop where
  /-- There are but blanks around them. -/
  blank : ∀ i ∈ items, i.Blank
  /-- They do not begin with blanks or like the end of the sequence. -/
  start : ∀ i ∈ items, ∃ c cs, text i.inner = c :: cs ∧ isBlank c = false ∧ c ≠ closing
  /-- Each of them is taken. -/
  element_eq : ∀ i ∈ items, ∀ rest, Stops goesOn rest →
    element (text i.inner ++ rest) = some (val i.inner, rest)

theorem Taken.tail {i : Padded β} (h : Taken closing element text val (i :: items)) :
    Taken closing element text val items where
  blank j hj := h.blank j (List.mem_cons_of_mem i hj)
  start j hj := h.start j (List.mem_cons_of_mem i hj)
  element_eq j hj := h.element_eq j (List.mem_cons_of_mem i hj)

/-- What follows an item: the other ones, each behind a `,`, and the end of the sequence,
    `closing`. -/
def following (text : β → List Char) (items : List (Padded β)) (closing : Char)
    (rest : List Char) : List Char :=
  (items.flatMap fun i => ',' :: i.chars text) ++ closing :: rest

theorem following_stops (hclosing : Closing closing) (rest : List Char) :
    Stops isBlank (following text items closing rest)
      ∧ Stops goesOn (following text items closing rest) := by
  cases items with
  | nil => exact ⟨.cons hclosing.not_blank _, .cons hclosing.not_goesOn _⟩
  | cons i items => exact ⟨.cons rfl _, .cons rfl _⟩

/-- `element` takes an item, and `blanks` what is behind it. -/
theorem item_eq (hclosing : Closing closing) (h : Taken closing element text val items)
    {i : Padded β} (hi : i ∈ items) {more : List (Padded β)} (rest : List Char) :
    (do let a ← element; blanks; return a : Parser α)
      (text i.inner ++ (i.after ++ following text more closing rest))
      = some (val i.inner, following text more closing rest) := by
  obtain ⟨hblank, hgoesOn⟩ := @following_stops _ _ text more hclosing rest
  have hafter := (h.blank i hi).2
  refine (bind_some (h.element_eq i hi _ (hafter.stops hgoesOn)) _).trans ?_
  exact (bind_some (blanks_append hafter hblank) _).trans rfl

/-- The items behind the first one are `Rounds`, each behind a `,`. -/
theorem rounds_items (hclosing : Closing closing) (h : Taken closing element text val items)
    (rest : List Char) :
    Rounds (do (do char ','; blanks); (do let a ← element; blanks; return a))
      (items.map fun i => val i.inner) (following text items closing rest) (closing :: rest) := by
  -- Induction on the items; in front of the closing bracket the rounds stop, for it is no comma.
  induction items with
  | nil =>
    refine .stop (bind_none (bind_none (char_ne hclosing.ne_comma rest) _) _)
  | cons i items ih =>
    have hmem : i ∈ i :: items := List.mem_cons_self
    have htext : following text (i :: items) closing rest
        = ',' :: (i.before ++ (text i.inner ++ (i.after
          ++ following text items closing rest))) := by
      simp [following, Padded.chars]
    obtain ⟨c, cs, hstart, hc, -⟩ := h.start i hmem
    have hstop : Stops isBlank (text i.inner ++ (i.after ++ following text items closing rest)) :=
      hstart ▸ .cons hc _
    refine .round ?_ ?_ (ih h.tail)
    · rw [htext]
      refine (bind_some ((bind_some (char_cons ',' _) _).trans
        (blanks_append (h.blank i hmem).1 hstop)) _).trans ?_
      exact item_eq hclosing h hmem rest
    · -- A round takes the comma at least.
      rw [htext, List.length_cons]
      simp only [List.length_append]
      omega

/-- **A sequence between brackets is taken:** `listed` gives the values of its items. -/
theorem listed_eq (hclosing : Closing closing) (hne : items ≠ [])
    (h : Taken closing element text val items) (rest : List Char) :
    listed opening closing element (opening :: (commas text items ++ closing :: rest))
      = some (items.map fun i => val i.inner, rest) := by
  obtain ⟨i, items, rfl⟩ := List.exists_cons_of_ne_nil hne
  have hmem : i ∈ i :: items := List.mem_cons_self
  have htext : commas text (i :: items) ++ closing :: rest
      = i.before ++ (text i.inner ++ (i.after ++ following text items closing rest)) := by
    simp [commas_cons, following, Padded.chars]
  obtain ⟨c, cs, hstart, hc, hne⟩ := h.start i hmem
  have hstop : Stops isBlank (text i.inner ++ (i.after ++ following text items closing rest)) :=
    hstart ▸ .cons hc _
  rw [htext]
  refine (bind_some (char_cons opening _) _).trans ?_
  refine (bind_some (blanks_append (h.blank i hmem).1 hstop) _).trans ?_
  -- An element comes first and not the closing bracket, so that the list is not empty.
  refine (either_right (bind_none (char_none ?_) _) _).trans ?_
  · rw [hstart]
    exact .cons (decide_eq_false hne) _
  · refine (bind_some (sepBy1_eq (item_eq hclosing h hmem rest)
      (rounds_items hclosing h.tail rest)) _).trans ?_
    exact (bind_some (char_cons closing rest) _).trans rfl

/-- A sequence without items: `listed` gives `[]`. -/
theorem listed_nil (hclosing : Closing closing) {cs : List Char} (h : Blanks cs)
    (rest : List Char) :
    listed opening closing element (opening :: (cs ++ closing :: rest)) = some ([], rest) := by
  refine (bind_some (char_cons opening _) _).trans ?_
  refine (bind_some (blanks_append h (.cons hclosing.not_blank rest)) _).trans ?_
  exact either_left ((bind_some (char_cons closing rest) _).trans rfl) _

end Listed

/-! ### Values -/

/-- A character that a number can begin with: a digit or `-`. -/
def startsNumber (c : Char) : Bool := digit c || c = '-'

/-- A `Numeral` begins with a digit or a sign. -/
theorem Numeral.start {j : Json} {cs : List Char} (h : Numeral j cs) :
    ∃ c cs', cs = c :: cs' ∧ startsNumber c = true := by
  have hwhole : ∀ {cs : List Char}, Whole cs → ∃ c cs', cs = c :: cs' ∧ startsNumber c = true := by
    intro cs whole
    obtain ⟨c, cs', rfl⟩ := List.exists_cons_of_ne_nil whole.1.1
    exact ⟨c, cs', rfl, by simp [startsNumber, whole.1.2 c List.mem_cons_self]⟩
  cases h with
  | natural whole => exact hwhole whole
  | number sign whole =>
    rcases sign with rfl | rfl
    · obtain ⟨c, cs', rfl, hc⟩ := hwhole whole
      exact ⟨c, _, rfl, hc⟩
    · exact ⟨'-', _, rfl, rfl⟩

/-- The first character of a value: no blank, and neither `]` nor `}`. -/
theorem Spelled.start {j : Json} {cs : List Char} (h : Spelled j cs) :
    ∃ c cs', cs = c :: cs' ∧ isBlank c = false ∧ c ≠ ']' := by
  cases h with
  | null => exact ⟨'n', _, rfl, rfl, by decide⟩
  | yes => exact ⟨'t', _, rfl, rfl, by decide⟩
  | no => exact ⟨'f', _, rfl, rfl, by decide⟩
  | numeral numeral =>
    obtain ⟨c, cs', rfl, hc⟩ := numeral.start
    refine ⟨c, cs', rfl, Bool.eq_false_iff.2 fun hblank => ?_, ne_of_test hc rfl⟩
    simp only [isBlank, Bool.or_eq_true, decide_eq_true_eq] at hblank
    rcases hblank with ((rfl | rfl) | rfl) | rfl <;> exact nomatch hc
  | text quoted =>
    obtain ⟨cs', rfl⟩ := quoted.start
    exact ⟨'"', cs', rfl, rfl, by decide⟩
  | noElements | elements => exact ⟨'[', _, rfl, rfl, by decide⟩
  | noMembers | members => exact ⟨'\x7b', _, rfl, rfl, by decide⟩

/-- A number is a `value` at any level. -/
theorem value_numeral {j : Json} {cs rest : List Char} (h : Numeral j cs)
    (hrest : Stops goesOn rest) (levels : Nat) :
    value (levels + 1) (cs ++ rest) = some (j, rest) := by
  obtain ⟨c, cs', hcs, hc⟩ := h.start
  have hhead : (cs ++ rest).head? = some c := by rw [hcs]; rfl
  refine (bind_some (p := peek) rfl _).trans ?_
  rw [hhead]
  generalize hnext : some c = next
  -- No value of another kind begins like a number.
  split
  case h_7 => exact numeral_eq h hrest
  all_goals
    obtain rfl := Option.some.inj hnext
    exact nomatch hc

/-- `value` takes `cs` for `j` one level down, if nothing goes on with a number. -/
def TakenAt (levels : Nat) (j : Json) (cs : List Char) : Prop :=
  ∀ rest, Stops goesOn rest → value levels (cs ++ rest) = some (j, rest)

/-- A sequence is a `value` if its elements are `TakenAt` one level down. -/
theorem value_elements {levels : Nat} {items : List (Padded Element)} (hne : items ≠ [])
    (blank : ∀ i ∈ items, i.Blank) (spelled : ∀ i ∈ items, Spelled i.inner.value i.inner.text)
    (h : ∀ i ∈ items, TakenAt levels i.inner.value i.inner.text) (rest : List Char) :
    value (levels + 1) ('[' :: (commas Element.text items ++ ']' :: rest))
      = some (.array (items.map (·.inner.value)), rest) := by
  have htaken : Taken ']' (value levels) Element.text Element.value items :=
    ⟨blank, fun i hi => (spelled i hi).start, h⟩
  refine (bind_some (p := peek) rfl _).trans ?_
  exact (bind_some (listed_eq ⟨rfl, rfl, by decide⟩ hne htaken rest) _).trans rfl

/-- A pair of an object: its name, the `:` and its value. -/
theorem member_eq {levels : Nat} {m : Member} (name : Quoted m.name m.key)
    (colon : Blanks m.before ∧ Blanks m.after) (spelled : Spelled m.value m.text)
    (h : TakenAt levels m.value m.text) {rest : List Char} (hrest : Stops goesOn rest) :
    (do
      let name ← quoted
      blanks
      char ':'
      blanks
      return (name, ← value levels) : Parser (Option String × Json)) (m.chars ++ rest)
      = some ((m.name, m.value), rest) := by
  obtain ⟨c, cs, hstart, hc, -⟩ := spelled.start
  have htext : m.chars ++ rest
      = m.key ++ (m.before ++ ':' :: (m.after ++ (m.text ++ rest))) := by
    simp [Member.chars]
  have hstop : Stops isBlank (m.text ++ rest) := hstart ▸ .cons hc _
  rw [htext]
  refine (bind_some (quoted_eq name _) _).trans ?_
  refine (bind_some (blanks_append colon.1 (.cons rfl _)) _).trans ?_
  refine (bind_some (char_cons ':' _) _).trans ?_
  refine (bind_some (blanks_append colon.2 hstop) _).trans ?_
  exact (bind_some (h rest hrest) _).trans rfl

/-- An object is a `value` if the values of its pairs are `TakenAt` one level down. -/
theorem value_members {levels : Nat} {items : List (Padded Member)} (hne : items ≠ [])
    (blank : ∀ i ∈ items, i.Blank) (names : ∀ i ∈ items, Quoted i.inner.name i.inner.key)
    (colon : ∀ i ∈ items, Blanks i.inner.before ∧ Blanks i.inner.after)
    (spelled : ∀ i ∈ items, Spelled i.inner.value i.inner.text)
    (h : ∀ i ∈ items, TakenAt levels i.inner.value i.inner.text) (rest : List Char) :
    value (levels + 1) ('\x7b' :: (commas Member.chars items ++ '\x7d' :: rest))
      = some (.object (items.map fun i => (i.inner.name, i.inner.value)), rest) := by
  have htaken : Taken '\x7d' (do
      let name ← quoted
      blanks
      char ':'
      blanks
      return (name, ← value levels)) Member.chars (fun m => (m.name, m.value)) items := by
    refine ⟨blank, fun i hi => ?_, fun i hi rest hrest => ?_⟩
    · obtain ⟨cs, hcs⟩ := (names i hi).start
      exact ⟨'"', _, by rw [Member.chars, hcs, List.cons_append], rfl, by decide⟩
    · exact member_eq (names i hi) (colon i hi) (spelled i hi) (h i hi) hrest
  refine (bind_some (p := peek) rfl _).trans ?_
  exact (bind_some (listed_eq ⟨rfl, rfl, by decide⟩ hne htaken rest) _).trans rfl

/-- What stands in a sequence is no longer than it: `commas` holds the text of each item. -/
theorem length_le_commas {α : Type} (text : α → List Char) {items : List (Padded α)} {i : Padded α}
    (h : i ∈ items) : (text i.inner).length ≤ (commas text items).length := by
  have hchars : (text i.inner).length ≤ (i.chars text).length := by
    simp only [Padded.chars, List.length_append]
    omega
  cases items with
  | nil => exact nomatch h
  | cons first items =>
    rw [commas_cons, List.length_append]
    rcases List.mem_cons.1 h with rfl | h
    · omega
    · have hle := (List.sublist_flatten_of_mem
        (List.mem_map_of_mem (f := fun i => ',' :: i.chars text) h)).length_le
      rw [List.length_cons] at hle
      show _ ≤ _ + (items.map fun i => ',' :: i.chars text).flatten.length
      omega

/-- **A value is taken** by `value` if nothing goes on with it. A text is longer than those inside
    of it, so that there are levels enough for all of them. -/
theorem value_eq {j : Json} {cs : List Char} (h : Spelled j cs) {levels : Nat}
    (hlevels : cs.length < levels) : TakenAt levels j cs := by
  obtain ⟨levels, rfl⟩ := Nat.exists_eq_add_of_lt hlevels
  clear hlevels
  -- There is a level left for each character of what stands inside.
  have hinside : ∀ {α : Type} {text : α → List Char} {items : List (Padded α)} {i : Padded α}
      {opening closing : Char} {levels : Nat} {inner : List Char}, i ∈ items →
      inner.length ≤ (text i.inner).length →
      ∃ more, (opening :: (commas text items ++ [closing])).length + levels
        = inner.length + more + 1 := by
    intro α text items i opening closing levels inner hi hinner
    have hle := length_le_commas text hi
    refine Nat.exists_eq_add_of_lt ?_
    simp only [List.length_cons, List.length_append]
    omega
  induction h generalizing levels with
  | numeral numeral => exact fun rest hrest => value_numeral numeral hrest _
  | null =>
    intro rest hrest
    refine (bind_some (p := peek) rfl _).trans ?_
    exact bind_some (literal_append "null" rest) _
  | yes =>
    intro rest hrest
    refine (bind_some (p := peek) rfl _).trans ?_
    exact bind_some (literal_append "true" rest) _
  | no =>
    intro rest hrest
    refine (bind_some (p := peek) rfl _).trans ?_
    exact bind_some (literal_append "false" rest) _
  | @text s cs quoted =>
    intro rest hrest
    obtain ⟨cs', hcs⟩ := quoted.start
    have hhead : (cs ++ rest).head? = some '"' := by rw [hcs]; rfl
    refine (bind_some (p := peek) rfl _).trans ?_
    rw [hhead]
    exact bind_some (quoted_eq quoted rest) _
  | @noElements cs blanks =>
    intro rest hrest
    rw [List.cons_append, List.append_assoc]
    refine (bind_some (p := peek) rfl _).trans ?_
    exact bind_some (listed_nil ⟨rfl, rfl, by decide⟩ blanks rest) _
  | @elements items some_item blank spelled ih =>
    intro rest hrest
    rw [List.cons_append, List.append_assoc]
    refine value_elements some_item blank spelled (fun i hi => ?_) rest
    obtain ⟨more, hmore⟩ := hinside hi (Nat.le_refl i.inner.text.length)
    exact hmore ▸ ih i hi more
  | @noMembers cs blanks =>
    intro rest hrest
    rw [List.cons_append, List.append_assoc]
    refine (bind_some (p := peek) rfl _).trans ?_
    exact bind_some (listed_nil ⟨rfl, rfl, by decide⟩ blanks rest) _
  | @members items some_item blank names colon spelled ih =>
    intro rest hrest
    rw [List.cons_append, List.append_assoc]
    refine value_members some_item blank names colon spelled (fun i hi => ?_) rest
    have hinner : i.inner.text.length ≤ i.inner.chars.length := by
      simp only [Member.chars, List.length_append, List.length_cons]
      omega
    obtain ⟨more, hmore⟩ := hinside hi hinner
    exact hmore ▸ ih i hi more

/-- **Every document of a value is parsed:** `parse s` is `some j`. -/
theorem parse_document {j : Json} {s : String} (h : Document j s) : parse s = some j := by
  cases h with
  | @mk before cs after blank_before spelled blank_after =>
    obtain ⟨c, cs', hcs, hc, -⟩ := spelled.start
    have hlevels : cs.length < (String.ofList (before ++ (cs ++ after))).length + 1 := by
      simp
      omega
    have hstart : Stops isBlank (cs ++ after) := hcs ▸ .cons hc _
    have hend : Stops goesOn after := by
      simpa using blank_after.stops (.nil goesOn)
    have hafter : blanks after = some ((), []) := by
      simpa using blanks_append blank_after (.nil isBlank)
    unfold parse Parser.run
    rw [String.toList_ofList, bind_some (blanks_append blank_before hstart),
      bind_some (value_eq spelled hlevels after hend), bind_some hafter]
    rfl

end Json

end BatchJournal
