import BatchJournal.Proofs.Text.Hex
import BatchJournal.Proofs.Text.Parsing
import BatchJournal.Toml.Quotes
import BatchJournal.Toml.Reader

namespace BatchJournal

/-!
# A written string is read back

Between tripled quotes a string is a sequence of pieces with one or two loose quotes before some of
them and at the end (`Toml.Body`).  The reader is followed along this sequence once, for both kinds
of quotes; that a written string is such a sequence is shown character by character, with the number
of quotes just passed as what is carried along.

* `Toml.tripled_body` — a string between tripled quotes.
* `Toml.basicChar_piece` — an escaped character is read as the character.
* `Toml.string_quote` — **a written string is read as the string.**
* `Toml.scalar_quote` — so it is as a value.
-/

namespace Toml

open BatchJournal.Parser

/-! ### Line breaks -/

theorem newline_eq (s : List Char) : newline ('\n' :: s) = some ((), s) :=
  either_left (char_cons '\n' s) _

/-- A line ends with `\n`, alone or behind `\r`: where neither comes first, `newline` fails. -/
theorem newline_none {s : List Char} (h : Stops (fun c => c = '\n' || c = '\r') s) :
    newline s = none := by
  refine (either_right (char_none (h.imp fun c hc => ?_)) _).trans ?_
  · rw [hc, Bool.true_or]
  · exact bind_none (char_none (h.imp fun c hc => by rw [hc, Bool.or_true])) _

/-! ### Strings between tripled quotes -/

section

variable {quote : Char} {piece : Parser (List Char)}

/-- A piece of `text` that a parser takes as a whole, for `value`. -/
structure Taken (piece : Parser (List Char)) (value text : List Char) : Prop where
  /-- The text is taken, whatever follows. -/
  reads : ∀ rest, piece (text ++ rest) = some (value, rest)
  /-- There is something to take. -/
  ne_nil : text ≠ []

/-- **What stands between tripled quotes,** and what it spells: pieces, with up to two loose quotes
    before each of them and at the end. -/
inductive Body (quote : Char) (piece : Parser (List Char)) : List Char → List Char → Prop
  /-- The end. -/
  | done {n : Nat} (loose : n ≤ 2) :
    Body quote piece (List.replicate n quote) (List.replicate n quote)
  /-- A piece. -/
  | more {n : Nat} (loose : n ≤ 2) {value text values texts : List Char}
    (taken : Taken piece value text) (body : Body quote piece values texts) :
    Body quote piece (List.replicate n quote ++ (value ++ values))
      (List.replicate n quote ++ (text ++ texts))

/-- A round of a string between tripled quotes: `looseQuotes`, and the pieces behind them. -/
def looseRound (quote : Char) (piece : Parser (List Char)) : Parser (List Char) := do
  let quotes ← looseQuotes quote do let _ ← piece
  let pieces ← many piece
  return quotes ++ pieces.flatten

variable {before : Parser Unit} {s rest : List Char}

theorem ahead_some {s' : List Char} (h : before s = some ((), s')) :
    looseQuotes.ahead before s = some ((), s) := by
  rw [looseQuotes.ahead, h]
  rfl

theorem ahead_none (h : before s = none) : looseQuotes.ahead before s = none := by
  rw [looseQuotes.ahead, h]
  rfl

theorem looseQuotes_two {s' : List Char} (h : before s = some ((), s')) :
    looseQuotes quote before (quote :: quote :: s) = some ([quote, quote], s) := by
  refine either_left ?_ _
  refine (bind_some (char_cons quote (quote :: s)) _).trans ?_
  refine (bind_some (char_cons quote s) _).trans ?_
  exact (bind_some (ahead_some h) _).trans rfl

/-- A single quote, where two would not do: `looseQuotes` takes it alone. -/
theorem looseQuotes_one {s' : List Char} (h : before s = some ((), s'))
    (htwo : ∀ t, s = quote :: t → before t = none) :
    looseQuotes quote before (quote :: s) = some ([quote], s) := by
  have hfirst : (do
      char quote
      char quote
      looseQuotes.ahead before
      return [quote, quote] : Parser (List Char)) (quote :: s) = none := by
    refine (bind_some (char_cons quote s) _).trans ?_
    by_cases hquote : s.head? = some quote
    · obtain ⟨t, rfl⟩ := List.head?_eq_some_iff.1 hquote
      refine (bind_some (char_cons quote t) _).trans ?_
      exact bind_none (ahead_none (htwo t rfl)) _
    · refine bind_none (char_none fun c hc => decide_eq_false ?_) _
      rintro rfl
      exact hquote hc
  refine (either_right hfirst _).trans ?_
  refine (bind_some (char_cons quote s) _).trans ?_
  exact (bind_some (ahead_some h) _).trans rfl

/-- Neither one quote nor two will do: `looseQuotes` fails. -/
theorem looseQuotes_none (hone : before (quote :: s) = none) (htwo : before s = none) :
    looseQuotes quote before (quote :: quote :: s) = none := by
  refine (either_right ?_ _).trans ?_
  · refine (bind_some (char_cons quote (quote :: s)) _).trans ?_
    refine (bind_some (char_cons quote s) _).trans ?_
    exact bind_none (ahead_none htwo) _
  · refine (bind_some (char_cons quote (quote :: s)) _).trans ?_
    exact bind_none (ahead_none hone) _

/-- The quotes that close a string: three of `quote`. -/
def closing (quote : Char) : Parser Unit := literal (String.ofList [quote, quote, quote])

theorem closing_eq (quote : Char) (rest : List Char) :
    closing quote (quote :: quote :: quote :: rest) = some ((), rest) := by
  have h := literal_append (String.ofList [quote, quote, quote]) rest
  rwa [String.toList_ofList] at h

/-- Where fewer than three quotes stand, no string is closed: `closing` fails. -/
theorem closing_none (hrest : Stops (· = quote) rest) :
    ∀ n < 3, closing quote (List.replicate n quote ++ rest) = none := by
  intro n hn
  refine literal_none ?_
  rw [String.toList_ofList]
  have hstop := isPrefixOf_stops hrest
  match n, hn with
  | 0, _ => exact hstop _
  | 1, _ => simp [hstop]
  | 2, _ => simp [List.replicate, List.isPrefixOf, hstop]

/-- The parts that a string between tripled quotes is read in, in the order in which `tripled` reads
    them. -/
structure Parts (quote : Char) (piece : Parser (List Char)) (values texts rest : List Char) where
  /-- The pieces before the first loose quotes. -/
  start : List (List Char)
  /-- What is left of the text behind them. -/
  middle : List Char
  /-- The rounds of loose quotes and pieces. -/
  more : List (List Char)
  /-- What is left of the text behind these. -/
  final : List Char
  /-- The loose quotes at the end. -/
  last : Option (List Char)
  /-- The pieces are taken. -/
  starts : Rounds piece start (texts ++ quote :: quote :: quote :: rest) middle
  /-- The rounds are taken. -/
  goes : Rounds (looseRound quote piece) more middle final
  /-- The quotes at the end are taken, and those that close are left. -/
  ends : Parser.optional (looseQuotes quote (closing quote)) final
    = some (last, quote :: quote :: quote :: rest)
  /-- Together they are the string. -/
  spells : start.flatten ++ (more.flatten ++ last.getD []) = values

variable (hquote : ∀ s, piece (quote :: s) = none) (hrest : Stops (· = quote) rest)

include hquote in
/-- A piece begins with no `quote`. -/
theorem Taken.ne_quote {value text : List Char} (h : Taken piece value text) (s t : List Char) :
    text ++ s ≠ quote :: t := by
  intro heq
  have hreads := h.reads s
  rw [heq, hquote] at hreads
  exact nomatch hreads

include hquote in
/-- No round begins in front of the last quotes: `looseRound` fails. -/
theorem looseRound_none (n : Nat) (s : List Char) :
    looseRound quote piece (List.replicate n quote ++ quote :: quote :: quote :: s) = none := by
  refine bind_none ?_ _
  have hpiece : ∀ s, (do let _ ← piece : Parser Unit) (quote :: s) = none := fun s =>
    bind_none (hquote s) _
  match n with
  | 0 => exact looseQuotes_none (hpiece _) (hpiece _)
  | 1 => exact looseQuotes_none (hpiece _) (hpiece _)
  | n + 2 =>
    refine looseQuotes_none (hpiece _) ?_
    cases n <;> exact hpiece _

include hquote hrest in
/-- **The reader's course** along a `Body` comes in `Parts`. -/
theorem Body.parts {values texts : List Char} (h : Body quote piece values texts) :
    Nonempty (Parts quote piece values texts rest) := by
  induction h with
  | @done n loose =>
    have hstop : piece (List.replicate n quote ++ quote :: quote :: quote :: rest) = none := by
      cases n <;> exact hquote _
    have hopen := closing_none hrest
    -- Three quotes are left over to close the string, so none of those is loose.
    have hlast : Parser.optional (looseQuotes quote (closing quote))
        (List.replicate n quote ++ quote :: quote :: quote :: rest)
          = some (if n = 0 then none else some (List.replicate n quote),
            quote :: quote :: quote :: rest) := by
      match n, loose with
      | 0, _ => exact optional_none (looseQuotes_none (hopen 2 (by decide)) (hopen 1 (by decide)))
      | 1, _ =>
        refine optional_some (looseQuotes_one (closing_eq quote rest) fun t ht => ?_)
        obtain rfl := (List.cons.inj ht).2
        exact hopen 2 (by decide)
      | 2, _ => exact optional_some (looseQuotes_two (closing_eq quote rest))
    exact ⟨⟨[], _, [], _, _, .stop hstop, .stop (looseRound_none hquote n rest), hlast, by
      cases n <;> simp⟩⟩
  | @more n loose value text values texts taken body ih =>
    obtain ⟨⟨start, middle, more, final, last, starts, goes, ends, spells⟩⟩ := ih
    have hafter : List.replicate n quote ++ (text ++ texts) ++ quote :: quote :: quote :: rest
        = List.replicate n quote ++ (text ++ (texts ++ quote :: quote :: quote :: rest)) := by
      simp only [List.append_assoc]
    generalize texts ++ quote :: quote :: quote :: rest = after at starts hafter
    have hpos := List.length_pos_iff.2 taken.ne_nil
    have hstart : Rounds piece (value :: start) (text ++ after) middle :=
      .round (taken.reads after) (by rw [List.length_append]; omega) starts
    have hbefore : (do let _ ← piece : Parser Unit) (text ++ after) = some ((), after) :=
      bind_some (taken.reads after) _
    -- The pieces behind loose quotes belong to the round of these quotes.
    have hround : ∀ quotes s, looseQuotes quote (do let _ ← piece) s
        = some (quotes, text ++ after) → looseRound quote piece s
          = some (quotes ++ (value :: start).flatten, middle) := fun quotes s h =>
      (bind_some h _).trans ((bind_some (many_eq hstart) _).trans rfl)
    have hshort := hstart.rest_length_le
    match n, loose with
    | 0, _ =>
      exact ⟨⟨value :: start, middle, more, final, last, hafter ▸ hstart, goes, ends, by
        simp [← spells]⟩⟩
    | 1, _ =>
      have htakes := hround _ _ (looseQuotes_one hbefore fun t ht =>
        absurd ht (taken.ne_quote hquote after t))
      refine ⟨⟨[], _, _ :: more, final, last, hafter ▸ .stop (hquote _),
        .round htakes (Nat.lt_succ_of_le hshort) goes, ends, by simp [← spells]⟩⟩
    | 2, _ =>
      have htakes := hround _ _ (looseQuotes_two hbefore)
      refine ⟨⟨[], _, _ :: more, final, last, hafter ▸ .stop (hquote _),
        .round htakes (Nat.lt_succ_of_le (Nat.le_succ_of_le hshort)) goes, ends, by
          simp [← spells]⟩⟩

include hquote hrest in
/-- **A string between tripled quotes,** behind a line break of its own if there is one: `tripled`
    gives its values. -/
theorem tripled_body {values texts opening : List Char} (h : Body quote piece values texts)
    (hopening : opening = ['\n'] ∨ opening = []
      ∧ newline (texts ++ quote :: quote :: quote :: rest) = none) :
    tripled quote piece
      (quote :: quote :: quote :: (opening ++ (texts ++ quote :: quote :: quote :: rest)))
        = some (String.ofList values, rest) := by
  obtain ⟨⟨start, middle, more, final, last, starts, goes, ends, spells⟩⟩ :=
    Body.parts hquote hrest h
  have hnewline : ∃ skipped, Parser.optional newline
      (opening ++ (texts ++ quote :: quote :: quote :: rest))
        = some (skipped, texts ++ quote :: quote :: quote :: rest) := by
    rcases hopening with rfl | ⟨rfl, hnone⟩
    · exact ⟨_, optional_some (newline_eq _)⟩
    · exact ⟨_, optional_none hnone⟩
  -- From here on one step for each parser that `tripled` runs.
  obtain ⟨skipped, hskipped⟩ := hnewline
  refine (bind_some (closing_eq quote _) _).trans ?_
  refine (bind_some hskipped _).trans ?_
  refine (bind_some (many_eq starts) _).trans ?_
  refine (bind_some (many_eq goes) _).trans ?_
  refine (bind_some ends _).trans ?_
  refine (bind_some (closing_eq quote rest) _).trans ?_
  rw [spells]
  rfl

end

/-! ### Escapes -/

/-- A character as it stands where no `"` is loose. -/
def escapedPiece (lines : Bool) (c : Char) : List Char :=
  if c = '"' then ['\\', '"'] else escape lines c

/-- A string as it stands behind `row` double quotes, of which `loose` may stand in a row. -/
def escapedFrom (lines : Bool) (loose : Nat) : Nat → List Char → List Char
  | _, [] => []
  | row, c :: cs =>
    if c = '"' ∧ row < loose then '"' :: escapedFrom lines loose (row + 1) cs
    else escapedPiece lines c ++ escapedFrom lines loose 0 cs

/-- **The text between double quotes,** read off from its front: `escapeAll` gives `escapedFrom`. -/
theorem escapeAll_eq (lines : Bool) (loose : Nat) (cs : List Char) :
    (escapeAll lines loose cs).toList = escapedFrom lines loose 0 cs := by
  -- The fold carries the number of quotes in the row, which `escapedFrom` has as an argument.
  have hfold : ∀ step : String × Nat → Char → String × Nat,
      (∀ text row c, step (text, row) c =
        if c = '"' then if row < loose then (text.push c, row + 1) else (text ++ "\\\"", 0)
        else (text ++ String.ofList (escape lines c), 0)) → ∀ (cs : List Char) (text row),
      (cs.foldl step (text, row)).1.toList = text.toList ++ escapedFrom lines loose row cs := by
    intro step hstep cs
    induction cs with
    | nil => exact fun text row => (List.append_nil _).symm
    | cons c cs ih =>
      intro text row
      rw [List.foldl_cons, hstep, escapedFrom]
      by_cases hc : c = '"'
      · by_cases hrow : row < loose
        · rw [if_pos hc, if_pos hrow, if_pos ⟨hc, hrow⟩, ih, String.toList_push, hc,
            List.append_assoc]
          rfl
        · rw [if_pos hc, if_neg hrow, if_neg (fun h => hrow h.2), ih, String.toList_append,
            escapedPiece, if_pos hc, List.append_assoc]
          rfl
      · rw [if_neg hc, if_neg (fun h => hc h.1), ih, String.toList_append, String.toList_ofList,
          escapedPiece, if_neg hc, List.append_assoc]
  exact hfold _ (fun _ _ _ => rfl) cs "" 0

/-- A digit of an escape, in upper case, has its value `n`. -/
theorem value?_toUpper : ∀ n < 16, Hex.value? (Hex.digit n).toUpper = some n := by decide

/-- A loop over digits ends with their number, whatever it counts with: each `step` puts one more
    digit behind those before it. -/
theorem forIn_upper {step : Nat → Nat → Parser (ForInStep Nat)}
    (hstep : ∀ i n m s, m < 16 →
      step i n ((Hex.digit m).toUpper :: s) = some (.yield (16 * n + m), s))
    {ms : List Nat} (hms : ∀ m ∈ ms, m < 16) (s : List Char) :
    ∀ (l : List Nat) (n : Nat), l.length = ms.length →
      forIn l n step ((ms.map Hex.digit).map Char.toUpper ++ s)
        = some (ms.foldl (16 * · + ·) n, s) := by
  induction ms with
  | nil =>
    intro l n hlength
    obtain rfl := List.length_eq_zero_iff.1 hlength
    rfl
  | cons m ms ih =>
    intro l n hlength
    obtain ⟨i, l, rfl⟩ := List.exists_cons_of_ne_nil (List.ne_nil_of_length_eq_add_one hlength)
    obtain ⟨hm, hms⟩ := List.forall_mem_cons.1 hms
    rw [List.forIn_cons]
    exact (bind_some (hstep i n m _ hm) _).trans (ih hms l _ (Nat.succ.inj hlength))

/-- The digits of a character's number are read as the character: `codePoint 4` gives `c`. -/
theorem codePoint_eq {c : Char} (h : c.toNat < 0xD800) (s : List Char) :
    codePoint 4 ((Hex.digits 4 c.toNat).map Char.toUpper ++ s) = some (c, s) := by
  have hdigits : ∀ m ∈ [c.toNat / 16 / 16 / 16 % 16, c.toNat / 16 / 16 % 16, c.toNat / 16 % 16,
      c.toNat % 16], m < 16 := by
    simp only [List.forall_mem_cons]
    exact ⟨Nat.mod_lt _ (by decide), Nat.mod_lt _ (by decide), Nat.mod_lt _ (by decide),
      Nat.mod_lt _ (by decide), List.forall_mem_nil _⟩
  have hvalue : List.foldl (16 * · + ·) 0 [c.toNat / 16 / 16 / 16 % 16, c.toNat / 16 / 16 % 16,
      c.toNat / 16 % 16, c.toNat % 16] = c.toNat := by
    simp only [List.foldl_cons, List.foldl_nil]
    omega
  rw [codePoint, Hex.digits_four]
  refine (bind_some (forIn_upper (fun i n m s hm => ?_) hdigits s (List.range 4) 0 rfl) _).trans ?_
  · refine (bind_some (satisfy_cons rfl s) _).trans ?_
    rw [value?_toUpper m hm]
    rfl
  · rw [hvalue, if_pos (.inl h), Char.ofNat_toNat]
    rfl

/-- The characters with an escape of their own, as `\t`, and the line break. -/
def named : List Char := ['\x08', '\t', '\n', '\x0c', '\r', '\\']

theorem escape_other {lines : Bool} {c : Char} (h : c ∉ named) : escape lines c
    = if control c then '\\' :: 'u' :: (Hex.digits 4 c.toNat).map Char.toUpper else [c] := by
  simp only [named, List.mem_cons, List.not_mem_nil, or_false, not_or] at h
  obtain ⟨hback, htab, hline, hfeed, hreturn, hslash⟩ := h
  rw [escape]
  exacts [hback, htab, hline, hfeed, hreturn, hslash]

/-- The control characters come early: below `0x80`. -/
theorem toNat_of_control {c : Char} (h : control c = true) : c.toNat < 0x80 := by
  rw [control, Bool.or_eq_true, Bool.and_eq_true, Bool.and_eq_true, decide_eq_true_iff,
    decide_eq_true_iff, decide_eq_true_iff] at h
  rcases h with ⟨⟨hle, -⟩, -⟩ | hdelete
  · exact lt_of_le_of_lt (show c.toNat ≤ 0x1f from hle) (by decide)
  · rw [of_decide_eq_true hdelete]
    decide

/-- What is neither a `control` character nor a line break may stand for itself. -/
theorem commentChar_of_not_control {c : Char} (h : control c = false) (hline : c ≠ '\n') :
    commentChar c = true := by
  rw [control, Bool.or_eq_false_iff, Bool.and_eq_false_iff, Bool.and_eq_false_iff] at h
  simp only [decide_eq_false_iff_not, ne_eq, not_not] at h
  rw [commentChar, Bool.or_eq_true, Bool.and_eq_true]
  simp only [decide_eq_true_iff]
  obtain ⟨(hearly | htab) | hbreak, hdelete⟩ := h
  · exact .inr ⟨Nat.lt_of_not_le fun hle => hearly hle, hdelete⟩
  · exact .inl htab
  · exact absurd hbreak hline

/-- **An escaped character is read as the character:** `basicChar` takes `escapedPiece`. -/
theorem basicChar_piece {lines : Bool} {c : Char} (h : lines = true → c ≠ '\n') (s : List Char) :
    basicChar (escapedPiece lines c ++ s) = some (c, s) := by
  -- Every escape is a backslash with letters behind it, and only these differ.
  have hbackslash : ∀ letters, escaped (letters ++ s) = some (c, s) →
      basicChar ('\\' :: letters ++ s) = some (c, s) := fun letters hletters => by
    refine (bind_some (satisfy_cons rfl _) _).trans ?_
    rw [if_pos rfl]
    exact hletters
  rw [escapedPiece]
  split_ifs with hquote
  · obtain rfl := hquote
    exact hbackslash ['"'] rfl
  by_cases hnamed : c ∈ named
  · simp only [named, List.mem_cons, List.not_mem_nil, or_false] at hnamed
    rcases hnamed with rfl | rfl | rfl | rfl | rfl | rfl
    · exact hbackslash ['b'] rfl
    · exact hbackslash ['t'] rfl
    · obtain rfl := Bool.eq_false_iff.2 fun hlines => h hlines rfl
      exact hbackslash ['n'] rfl
    · exact hbackslash ['f'] rfl
    · exact hbackslash ['r'] rfl
    · exact hbackslash ['\\'] rfl
  rw [escape_other hnamed]
  split_ifs with hcontrol
  · have hcode := codePoint_eq ((toNat_of_control hcontrol).trans (by decide)) s
    exact hbackslash ('u' :: _) ((bind_some (satisfy_cons rfl _) _).trans hcode)
  · have hline : c ≠ '\n' := fun hc => hnamed (by simp [named, hc])
    have hslash : c ≠ '\\' := fun hc => hnamed (by simp [named, hc])
    have htest : (commentChar c && decide (c ≠ '"')) = true := by
      rw [commentChar_of_not_control (Bool.eq_false_iff.2 hcontrol) hline, Bool.true_and]
      exact decide_eq_true hquote
    refine (bind_some (satisfy_cons htest s) _).trans ?_
    rw [if_neg hslash]
    rfl

/-- A piece is the character or a `\` with a letter behind it. -/
theorem escapedPiece_shape (lines : Bool) (c : Char) :
    (escapedPiece lines c = [c] ∧ c ∉ ['"', '\\', '\r'] ∧ (c = '\n' → lines = true))
      ∨ ∃ letter rest, escapedPiece lines c = '\\' :: letter :: rest
        ∧ letter ∉ [' ', '\t', '\n', '\r'] := by
  rw [escapedPiece]
  -- A quote, a character with an escape of its own, and any other one.
  split_ifs with hquote
  · exact .inr ⟨'"', [], rfl, by decide⟩
  by_cases hnamed : c ∈ named
  · simp only [named, List.mem_cons, List.not_mem_nil, or_false] at hnamed
    rcases hnamed with rfl | rfl | rfl | rfl | rfl | rfl
    · exact .inr ⟨'b', [], rfl, by decide⟩
    · exact .inr ⟨'t', [], rfl, by decide⟩
    · cases lines with
      | true => exact .inl ⟨rfl, by decide, fun _ => rfl⟩
      | false => exact .inr ⟨'n', [], rfl, by decide⟩
    · exact .inr ⟨'f', [], rfl, by decide⟩
    · exact .inr ⟨'r', [], rfl, by decide⟩
    · exact .inr ⟨'\\', [], rfl, by decide⟩
  rw [escape_other hnamed]
  simp only [named, List.mem_cons, List.not_mem_nil, or_false, not_or] at hnamed
  obtain ⟨-, -, hline, -, hreturn, hslash⟩ := hnamed
  split_ifs
  · exact .inr ⟨'u', _, rfl, by decide⟩
  · exact .inl ⟨rfl, by simp [hquote, hslash, hreturn], fun h => absurd h hline⟩

/-- No piece begins with a `"`. -/
theorem escapedPiece_stops (lines : Bool) (c : Char) (s : List Char) :
    Stops (· = '"') (escapedPiece lines c ++ s) := by
  rcases escapedPiece_shape lines c with ⟨hpiece, hc, -⟩ | ⟨letter, rest, hpiece, -⟩
  · rw [hpiece]
    exact .cons (decide_eq_false fun h => hc (by simp [h])) s
  · rw [hpiece]
    exact .cons rfl _

/-- A piece that is no line break ends no line: `newline` fails on it. -/
theorem newline_piece {lines : Bool} {c : Char} (hc : c ≠ '\n') (s : List Char) :
    newline (escapedPiece lines c ++ s) = none := by
  refine newline_none ?_
  rcases escapedPiece_shape lines c with ⟨hpiece, hother, -⟩ | ⟨letter, rest, hpiece, -⟩
  · have hreturn : c ≠ '\r' := fun h => hother (by simp [h])
    rw [hpiece]
    exact .cons (by rw [decide_eq_false hc, decide_eq_false hreturn]; rfl) s
  · rw [hpiece]
    exact .cons rfl _

/-! ### Between double quotes -/

/-- The `\` of an escape takes no line back: `joinedLine` fails on it. -/
theorem joinedLine_piece (lines : Bool) (c : Char) (s : List Char) :
    joinedLine (escapedPiece lines c ++ s) = none := by
  rcases escapedPiece_shape lines c with ⟨hpiece, hother, -⟩ | ⟨letter, rest, hpiece, hletter⟩
  · rw [hpiece]
    exact bind_none (char_ne (fun h => hother (by simp [h])) s) _
  · simp only [List.mem_cons, List.not_mem_nil, or_false, not_or] at hletter
    obtain ⟨hspace, htab, hline, hreturn⟩ := hletter
    rw [hpiece]
    refine (bind_some (char_cons '\\' _) _).trans ?_
    have hblank : Stops blank (letter :: (rest ++ s)) :=
      .cons (by rw [blank, decide_eq_false hspace, decide_eq_false htab]; rfl) _
    have hblanks : blanks (letter :: (rest ++ s)) = some ((), letter :: (rest ++ s)) :=
      bind_some (@takeWhile_append _ _ [] (List.forall_mem_nil _) hblank) _
    refine (bind_some hblanks _).trans ?_
    exact bind_none (newline_none (.cons (by
      rw [decide_eq_false hline, decide_eq_false hreturn]; rfl) _)) _

/-- A quote is no piece: `basicPiece` fails on it. -/
theorem basicPiece_quote (s : List Char) : basicPiece ('"' :: s) = none := by
  have hjoined : joinedLine ('"' :: s) = none := bind_none (@char_ne '\\' '"' (by decide) s) _
  have hchar : (do return [← basicChar] : Parser (List Char)) ('"' :: s) = none :=
    bind_none (bind_none (satisfy_none (.cons rfl s)) _) _
  have hline : (do newline; return ['\n'] : Parser (List Char)) ('"' :: s) = none :=
    bind_none (newline_none (.cons rfl s)) _
  exact (either_right hjoined _).trans ((either_right hchar _).trans (either_right hline _))

/-- **A piece between tripled quotes** is taken as its character: `escapedPiece true c` is `Taken`
    for `c`. -/
theorem taken_piece (c : Char) : Taken basicPiece [c] (escapedPiece true c) := by
  refine ⟨fun s => (either_right (joinedLine_piece true c s) _).trans ?_, ?_⟩
  · by_cases hc : c = '\n'
    · obtain rfl := hc
      have hchar : (do return [← basicChar] : Parser (List Char)) ('\n' :: s) = none :=
        bind_none (bind_none (satisfy_none (.cons rfl s)) _) _
      have hline : (do newline; return ['\n'] : Parser (List Char)) ('\n' :: s)
          = some (['\n'], s) :=
        (bind_some (newline_eq s) _).trans rfl
      exact (either_right hchar _).trans (either_left hline _)
    · exact either_left ((bind_some (basicChar_piece (fun _ => hc) s) _).trans rfl) _
  · rcases escapedPiece_shape true c with ⟨hpiece, -⟩ | ⟨letter, rest, hpiece, -⟩ <;> simp [hpiece]

/-- **What is written between tripled double quotes** spells the string: `escapedFrom` is a `Body`
    of `cs`. -/
theorem body_escapedFrom (cs : List Char) : ∀ n ≤ 2,
    Body '"' basicPiece (List.replicate n '"' ++ cs)
      (List.replicate n '"' ++ escapedFrom true 2 n cs) := by
  -- As many quotes as came last are still loose.
  induction cs with
  | nil =>
    intro n hn
    rw [escapedFrom, List.append_nil]
    exact .done hn
  | cons c cs ih =>
    intro n hn
    rw [escapedFrom]
    split_ifs with hloose
    · obtain ⟨rfl, hlt⟩ := hloose
      have h := ih (n + 1) hlt
      rw [List.replicate_succ', List.append_assoc, List.append_assoc] at h
      exact h
    · exact .more hn (taken_piece c) (ih 0 (Nat.zero_le 2))

/-- **What is written between double quotes** is read as the string: `escapedFrom` is `Rounds` of
    `basicChar`. -/
theorem rounds_escapedFrom (cs s : List Char) :
    Rounds basicChar cs (escapedFrom false 0 0 cs ++ '"' :: s) ('"' :: s) := by
  induction cs with
  | nil => exact .stop (bind_none (satisfy_none (.cons rfl s)) _)
  | cons c cs ih =>
    rw [escapedFrom, if_neg (fun h => absurd h.2 (Nat.lt_irrefl 0)), List.append_assoc]
    have hread := @basicChar_piece false c (fun h => absurd h Bool.false_ne_true)
      (escapedFrom false 0 0 cs ++ '"' :: s)
    refine .round hread ?_ ih
    rcases escapedPiece_shape false c with ⟨hpiece, -⟩ | ⟨letter, rest, hpiece, -⟩
    all_goals
      rw [hpiece]
      simp only [List.length_append, List.length_cons]
      omega

/-! ### Between single quotes -/

theorem plainPiece_quote (s : List Char) : plainPiece ('\'' :: s) = none := by
  have hchar : (do return [← satisfy fun c => commentChar c && c ≠ '\''] : Parser (List Char))
      ('\'' :: s) = none := bind_none (satisfy_none (.cons rfl s)) _
  have hline : (do newline; return ['\n'] : Parser (List Char)) ('\'' :: s) = none :=
    bind_none (newline_none (.cons rfl s)) _
  exact (either_right hchar _).trans (either_right hline _)

/-- A character that is no `control` character stands for itself. -/
theorem taken_plain {c : Char} (hcontrol : control c = false) (hquote : c ≠ '\'') :
    Taken plainPiece [c] [c] := by
  refine ⟨fun s => ?_, List.cons_ne_nil c []⟩
  by_cases hc : c = '\n'
  · obtain rfl := hc
    have hchar : (do return [← satisfy fun c => commentChar c && c ≠ '\''] : Parser (List Char))
        ('\n' :: s) = none := bind_none (satisfy_none (.cons rfl s)) _
    have hline : (do newline; return ['\n'] : Parser (List Char)) ('\n' :: s)
        = some (['\n'], s) := (bind_some (newline_eq s) _).trans rfl
    exact (either_right hchar _).trans (either_left hline (choice []))
  · have htest : (commentChar c && decide (c ≠ '\'')) = true := by
      rw [commentChar_of_not_control hcontrol hc, decide_eq_true hquote]
      rfl
    exact either_left ((bind_some (satisfy_cons htest s) _).trans rfl) _

/-- **A string without three quotes in a row** spells itself between tripled single quotes: it is a
    `Body` of itself. -/
theorem body_plain {cs : List Char} (hcontrol : ∀ c ∈ cs, control c = false)
    (hrun : longestRun '\'' cs ≤ 2) : Body '\'' plainPiece cs cs := by
  -- The fold counts the row of quotes just passed, and these are the loose ones.
  have hfold : ∀ step : Nat × Nat → Char → Nat × Nat,
      (∀ now most c, step (now, most) c =
        if c = '\'' then (now + 1, max most (now + 1)) else (0, most)) →
      ∀ (cs : List Char), (∀ c ∈ cs, control c = false) → ∀ now most,
        most ≤ (cs.foldl step (now, most)).2
          ∧ (now ≤ 2 → (cs.foldl step (now, most)).2 ≤ 2 → Body '\'' plainPiece
            (List.replicate now '\'' ++ cs) (List.replicate now '\'' ++ cs)) := by
    intro step hstep cs
    induction cs with
    | nil =>
      intro _ now most
      rw [List.append_nil]
      exact ⟨Nat.le_refl _, fun hnow _ => .done hnow⟩
    | cons c cs ih =>
      intro hcontrol now most
      obtain ⟨hc, hcs⟩ := List.forall_mem_cons.1 hcontrol
      rw [List.foldl_cons, hstep]
      split_ifs with hquote
      · obtain ⟨hmost, hbody⟩ := ih hcs (now + 1) (max most (now + 1))
        refine ⟨by omega, fun hnow hrun => ?_⟩
        have h := hbody (by omega) hrun
        rw [List.replicate_succ', List.append_assoc] at h
        rw [hquote]
        exact h
      · obtain ⟨hmost, hbody⟩ := ih hcs 0 most
        exact ⟨hmost, fun hnow hrun =>
          .more hnow (taken_plain hc hquote) (hbody (Nat.zero_le 2) hrun)⟩
  exact (hfold _ (fun _ _ _ => rfl) cs hcontrol 0 0).2 (Nat.zero_le 2) hrun

/-! ### Written strings -/

/-- Single quotes are chosen for strings that they suit: `Quotes.choose` minds `Quotes.suit`. -/
theorem suit_of_choose {cs : List Char} {quotes : Quotes} (h : Quotes.choose cs = quotes)
    (hsingle : quotes = .single ∨ quotes = .tripledSingle) : Quotes.suit cs quotes = true := by
  rw [Quotes.choose] at h
  cases hfound : [Quotes.double, .single, .tripledDouble, .tripledSingle].find?
      (Quotes.suit cs) with
  | some found =>
    rw [hfound] at h
    obtain rfl := h
    exact List.find?_some hfound
  | none =>
    rw [hfound] at h
    obtain rfl := h
    rcases hsingle with hsingle | hsingle
    all_goals
      rw [Option.getD_none] at hsingle
      split_ifs at hsingle

section

variable {cs rest : List Char}

/-- Neither kind of double quotes begins with a single one: `tripled` and `basic` fail on it. -/
theorem double_none (s : List Char) :
    tripled '"' basicPiece ('\'' :: s) = none ∧ basic ('\'' :: s) = none := by
  refine ⟨bind_none (@literal_ne _ '"' '\'' ['"', '"'] ?_ (by decide) s) _,
    bind_none (@char_ne '"' '\'' (by decide) s) _⟩
  rw [String.toList_ofList]

/-- A single opening quote does not begin tripled ones: `tripled` fails on it. -/
theorem tripled_none {quote : Char} {piece : Parser (List Char)} {s : List Char}
    (hs : ∀ t, s ≠ quote :: quote :: t) : tripled quote piece (quote :: s) = none := by
  refine bind_none (literal_none ?_) _
  rw [String.toList_ofList, Bool.eq_false_iff]
  intro hbegins
  obtain ⟨t, ht⟩ := List.isPrefixOf_iff_prefix.1 hbegins
  exact hs t (List.cons.inj ht).2.symm

/-- A string between double quotes is read by `string`, if no quote follows it at once: then it is
    not taken for a tripled one. -/
theorem string_double (hrest : Stops (· = '"') rest) :
    string ('"' :: (escapedFrom false 0 0 cs ++ '"' :: rest)) = some (String.ofList cs, rest) := by
  -- Two quotes begin the string only if it is empty, and then no third one follows.
  have htripled : tripled '"' basicPiece ('"' :: (escapedFrom false 0 0 cs ++ '"' :: rest))
      = none := by
    refine tripled_none fun t ht => ?_
    cases cs with
    | nil =>
      have hhead : rest.head? = some '"' := by rw [(List.cons.inj ht).2]; rfl
      exact nomatch hrest '"' hhead
    | cons c cs =>
      rw [escapedFrom, if_neg (fun h => absurd h.2 (Nat.lt_irrefl 0)), List.append_assoc] at ht
      have hhead := escapedPiece_stops false c (escapedFrom false 0 0 cs ++ '"' :: rest) '"'
      rw [ht] at hhead
      exact nomatch hhead rfl
  have hbasic : basic ('"' :: (escapedFrom false 0 0 cs ++ '"' :: rest))
      = some (String.ofList cs, rest) := by
    refine (bind_some (char_cons '"' _) _).trans ?_
    refine (bind_some (many_eq (rounds_escapedFrom cs rest)) _).trans ?_
    exact (bind_some (char_cons '"' rest) _).trans rfl
  exact (either_right htripled _).trans (either_left hbasic _)

theorem string_single (hsuit : Quotes.suit cs .single = true) (hrest : Stops (· = '\'') rest) :
    string ('\'' :: (cs ++ '\'' :: rest)) = some (String.ofList cs, rest) := by
  rw [Quotes.suit, Bool.and_eq_true, Bool.and_eq_true] at hsuit
  simp only [Bool.not_eq_true', List.any_eq_false, List.contains_eq_mem, decide_eq_false_iff_not]
    at hsuit
  obtain ⟨⟨hcontrol, hline⟩, hquote⟩ := hsuit
  -- A second quote at once would be one of the string, or one behind its end.
  have htripled : tripled '\'' plainPiece ('\'' :: (cs ++ '\'' :: rest)) = none := by
    refine tripled_none fun t ht => ?_
    cases cs with
    | nil =>
      have hhead : rest.head? = some '\'' := by rw [(List.cons.inj ht).2]; rfl
      exact nomatch hrest '\'' hhead
    | cons c cs =>
      obtain rfl := (List.cons.inj ht).1
      exact hquote List.mem_cons_self
  have htest : ∀ c ∈ cs, (commentChar c && decide (c ≠ '\'')) = true := fun c hc => by
    have hline' : c ≠ '\n' := fun h => hline (h ▸ hc)
    have hquote' : c ≠ '\'' := fun h => hquote (h ▸ hc)
    rw [commentChar_of_not_control (Bool.eq_false_iff.2 (hcontrol c hc)) hline',
      decide_eq_true hquote']
    rfl
  have hplain : plain ('\'' :: (cs ++ '\'' :: rest)) = some (String.ofList cs, rest) := by
    refine (bind_some (char_cons '\'' _) _).trans ?_
    refine (bind_some (takeWhile_append htest (.cons rfl rest)) _).trans ?_
    exact (bind_some (char_cons '\'' rest) _).trans rfl
  obtain ⟨hother, hbasic⟩ := double_none (cs ++ '\'' :: rest)
  refine (either_right hother _).trans ((either_right hbasic _).trans ?_)
  exact (either_right htripled _).trans (either_left hplain (choice []))

theorem string_tripledDouble (hrest : Stops (· = '"') rest) :
    string ('"' :: '"' :: '"' :: ((if cs.contains '\n' then ['\n'] else [])
      ++ (escapedFrom true 2 0 cs ++ '"' :: '"' :: '"' :: rest)))
        = some (String.ofList cs, rest) := by
  refine either_left (tripled_body basicPiece_quote hrest
    (body_escapedFrom cs 0 (Nat.zero_le 2)) ?_) _
  split_ifs with hline
  · exact .inl rfl
  · refine .inr ⟨rfl, ?_⟩
    cases cs with
    | nil => exact newline_none (.cons rfl _)
    | cons c cs =>
      have hc : c ≠ '\n' := fun h => hline (by simp [h])
      show newline (escapedFrom true 2 0 (c :: cs) ++ _) = none
      rw [escapedFrom]
      split_ifs with hloose
      · exact newline_none (.cons rfl _)
      · rw [List.append_assoc]
        exact newline_piece hc _

theorem string_tripledSingle (hsuit : Quotes.suit cs .tripledSingle = true)
    (hrest : Stops (· = '\'') rest) :
    string ('\'' :: '\'' :: '\'' :: ((if cs.contains '\n' then ['\n'] else [])
      ++ (cs ++ '\'' :: '\'' :: '\'' :: rest))) = some (String.ofList cs, rest) := by
  rw [Quotes.suit, Bool.and_eq_true, decide_eq_true_iff] at hsuit
  simp only [Bool.not_eq_true', List.any_eq_false] at hsuit
  have hcontrol : ∀ c ∈ cs, control c = false := fun c hc => Bool.eq_false_iff.2 (hsuit.1 c hc)
  obtain ⟨hother, hbasic⟩ := double_none ('\'' :: '\''
    :: ((if cs.contains '\n' then ['\n'] else []) ++ (cs ++ '\'' :: '\'' :: '\'' :: rest)))
  refine (either_right hother _).trans ((either_right hbasic _).trans ?_)
  refine either_left (tripled_body plainPiece_quote hrest (body_plain hcontrol hsuit.2) ?_) _
  split_ifs with hline
  · exact .inl rfl
  · -- A string that does not begin with a line break is not taken for one that has an opening
    -- break.
    refine .inr ⟨rfl, ?_⟩
    cases cs with
    | nil => exact newline_none (.cons rfl _)
    | cons c cs =>
      have hc : c ≠ '\n' := fun h => hline (by simp [h])
      have hreturn : c ≠ '\r' := by
        rintro rfl
        exact nomatch hcontrol '\r' List.mem_cons_self
      exact newline_none (.cons (by rw [decide_eq_false hc, decide_eq_false hreturn]; rfl) _)

end

/-- **A written string is read as the string** by `string`, if no quote follows it. -/
theorem string_quote (s : String) {rest : List Char} (hdouble : Stops (· = '"') rest)
    (hsingle : Stops (· = '\'') rest) : string ((quote s).toList ++ rest) = some (s, rest) := by
  have hopening : (if s.toList.contains '\n' = true then "\n" else "").toList
      = if s.toList.contains '\n' = true then ['\n'] else [] := by
    split_ifs <;> rfl
  -- One case for each kind of quotes that `choose` gives.
  rw [quote]
  cases hquotes : Quotes.choose s.toList with
  | double =>
    have h := @string_double s.toList rest hdouble
    simpa [Quotes.delimiter, Quotes.body, escapeAll_eq] using h
  | single =>
    have hsuit := suit_of_choose hquotes (.inl rfl)
    simpa [Quotes.delimiter, Quotes.body] using string_single hsuit hsingle
  | tripledDouble =>
    have h := @string_tripledDouble s.toList rest hdouble
    simp only [String.toList_append, hopening]
    simpa [Quotes.delimiter, Quotes.body, escapeAll_eq] using h
  | tripledSingle =>
    have hsuit := suit_of_choose hquotes (.inr rfl)
    have h := string_tripledSingle hsuit hsingle
    simp only [String.toList_append, hopening]
    simpa [Quotes.delimiter, Quotes.body] using h

/-- **A string is read as a value** where its line ends: `scalar` gives `text s`. -/
theorem scalar_quote (s : String) (rest : List Char) :
    scalar ((quote s).toList ++ '\n' :: rest) = some (.text s, '\n' :: rest) := by
  have hstring : string ((quote s).toList ++ '\n' :: rest) = some (s, '\n' :: rest) :=
    string_quote s (.cons rfl rest) (.cons rfl rest)
  generalize (quote s).toList ++ '\n' :: rest = text at hstring
  exact either_left ((bind_some hstring _).trans rfl) _

end Toml

end BatchJournal
