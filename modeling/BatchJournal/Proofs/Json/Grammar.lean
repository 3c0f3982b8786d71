import Mathlib.Data.List.Forall2
import BatchJournal.Json.Value
import BatchJournal.Proofs.Text.Parsing

namespace BatchJournal

/-!
# The texts of JSON values

One value has many texts: there may be blanks around every value, name and mark, and any character
of a quoted text may be escaped.  What the texts of a value are is laid down here rule by rule,
apart from the parser.

* `Json.Quoted`, `Json.Numeral` — the texts of a quoted text and of a number.
* `Json.Spelled` — the texts of a value, without blanks around it.
* `Json.Document` — the texts of a value, with them.
-/

namespace Json

/-! ### Blanks -/

/-- A character that may stand around values, names and marks: a space, `\t`, `\n` or `\r`. -/
def isBlank (c : Char) : Bool := c = ' ' || c = '\n' || c = '\t' || c = '\r'

/-- Insignificant blanks, or nothing. -/
def Blanks (cs : List Char) : Prop := ∀ c ∈ cs, isBlank c = true

/-! ### Quoted texts -/

/-- The letters of the short escapes, and what they stand for, as `n` for a new line. -/
def shortEscapes : List (Char × Char) :=
  [('"', '"'), ('\\', '\\'), ('/', '/'), ('b', '\x08'), ('f', '\x0c'), ('n', '\n'), ('r', '\r'),
    ('t', '\t')]

/-- The texts of a piece: a character by itself or by a short escape, and a unit by four digits
    behind `\u`. -/
inductive PieceSpelled : Piece → List Char → Prop
  /-- A character that needs no escape. -/
  | plain {c : Char} (quote : c ≠ '"') (backslash : c ≠ '\\') (printable : 0x20 ≤ c.toNat) :
      PieceSpelled (.char c) [c]
  /-- A short escape. -/
  | short {letter c : Char} (escape : (letter, c) ∈ shortEscapes) :
      PieceSpelled (.char c) ['\\', letter]
  /-- A unit, by digits of either case. -/
  | unit {d₁ d₂ d₃ d₄ : Char} {n₁ n₂ n₃ n₄ : Nat} (first : Hex.value? d₁ = some n₁)
      (second : Hex.value? d₂ = some n₂) (third : Hex.value? d₃ = some n₃)
      (fourth : Hex.value? d₄ = some n₄) :
      PieceSpelled (.unit (16 * (16 * (16 * n₁ + n₂) + n₃) + n₄)) ['\\', 'u', d₁, d₂, d₃, d₄]

/-- **The texts of a quoted text,** which is `none` if its units do not pair up. -/
inductive Quoted : Option String → List Char → Prop
  /-- Pieces between quotes. -/
  | mk {pieces : List Piece} {parts : List (List Char)}
      (spelled : List.Forall₂ PieceSpelled pieces parts) :
      Quoted ((assemble pieces).map String.ofList) ('"' :: (parts.flatten ++ ['"']))

/-! ### Numbers -/

/-- At least one digit. -/
def Digits (cs : List Char) : Prop := cs ≠ [] ∧ ∀ c ∈ cs, digit c = true

/-- The digits of a whole number, without a zero in vain: `0`, or digits of which the first is not
    `0`. -/
def Whole (cs : List Char) : Prop := Digits cs ∧ (cs.head? = some '0' → cs.length = 1)

/-- A point and digits, or nothing: `.5`. -/
inductive Fraction : List Char → Prop
  /-- No fraction. -/
  | none : Fraction []
  /-- A point and digits. -/
  | some {cs : List Char} (digits : Digits cs) : Fraction ('.' :: cs)

/-- A mark, maybe a sign, and digits, or nothing: `e5`, `E-5`. -/
inductive Exponent : List Char → Prop
  /-- No exponent. -/
  | none : Exponent []
  /-- A mark and digits. -/
  | plain {mark : Char} {cs : List Char} (is_mark : mark = 'e' ∨ mark = 'E') (digits : Digits cs) :
      Exponent (mark :: cs)
  /-- A mark, a sign and digits. -/
  | signed {mark sign : Char} {cs : List Char} (is_mark : mark = 'e' ∨ mark = 'E')
      (is_sign : sign = '+' ∨ sign = '-') (digits : Digits cs) : Exponent (mark :: sign :: cs)

/-- **The texts of a number:** `natural` if it has no sign, fraction or exponent. -/
inductive Numeral : Json → List Char → Prop
  /-- A whole number without a sign. -/
  | natural {cs : List Char} (whole : Whole cs) : Numeral (.natural (ofDigits cs)) cs
  /-- A number with a sign, a fraction or an exponent. -/
  | number {minus cs fraction exponent : List Char} (sign : minus = [] ∨ minus = ['-'])
      (whole : Whole cs) (is_fraction : Fraction fraction) (is_exponent : Exponent exponent)
      (other : minus ≠ [] ∨ fraction ≠ [] ∨ exponent ≠ []) :
      Numeral .number (minus ++ (cs ++ (fraction ++ exponent)))

/-! ### Values -/

/-- Something that stands between blanks: `inner`. -/
structure Padded (α : Type) where
  /-- The blanks before it. -/
  before : List Char
  /-- It. -/
  inner : α
  /-- The blanks behind it. -/
  after : List Char

/-- There are but blanks around it: `before` and `after` are `Blanks`. -/
def Padded.Blank {α : Type} (p : Padded α) : Prop := Blanks p.before ∧ Blanks p.after

/-- The characters of what stands between blanks: `before`, the `text` of `inner`, and `after`. -/
def Padded.chars {α : Type} (text : α → List Char) (p : Padded α) : List Char :=
  p.before ++ (text p.inner ++ p.after)

/-- Items with blanks around them and `,` between them. -/
def commas {α : Type} (text : α → List Char) (items : List (Padded α)) : List Char :=
  List.intercalate [','] (items.map (Padded.chars text))

theorem commas_cons {α : Type} (text : α → List Char) (i : Padded α) (items : List (Padded α)) :
    commas text (i :: items) = i.chars text ++ items.flatMap fun i => ',' :: i.chars text := by
  induction items generalizing i with
  | nil => simp [commas, List.intercalate]
  | cons i' items ih =>
    have hmore := ih i'
    simp only [commas, List.intercalate, List.map_cons, List.intersperse_cons_cons,
      List.flatten_cons, List.flatMap_cons] at hmore ⊢
    rw [hmore]
    simp

/-- An element of a sequence. -/
structure Element where
  /-- The element. -/
  value : Json
  /-- Its text. -/
  text : List Char

/-- A pair of an object. -/
structure Member where
  /-- The name. -/
  name : Option String
  /-- The text of the name. -/
  key : List Char
  /-- The blanks before the colon. -/
  before : List Char
  /-- The blanks behind it. -/
  after : List Char
  /-- The value. -/
  value : Json
  /-- The text of the value. -/
  text : List Char

/-- The characters of a pair. -/
def Member.chars (m : Member) : List Char := m.key ++ (m.before ++ ':' :: (m.after ++ m.text))

/-- **The texts of a value:** `Spelled j cs` if `cs` is one of `j`, with no blanks around it. -/
inductive Spelled : Json → List Char → Prop
  /-- `null`. -/
  | null : Spelled .null "null".toList
  /-- `true`. -/
  | yes : Spelled (.bool true) "true".toList
  /-- `false`. -/
  | no : Spelled (.bool false) "false".toList
  /-- A number. -/
  | numeral {j : Json} {cs : List Char} (numeral : Numeral j cs) : Spelled j cs
  /-- A quoted text. -/
  | text {s : Option String} {cs : List Char} (quoted : Quoted s cs) : Spelled (.text s) cs
  /-- A sequence without elements. -/
  | noElements {cs : List Char} (blanks : Blanks cs) : Spelled (.array []) ('[' :: (cs ++ [']']))
  /-- A sequence with elements. -/
  | elements {items : List (Padded Element)} (some_item : items ≠ [])
      (blank : ∀ i ∈ items, i.Blank) (spelled : ∀ i ∈ items, Spelled i.inner.value i.inner.text) :
      Spelled (.array (items.map (·.inner.value))) ('[' :: (commas Element.text items ++ [']']))
  /-- An object without pairs. -/
  | noMembers {cs : List Char} (blanks : Blanks cs) :
      Spelled (.object []) ('\x7b' :: (cs ++ ['\x7d']))
  /-- An object with pairs. -/
  | members {items : List (Padded Member)} (some_item : items ≠ [])
      (blank : ∀ i ∈ items, i.Blank) (names : ∀ i ∈ items, Quoted i.inner.name i.inner.key)
      (colon : ∀ i ∈ items, Blanks i.inner.before ∧ Blanks i.inner.after)
      (spelled : ∀ i ∈ items, Spelled i.inner.value i.inner.text) :
      Spelled (.object (items.map fun i => (i.inner.name, i.inner.value)))
        ('\x7b' :: (commas Member.chars items ++ ['\x7d']))

/-- **The documents of a value:** its texts with `Blanks` around them. -/
inductive Document : Json → String → Prop
  /-- A value between blanks. -/
  | mk {j : Json} {before cs after : List Char} (blank_before : Blanks before)
      (spelled : Spelled j cs) (blank_after : Blanks after) :
      Document j (String.ofList (before ++ (cs ++ after)))

end Json

end BatchJournal
