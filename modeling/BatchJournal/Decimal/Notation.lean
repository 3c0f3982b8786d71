import BatchJournal.Decimal.Shortest

namespace BatchJournal

/-!
# Text of a double-precision number

Three texts of one number share the shortest digits and differ in layout, so the layout is a value
(`Notation`).

* `Notation.plain` — messages: positional at every size, no point when the number is integral.
* `Notation.described` — descriptions of options: at least one fraction digit, and an exponent from
  `10 ^ 16` up and below `10 ^ -4`.
* `Notation.saved` — configuration files: positional with at least one fraction digit, and the
  lower-case names of the special values.
-/

/-- How a number is laid out: `plain`, `described` or `saved`. -/
structure Notation where
  /-- Digits that follow the point at least. -/
  fractionDigits : Nat
  /-- From `10 ^ n` upward an exponent is written; `none` for never. -/
  exponentFrom : Option Nat
  /-- Below `10 ^ -n` an exponent is written; `none` for never. -/
  exponentBelow : Option Nat
  /-- The name of a NaN. -/
  nan : String

namespace Notation

/-- Positional, no exponent, no forced fraction: `1`. -/
def plain : Notation := ⟨0, none, none, "NaN"⟩

/-- One fraction digit at least, an exponent for the very large and the very small: `1.0`,
    `1e16`. -/
def described : Notation := ⟨1, some 16, some 4, "NaN"⟩

/-- One fraction digit at least, never an exponent: `1.0`. -/
def saved : Notation := ⟨1, none, none, "nan"⟩

/-- The digits of a decimal, as many as its `count`. -/
def digitChars (d : Decimal) : List Char :=
  let cs := Nat.toDigits 10 d.digits
  List.replicate (d.count - cs.length) '0' ++ cs

/-- **Positional layout:** digits before the point (at least a `0`), then the point and the fraction
    if there is one or `fractionDigits` demand one. -/
def positional (fractionDigits : Nat) (cs : List Char) (point : Int) : List Char :=
  let whole :=
    if point ≤ 0 then ['0'] else cs.take point.toNat ++ List.replicate (point.toNat - cs.length) '0'
  let fraction := if point ≤ 0 then List.replicate (-point).toNat '0' ++ cs else cs.drop point.toNat
  let fraction := fraction ++ List.replicate (fractionDigits - fraction.length) '0'
  if fraction.isEmpty then whole else whole ++ '.' :: fraction

/-- **Exponent layout:** one digit, the point and the rest if any, and the power of ten behind an
    `e`. -/
def scientific (cs : List Char) (point : Int) : List Char :=
  let mantissa :=
    match cs with
    | [] => []
    | [c] => [c]
    | c :: rest => c :: '.' :: rest
  mantissa ++ 'e' :: (toString (point - 1)).toList

/-- The text of a positive decimal, `positional` or `scientific` as the notation says. -/
def ofDecimal (n : Notation) (d : Decimal) : List Char :=
  let cs := digitChars d
  -- A number from `10 ^ p` up has more than `p` digits before its point.
  let large := n.exponentFrom.any fun (p : Nat) => (p : Int) < d.point
  let small := n.exponentBelow.any fun (p : Nat) => d.point ≤ -(p : Int)
  if large || small then scientific cs d.point else positional n.fractionDigits cs d.point

/-- **The text of a number:** a `-` wherever the sign bit is set, a NaN without one. -/
def text (n : Notation) (x : Binary64) : String :=
  let sign (negative : Bool) : List Char := if negative then ['-'] else []
  match x.value with
  | .nan => n.nan
  | .infinite s => String.ofList (sign s ++ "inf".toList)
  | .finite s 0 _ => String.ofList (sign s ++ positional n.fractionDigits ['0'] 1)
  | .finite s m e => String.ofList (sign s ++ n.ofDecimal (Shortest.ofFinite m e))

end Notation

end BatchJournal
