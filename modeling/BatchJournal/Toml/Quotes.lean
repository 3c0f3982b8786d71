import BatchJournal.Bytes.Hex

namespace BatchJournal

/-!
# Writing TOML strings

A string is written between the plainest quotes that it can stand between as it is: double ones,
single ones, tripled double ones, tripled single ones, in this order of preference.  Where there are
none, escapes are written between double quotes.

* `Toml.Quotes.choose` — the quotes of a string.
* `Toml.quote` — the string as it is written into a file.
-/

namespace Toml

/-- The four kinds of quotes, `double` and `single`, each of them also tripled. -/
inductive Quotes where
  /-- Double quotes. -/
  | double
  /-- Single quotes. -/
  | single
  /-- Tripled double quotes. -/
  | tripledDouble
  /-- Tripled single quotes. -/
  | tripledSingle
deriving DecidableEq, Repr

/-- A control character that no kind of quotes lets stand for itself: below `0x20` but the tab and
    the line break, or `0x7f`. -/
def control (c : Char) : Bool := (c ≤ '\x1f' && c ≠ '\t' && c ≠ '\n') || c = '\x7f'

/-- The greatest number of times that `q` stands in a row. -/
def longestRun (q : Char) (cs : List Char) : Nat :=
  (cs.foldl (fun (now, most) c => if c = q then (now + 1, max most (now + 1)) else (0, most))
    (0, 0)).2

namespace Quotes

/-- **A string suits these quotes** if it can stand between them as it is, a tab apart, which is
    escaped between double ones and still no reason to choose others. -/
def suit (cs : List Char) : Quotes → Bool
  | .double =>
    !cs.any control && !cs.contains '\n' && !cs.contains '\\' && !cs.contains '"'
  | .single => !cs.any control && !cs.contains '\n' && !cs.contains '\''
  | .tripledDouble => !cs.any control && !cs.contains '\\' && longestRun '"' cs ≤ 2
  | .tripledSingle => !cs.any control && longestRun '\'' cs ≤ 2

/-- **The quotes of a string:** the first kind that has `suit`, and where none does `double`,
    tripled if there are line breaks. -/
def choose (cs : List Char) : Quotes :=
  ([double, single, tripledDouble, tripledSingle].find? (suit cs)).getD
    (if cs.contains '\n' then .tripledDouble else .double)

/-- The quotes as they are written, in front of a string and behind it. -/
def delimiter : Quotes → String
  | double => "\""
  | single => "'"
  | tripledDouble => "\"\"\""
  | tripledSingle => "'''"

end Quotes

/-- A character between double quotes; a line break stands for itself when they are tripled, so for
    `lines`. -/
def escape (lines : Bool) (c : Char) : List Char :=
  match c with
  | '\x08' => ['\\', 'b']
  | '\t' => ['\\', 't']
  | '\n' => if lines then ['\n'] else ['\\', 'n']
  | '\x0c' => ['\\', 'f']
  | '\r' => ['\\', 'r']
  | '\\' => ['\\', '\\']
  | c =>
    if control c then '\\' :: 'u' :: (Hex.digits 4 c.toNat).map Char.toUpper else [c]

/-- **The text between double quotes.**  So many double quotes in a row as are `loose` stand for
    themselves, the next one is escaped, and the count begins again behind it. -/
def escapeAll (lines : Bool) (loose : Nat) (cs : List Char) : String :=
  (cs.foldl
    (fun (text, row) c =>
      if c = '"' then if row < loose then (text.push c, row + 1) else (text ++ "\\\"", 0)
      else (text ++ String.ofList (escape lines c), 0))
    ("", 0)).1

/-- What stands between the quotes of a string: `escapeAll` for the double ones, the string itself
    for the single ones. -/
def Quotes.body (s : String) : Quotes → String
  | double => escapeAll false 0 s.toList
  | tripledDouble => escapeAll true 2 s.toList
  | single | tripledSingle => s

/-- **A string as it is written,** between the quotes that `choose` gives. Where it has line breaks,
    tripled quotes are followed by one of their own. -/
def quote (s : String) : String :=
  let quotes := Quotes.choose s.toList
  let opening :=
    match quotes with
    | .double | .single => ""
    | .tripledDouble | .tripledSingle => if s.toList.contains '\n' then "\n" else ""
  quotes.delimiter ++ opening ++ quotes.body s ++ quotes.delimiter

end Toml

end BatchJournal
