namespace BatchJournal

/-!
# Parsers of text

A parser takes a value from the front of a list of characters and leaves the rest, or fails.  A
failed alternative leaves nothing behind, so `orElse` tries the next one at the same place.
Repetition is bounded by the number of characters left, since every round takes at least one.
-/

/-- A parser of `α`. -/
abbrev Parser := StateT (List Char) Option

namespace Parser

/-- The parser that gives `none`, whatever stands there. -/
def fail {α : Type} : Parser α := fun _ => none

/-- The next character, left where it is; `none` at the end. -/
def peek : Parser (Option Char) := fun cs => some (cs.head?, cs)

/-- The next character, which satisfies the test `p`. -/
def satisfy (p : Char → Bool) : Parser Char := fun
  | [] => none
  | c :: cs => if p c then some (c, cs) else none

/-- The character `c`. -/
def char (c : Char) : Parser Unit := do let _ ← satisfy (· = c)

/-- The text `s`. -/
def literal (s : String) : Parser Unit := fun cs =>
  if s.toList.isPrefixOf cs then some ((), cs.drop s.toList.length) else none

/-- All characters up to the first that fails the test `p`. -/
def takeWhile (p : Char → Bool) : Parser (List Char) := fun cs =>
  some (cs.takeWhile p, cs.dropWhile p)

/-- At least one character, up to the first that fails the test `p`. -/
def takeWhile1 (p : Char → Bool) : Parser (List Char) := do
  let cs ← takeWhile p
  if cs.isEmpty then fail else return cs

/-- The end of the text: fails where a character stands. -/
def done : Parser Unit := fun cs => if cs.isEmpty then some ((), cs) else none

/-- Two parsers, `q` where `p` fails. -/
def either {α : Type} (p q : Parser α) : Parser α := fun cs =>
  match p cs with
  | some r => some r
  | none => q cs

/-- The first of several parsers that does not fail, or `fail`. -/
def choice {α : Type} : List (Parser α) → Parser α
  | [] => fail
  | p :: ps => either p (choice ps)

/-- What `p` gives, or `none` where it fails. -/
def optional {α : Type} (p : Parser α) : Parser (Option α) :=
  either (some <$> p) (pure none)

/-- As many rounds as succeed, at most one for each character of `bound`, after those already read
    (latest first). -/
def manyOnto {α : Type} (p : Parser α) : List α → List Char → Parser (List α)
  | read, [] => pure read.reverse
  | read, _ :: bound => fun cs =>
    match p cs with
    | none => some (read.reverse, cs)
    | some (a, rest) => manyOnto p (a :: read) bound rest

/-- **Repetition:** as many rounds of `p` as succeed. Each must take a character. -/
def many {α : Type} (p : Parser α) : Parser (List α) := fun cs => manyOnto p [] cs cs

/-- One round, and then as many as succeed behind a `separator`. -/
def sepBy1 {α : Type} (p : Parser α) (separator : Parser Unit) : Parser (List α) := do
  let first ← p
  let more ← many do separator; p
  return first :: more

/-- What a parser makes of a whole text: `none` if it leaves something. -/
def run {α : Type} (p : Parser α) (s : String) : Option α :=
  match p s.toList with
  | some (a, []) => some a
  | _ => none

end Parser

end BatchJournal
