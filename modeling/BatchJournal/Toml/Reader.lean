import BatchJournal.Toml.Text
import BatchJournal.Toml.Value

namespace BatchJournal

/-!
# Reading TOML

The grammar of TOML 1.0, on characters.  Numbers, dates and strings are parsed as they are spelled
(`Toml.scalar`); values nest to a bounded depth (`Toml.value`); a document is a sequence of lines
(`Toml.lines`), which `Toml.parse` puts together.
-/

namespace Toml

/-! ### Whole numbers -/

/-- A decimal digit, `0` to `9`. -/
def decimalDigit (c : Char) : Bool := '0' ≤ c && c ≤ '9'

/-- A digit of a base, and its value: below `base`. -/
def digitBelow (base : Nat) : Parser Nat := do
  let c ← Parser.satisfy fun c => (Hex.value? c).any (· < base)
  return (Hex.value? c).getD 0

/-- Digits of a base, single underscores between them, as `1_000`. -/
def digits (base : Nat) : Parser (List Nat) := do
  let first ← digitBelow base
  let more ← Parser.many do
    let _ ← Parser.optional (Parser.char '_')
    digitBelow base
  return first :: more

/-- The number of digits in a base, the first of them the highest. -/
def ofDigits (base : Nat) (ds : List Nat) : Nat := ds.foldl (fun n d => base * n + d) 0

/-- A whole number in 64 bits: `-2 ^ 63` to `2 ^ 63 - 1`. -/
def inRange (n : Int) : Parser Int :=
  if -0x8000000000000000 ≤ n ∧ n < 0x8000000000000000 then pure n else Parser.fail

/-- A sign, and whether it is a `-`; there may be none. -/
def sign : Parser Bool := do
  match ← Parser.optional (Parser.satisfy fun c => c = '+' || c = '-') with
  | some '-' => return true
  | _ => return false

/-- A whole number without base mark: no `0` stands before other digits. -/
def decimal : Parser (Bool × List Nat) := do
  let minus ← sign
  if (← Parser.peek) = some '0' then
    Parser.char '0'
    return (minus, [0])
  else return (minus, ← digits 10)

/-- A whole number, by `decimal` or behind the mark of a base, that is `inRange`. -/
def integer : Parser Int := do
  let based (mark : String) (base : Nat) : Parser Int := do
    Parser.literal mark
    inRange (ofDigits base (← digits base))
  Parser.choice
    [ based "0x" 16, based "0o" 8, based "0b" 2,
      do
        let (minus, ds) ← decimal
        let n : Int := ofDigits 10 ds
        inRange (if minus then -n else n) ]

/-! ### Floating-point numbers -/

/-- An exponent mark with its number, as `e-5`. -/
def exponent : Parser Int := do
  let _ ← Parser.satisfy fun c => c = 'e' || c = 'E'
  let minus ← sign
  let n : Int := ofDigits 10 (← digits 10)
  return if minus then -n else n

/-- A number with a fraction, an exponent, or both; too large a positive one is refused. -/
def fractional : Parser Binary64 := do
  let (minus, whole) ← decimal
  let fraction ← Parser.optional do Parser.char '.'; digits 10
  let power ← Parser.optional exponent
  if fraction.isNone && power.isNone then Parser.fail
  let fraction := fraction.getD []
  let x := Binary64.ofDecimal minus (ofDigits 10 (whole ++ fraction))
    (power.getD 0 - fraction.length)
  if x = .infinity false then Parser.fail else return x

/-- An infinity or a NaN: `inf` or `nan`, with a sign or without. -/
def special : Parser Binary64 := do
  let minus ← sign
  Parser.either
    (do Parser.literal "inf"; return .infinity minus)
    (do
      Parser.literal "nan"
      return .ofMagnitude minus Binary64.nan.magnitude)

/-! ### Dates and times -/

/-- A number of exactly `count` digits between two bounds. -/
def field (count low high : Nat) : Parser Nat := do
  let mut n := 0
  for _ in List.range count do n := 10 * n + (← digitBelow 10)
  if low ≤ n ∧ n ≤ high then return n else Parser.fail

/-- How many days a month has, `29` at most for the second. -/
def daysIn (year month : Nat) : Nat :=
  if month = 2 then
    if year % 4 = 0 ∧ (year % 100 ≠ 0 ∨ year % 400 = 0) then 29 else 28
  else if month = 4 ∨ month = 6 ∨ month = 9 ∨ month = 11 then 30 else 31

/-- A day of a calendar, as `1979-05-27`. -/
def date : Parser Unit := do
  let year ← field 4 0 9999
  Parser.char '-'
  let month ← field 2 1 12
  Parser.char '-'
  let _ ← field 2 1 (daysIn year month)

/-- A time of day, to the second or finer, as `07:32:00`. -/
def time : Parser Unit := do
  let _ ← field 2 0 23
  Parser.char ':'
  let _ ← field 2 0 59
  Parser.char ':'
  let _ ← field 2 0 60
  let _ ← Parser.optional do Parser.char '.'; Parser.takeWhile1 decimalDigit

/-- A distance from universal time: `Z`, or `+01:00`. -/
def offset : Parser Unit :=
  Parser.either
    (do let _ ← Parser.satisfy fun c => c = 'Z' || c = 'z')
    (do
      let _ ← Parser.satisfy fun c => c = '+' || c = '-'
      let _ ← field 2 0 23
      Parser.char ':'
      let _ ← field 2 0 59)

/-- A date, a time, or both, the latter with an `offset` or without. -/
def dateTime : Parser Unit :=
  Parser.either
    (do
      date
      let _ ← Parser.optional do
        let _ ← Parser.satisfy fun c => c = 'T' || c = 't' || c = ' '
        time
        Parser.optional offset)
    time

/-! ### Values -/

/-- A value that is no array or table: the first of the kinds that fits. -/
def scalar : Parser Value :=
  Parser.choice
    [ (do return .text (← string)),
      (do Parser.literal "true"; return .bool true),
      (do Parser.literal "false"; return .bool false),
      (do dateTime; return .dateTime),
      (do return .float (← fractional)),
      (do return .float (← special)),
      (do return .integer (← integer)) ]

/-- A part of a key: a bare one or a `lineString`. -/
def keyPart : Parser String :=
  Parser.either lineString do
    let cs ← Parser.takeWhile1 fun c =>
      ('a' ≤ c && c ≤ 'z') || ('A' ≤ c && c ≤ 'Z') || decimalDigit c || c = '_' || c = '-'
    return String.ofList cs

/-- How deep values may nest, and how many parts a key may have. -/
def depthLimit : Nat := 79

/-- **A key:** parts with points between them, blanks around, as `a.b`. -/
def key : Parser (List String) := do
  let parts ← Parser.sepBy1 (do blanks; let p ← keyPart; blanks; return p) (Parser.char '.')
  if parts.length ≤ depthLimit then return parts else Parser.fail

/-- A comment up to the end of its line, behind `#`. -/
def comment : Parser Unit := do
  Parser.char '#'
  let _ ← Parser.takeWhile commentChar

/-- Blanks, comments and line breaks, as they may stand in an array. -/
def padding : Parser Unit := do
  blanks
  let _ ← Parser.many do
    let _ ← Parser.optional comment
    newline
    blanks

/-- Elements between `[` and `]`, on any number of lines; a comma may follow the last. -/
def bracketed (element : Parser Value) : Parser Value := do
  Parser.char '['
  let elements ← Parser.optional do
    let elements ← Parser.sepBy1 (do padding; let v ← element; padding; return v) (Parser.char ',')
    let _ ← Parser.optional (Parser.char ',')
    return elements
  padding
  Parser.char ']'
  return .array (elements.getD [])

/-- Keys with values between braces, on one line: `inline`. -/
def braced (element : Parser Value) : Parser Value := do
  Parser.char '\x7b'
  blanks
  let fields ← Parser.optional do
    Parser.sepBy1
      (do
        let k ← key
        Parser.char '='
        blanks
        let v ← element
        blanks
        return (k, v))
      (Parser.char ',')
  blanks
  Parser.char '\x7d'
  let fields := fields.getD []
  if (Table.ofFields fields).isSome then return .inline fields else Parser.fail

/-- **A value** in which arrays and tables nest at most `levels` deep, empty ones included. -/
def value : Nat → Parser Value
  | 0 => scalar
  | levels + 1 => Parser.choice [scalar, bracketed (value levels), braced (value levels)]

/-! ### Documents -/

/-- The end of a line, a `comment` before it. -/
def lineEnd : Parser Unit := do
  blanks
  let _ ← Parser.optional comment
  Parser.either newline Parser.done

/-- A line of a document, or `none` on an empty one. -/
def line : Parser (Option Line) := do
  blanks
  match ← Parser.peek with
  | none => Parser.fail
  | some '#' | some '\n' | some '\r' => lineEnd; return none
  | some '[' =>
    Parser.either
      (do
        Parser.literal "[["
        let k ← key
        Parser.literal "]]"
        lineEnd
        return some (.element k))
      (do
        Parser.char '['
        let k ← key
        Parser.char ']'
        lineEnd
        return some (.header k))
  | _ =>
    let k ← key
    Parser.char '='
    blanks
    let v ← value depthLimit
    lineEnd
    return some (.assign k v)

/-- All lines of a document, each up to its `lineEnd`. -/
def lines : Parser (List Line) := do
  let found ← Parser.many line
  blanks
  return found.filterMap id

/-- **The table of a document,** a byte order mark at its front skipped: `Table.ofLines` of its
    lines. -/
def parse (s : String) : Option Table :=
  let s := if s.toList.head? = some '\uFEFF' then String.ofList (s.toList.drop 1) else s
  (Parser.run lines s).bind Table.ofLines

end Toml

end BatchJournal
