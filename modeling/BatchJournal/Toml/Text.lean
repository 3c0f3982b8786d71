import BatchJournal.Bytes.Hex
import BatchJournal.Text.Parser

namespace BatchJournal

/-!
# TOML strings

A string stands between double quotes, where a backslash begins an escape, or between single quotes,
where nothing is escaped; either kind of quote can be tripled, and then line breaks may stand
inside.

* `Toml.string` — the parser of all four kinds.
* `Toml.lineString` — the parser of the kinds that keep to one line.
-/

namespace Toml

/-! ### Characters and blanks -/

/-- A blank within a line: a space or a tab. -/
def blank (c : Char) : Bool := c = ' ' || c = '\t'

/-- A character that may stand in a comment: no control character but `\t`. -/
def commentChar (c : Char) : Bool := c = '\t' || (0x20 ≤ c.toNat && c ≠ '\x7f')

/-- Blanks within a line. -/
def blanks : Parser Unit := do let _ ← Parser.takeWhile blank

/-- The end of a line: `\n`, alone or behind `\r`. -/
def newline : Parser Unit :=
  Parser.either (Parser.char '\n') do Parser.char '\r'; Parser.char '\n'

/-! ### Escapes -/

/-- The character of `count` hexadecimal digits. -/
def codePoint (count : Nat) : Parser Char := do
  let mut n := 0
  for _ in List.range count do
    match Hex.value? (← Parser.satisfy fun _ => true) with
    | some d => n := 16 * n + d
    | none => Parser.fail
  if n < 0xD800 ∨ 0xDFFF < n ∧ n < 0x110000 then return Char.ofNat n else Parser.fail

/-- What stands behind a `\`: a letter for a character, or digits for a code point. -/
def escaped : Parser Char := do
  match ← Parser.satisfy fun _ => true with
  | 'b' => return '\x08'
  | 'f' => return '\x0c'
  | 'n' => return '\n'
  | 'r' => return '\r'
  | 't' => return '\t'
  | '"' => return '"'
  | '\\' => return '\\'
  | 'u' => codePoint 4
  | 'U' => codePoint 8
  | _ => Parser.fail

/-! ### The four kinds -/

/-- A character or escape between double quotes, for the character that it stands for. -/
def basicChar : Parser Char := do
  let c ← Parser.satisfy fun c => commentChar c && c ≠ '"'
  if c = '\\' then escaped else return c

/-- A string in double quotes, of `basicChar`. -/
def basic : Parser String := do
  Parser.char '"'
  let cs ← Parser.many basicChar
  Parser.char '"'
  return String.ofList cs

/-- A string in single quotes, where nothing is escaped. -/
def plain : Parser String := do
  Parser.char '\''
  let cs ← Parser.takeWhile fun c => commentChar c && c ≠ '\''
  Parser.char '\''
  return String.ofList cs

/-- A line break that a `\` takes back, with the blanks and breaks behind it. -/
def joinedLine : Parser (List Char) := do
  Parser.char '\\'
  blanks
  newline
  let _ ← Parser.many
    (Parser.either (do let _ ← Parser.satisfy blank) newline)
  return []

/-- One piece of a string in tripled double quotes: a character, an escape, a line break or a
    `joinedLine`. -/
def basicPiece : Parser (List Char) :=
  Parser.choice
    [ joinedLine,
      (do return [← basicChar]),
      (do newline; return ['\n']) ]

/-- One piece of a string in tripled single quotes: a character or a line break. -/
def plainPiece : Parser (List Char) :=
  Parser.choice
    [ (do return [← Parser.satisfy fun c => commentChar c && c ≠ '\'']),
      (do newline; return ['\n']) ]

/-- A quote or two before something: `before` is looked for behind them. -/
def looseQuotes (quote : Char) (before : Parser Unit) : Parser (List Char) :=
  Parser.either
    (do Parser.char quote; Parser.char quote; ahead before; return [quote, quote])
    (do Parser.char quote; ahead before; return [quote])
where
  /-- Checks what comes without taking it. -/
  ahead (p : Parser Unit) : Parser Unit := fun cs => (p cs).map fun _ => ((), cs)

/-- A string in tripled quotes: a line break right behind the opening is dropped, and up to two of
    `quote` may stand anywhere, the end included. -/
def tripled (quote : Char) (piece : Parser (List Char)) : Parser String := do
  let delimiter := Parser.literal (String.ofList [quote, quote, quote])
  delimiter
  let _ ← Parser.optional newline
  let start ← Parser.many piece
  let more ← Parser.many do
    let quotes ← looseQuotes quote do let _ ← piece
    let pieces ← Parser.many piece
    return quotes ++ pieces.flatten
  let last ← Parser.optional (looseQuotes quote delimiter)
  delimiter
  return String.ofList (start.flatten ++ (more.flatten ++ last.getD []))

/-- **A string** of any of the four kinds of `Quotes`. -/
def string : Parser String :=
  Parser.choice [tripled '"' basicPiece, basic, tripled '\'' plainPiece, plain]

/-- A string that keeps to one line, as keys must: `basic` or `plain`. -/
def lineString : Parser String := Parser.either basic plain

end Toml

end BatchJournal
