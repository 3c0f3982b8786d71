import BatchJournal.Bytes.Hex
import BatchJournal.Text.Parser

namespace BatchJournal

/-!
# JSON values

What a JSON text says, with everything kept that its interpretation can depend on: an object keeps
its pairs in order and with repetitions, a number is whole or not, and a text is known to be
well formed or not, since escapes can spell halves of surrogate pairs.

* `Json.parse` — the value of a text; nothing when the text is no JSON.
* `Json.quote` — a text as a JSON string.
-/

/-- A JSON value, as far as a form can tell: other numbers than naturals are all one `number`. -/
inductive Json where
  /-- `null`. -/
  | null
  /-- A truth value. -/
  | bool (value : Bool)
  /-- A number without sign, fraction and exponent. -/
  | natural (value : Nat)
  /-- Any other number. -/
  | number
  /-- A text; nothing if its escapes spell no text. -/
  | text (value : Option String)
  /-- A sequence. -/
  | array (elements : List Json)
  /-- Named values in order. -/
  | object (fields : List (Option String × Json))

namespace Json

/-! ### Texts -/

/-- A character of a quoted text: itself, or a 16-bit unit given by an escape `\u`. -/
inductive Piece where
  /-- A character. -/
  | char (c : Char)
  /-- A unit. -/
  | unit (n : Nat)
deriving DecidableEq, Repr

/-- **The text of the pieces.** Two escaped halves of a pair make one character; a half by itself
    makes no text, so `none`. -/
def assemble : List Piece → Option (List Char)
  | [] => some []
  | .char c :: rest => (assemble rest).map (c :: ·)
  | .unit n :: rest =>
    if 0xD800 ≤ n ∧ n < 0xDC00 then
      match rest with
      | .unit m :: rest' =>
        if 0xDC00 ≤ m ∧ m < 0xE000 then
          (assemble rest').map
            (Char.ofNat (0x10000 + (n - 0xD800) * 0x400 + (m - 0xDC00)) :: ·)
        else none
      | _ => none
    -- A second half that no first half announced.
    else if 0xDC00 ≤ n ∧ n < 0xE000 then none
    else (assemble rest).map (Char.ofNat n :: ·)

/-- The number of four hexadecimal digits, which follow `\u`. -/
def unitEscape : Parser Nat := do
  let mut n := 0
  for _ in [0, 1, 2, 3] do
    match Hex.value? (← Parser.satisfy fun _ => true) with
    | some d => n := 16 * n + d
    | none => Parser.fail
  return n

/-- One character or escape of a quoted text. -/
def piece : Parser Piece := do
  let c ← Parser.satisfy fun c => c ≠ '"' && 0x20 ≤ c.toNat
  if c = '\\' then
    match ← Parser.satisfy fun _ => true with
    | '"' => return .char '"'
    | '\\' => return .char '\\'
    | '/' => return .char '/'
    | 'b' => return .char '\x08'
    | 'f' => return .char '\x0c'
    | 'n' => return .char '\n'
    | 'r' => return .char '\r'
    | 't' => return .char '\t'
    | 'u' => return .unit (← unitEscape)
    | _ => Parser.fail
  else return .char c

/-- A quoted text: the `piece`s up to the quote. -/
def quoted : Parser (Option String) := do
  Parser.char '"'
  let pieces ← Parser.many piece
  Parser.char '"'
  return (assemble pieces).map String.ofList

/-! ### Numbers and blanks -/

/-- Insignificant blanks: spaces, tabs, line breaks and returns. -/
def blanks : Parser Unit := do
  let _ ← Parser.takeWhile fun c => c = ' ' || c = '\n' || c = '\t' || c = '\r'

/-- A decimal digit, `0` to `9`. -/
def digit (c : Char) : Bool := '0' ≤ c && c ≤ '9'

/-- The number of decimal digits, the first of them the highest. -/
def ofDigits (cs : List Char) : Nat := cs.foldl (fun n c => 10 * n + (c.toNat - 48)) 0

/-- A number: no `0` stands before other digits, and a point or an exponent mark is followed by
    digits. -/
def numeral : Parser Json := do
  let minus ← Parser.optional (Parser.char '-')
  let whole ← Parser.takeWhile1 digit
  if whole.head? = some '0' && whole.length ≠ 1 then Parser.fail
  let fraction ← Parser.optional do Parser.char '.'; Parser.takeWhile1 digit
  if fraction.isNone && (← Parser.peek) = some '.' then Parser.fail
  let exponent ← Parser.optional do
    let _ ← Parser.satisfy fun c => c = 'e' || c = 'E'
    let _ ← Parser.optional (Parser.satisfy fun c => c = '+' || c = '-')
    Parser.takeWhile1 digit
  -- A mark without digits behind it is not left to whatever comes next.
  if exponent.isNone then
    match ← Parser.peek with
    | some 'e' | some 'E' => Parser.fail
    | _ => pure ()
  return if minus.isNone && fraction.isNone && exponent.isNone then .natural (ofDigits whole)
    else .number

/-! ### Values -/

/-- Elements between brackets, separated by `,`. -/
def listed {α : Type} (opening closing : Char) (element : Parser α) : Parser (List α) := do
  Parser.char opening
  blanks
  Parser.either
    (do Parser.char closing; return [])
    (do
      let elements ← Parser.sepBy1 (do let a ← element; blanks; return a)
        (do Parser.char ','; blanks)
      Parser.char closing
      return elements)

/-- A value nested at most `levels` levels deep. -/
def value : Nat → Parser Json
  | 0 => Parser.fail
  | levels + 1 => do
    match ← Parser.peek with
    | some 'n' => Parser.literal "null"; return .null
    | some 't' => Parser.literal "true"; return .bool true
    | some 'f' => Parser.literal "false"; return .bool false
    | some '"' => return .text (← quoted)
    | some '[' => return .array (← listed '[' ']' (value levels))
    | some '\x7b' => return .object (← listed '\x7b' '\x7d' do
        let name ← quoted
        blanks
        Parser.char ':'
        blanks
        return (name, ← value levels))
    | _ => numeral

/-- **The value of a text,** with blanks around it.  It cannot nest deeper than it is long. -/
def parse (s : String) : Option Json :=
  Parser.run (do blanks; let v ← value (s.length + 1); blanks; return v) s

/-! ### Writing -/

/-- A character inside a JSON string: itself or its escape. -/
def escape (c : Char) : List Char :=
  match c with
  | '"' => ['\\', '"']
  | '\\' => ['\\', '\\']
  | '\n' => ['\\', 'n']
  | '\r' => ['\\', 'r']
  | '\t' => ['\\', 't']
  | '\x08' => ['\\', 'b']
  | '\x0c' => ['\\', 'f']
  | c => if c.toNat < 0x20 then '\\' :: 'u' :: Hex.digits 4 c.toNat else [c]

/-- **A text as a JSON string:** quotes, backslashes and control characters are escaped by
    `escape`. -/
def quote (s : String) : String := String.ofList ('"' :: (s.toList.flatMap escape ++ ['"']))

end Json

end BatchJournal
