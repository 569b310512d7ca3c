import ResourceAssembler.Toml.Cursor

/-!
# Strings, keys and gaps

Strings stand between double quotes, where a backslash starts an escape, or between single quotes,
where nothing is special. Three quotes instead of one let a string go over several lines; a newline
directly behind them does not count, and every newline in the string is a single line feed.
-/

namespace ResourceAssembler.Toml

open Scan

/-! ## Gaps -/

/-- A space or a tab. -/
def isBlank (c : Char) : Bool :=
  c = ' ' || c = '\t'

/-- A character that may stand in a string or a comment as itself: no
control character but the tab. -/
def isPlain (c : Char) : Bool :=
  c = '\t' || (' ' ≤ c && c ≠ '\x7f')

def blanks : Scan Unit :=
  discard (repeated (char isBlank))

/-- A line feed, or a carriage return with one. -/
def newline : Scan Unit :=
  exactly "\n" <|> exactly "\r\n"

def comment : Scan Unit := do
  exactly "#"
  discard (repeated (char isPlain))

/-- The rest of a line that says nothing more, up to the newline or the end of the text. -/
def lineEnd : Scan Unit := do
  blanks
  discard (optional comment)
  newline <|> finish

/-- Blanks, newlines and comments. -/
def gap : Scan Unit :=
  discard (repeated (discard (char isBlank) <|> (discard (optional comment) *> newline)))

/-! ## Strings -/

/-- The value of a hexadecimal digit. -/
def hexValue? (c : Char) : Option Nat :=
  if '0' ≤ c ∧ c ≤ '9' then some (c.toNat - '0'.toNat)
  else if 'a' ≤ c ∧ c ≤ 'f' then some (c.toNat - 'a'.toNat + 10)
  else if 'A' ≤ c ∧ c ≤ 'F' then some (c.toNat - 'A'.toNat + 10)
  else none

/-- A number of `count` hexadecimal digits behind the digits of `n`. -/
def hexDigits : (count n : Nat) → Scan Nat
  | 0, n => return n
  | count + 1, n => do
    let digit ← hexValue? (← char fun _ => true)
    hexDigits count (16 * n + digit)

/-- The character of a number that is one. -/
def charOf? (n : Nat) : Option Char :=
  if n.isValidChar then some (Char.ofNat n) else none

/-- The character that an escape stands for. -/
def escape : Scan Char := do
  exactly "\\"
  match ← char fun _ => true with
  | 'b' => return '\x08'
  | 't' => return '\t'
  | 'n' => return '\n'
  | 'f' => return '\x0c'
  | 'r' => return '\r'
  | '"' => return '"'
  | '\\' => return '\\'
  | 'u' => charOf? (← hexDigits 4 0)
  | 'U' => charOf? (← hexDigits 8 0)
  | _ => failure

/-- A character between double quotes. -/
def basicChar : Scan Char :=
  char (fun c => isPlain c && c ≠ '"' && c ≠ '\\') <|> escape

/-- A string between double quotes. -/
def basicString : Scan String := do
  exactly "\""
  let content ← repeated basicChar
  exactly "\""
  return String.ofList content

/-- A string between single quotes. -/
def literalString : Scan String := do
  exactly "'"
  let content ← repeated (char fun c => isPlain c && c ≠ '\'')
  exactly "'"
  return String.ofList content

/-- A backslash at the end of a line. It joins what it stands behind with the next character that is
neither a blank nor a newline. -/
def lineJoint : Scan (List Char) := do
  exactly "\\"
  blanks
  newline
  discard (repeated (discard (char isBlank) <|> newline))
  return []

/-- A quote that does not start the end of a long string. -/
def loneQuote (quote : String) : Scan (List Char) := do
  if (← optional (exactly quote *> exactly quote *> exactly quote)).isSome then failure
  exactly quote
  return quote.toList

/-- A string between three quotes of a kind, with the given pieces between its newlines. Up to two
more quotes may stand directly in front of its end. -/
def longString (quote : String) (piece : Scan (List Char)) : Scan String := do
  let quotes := exactly quote *> exactly quote *> exactly quote
  quotes
  discard (optional newline)
  let pieces ← repeated (piece <|> (newline *> return ['\n']) <|> loneQuote quote)
  quotes
  let one := exactly quote *> return quote.toList
  let more := [(← optional one).getD [], (← optional one).getD []]
  return String.ofList (pieces.flatten ++ more.flatten)

def longBasicString : Scan String :=
  longString "\"" (lineJoint <|> (fun c => [c]) <$> basicChar)

def longLiteralString : Scan String :=
  longString "'" ((fun c => [c]) <$> char fun c => isPlain c && c ≠ '\'')

/-- A string of any kind. -/
def string : Scan String :=
  longBasicString <|> basicString <|> longLiteralString <|> literalString

/-! ## Keys -/

/-- A character of a key without quotes. -/
def isBare (c : Char) : Bool :=
  c.isAlphanum || c = '_' || c = '-'

/-- One part of a key. -/
def keyPart : Scan String :=
  (String.ofList <$> repeated₁ (char isBare)) <|> basicString <|> literalString

/-- No key has as many parts as this. -/
def keyLimit : Nat := 80

/-- A key: its last part and the parts before it. -/
def key : Scan (List String × String) := do
  let parts ← separated "." (blanks *> keyPart <* blanks)
  match parts.getLast? with
  | some last => if parts.length < keyLimit then return (parts.dropLast, last) else failure
  | none => failure

end ResourceAssembler.Toml
