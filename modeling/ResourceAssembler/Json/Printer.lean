import ResourceAssembler.Json.Basic

/-!
# Printing JSON

Values are printed over several lines, with two blanks per level. In texts the quote, the backslash
and the control characters below the blank are escaped, all other characters stand for themselves.
-/

namespace ResourceAssembler.Json

/-- The lower-case hexadecimal digit of a number below 16. -/
def hexDigit (n : Nat) : Char :=
  if n < 10 then Char.ofNat (48 + n) else Char.ofNat (87 + n)

/-- A character as it stands between quotes. -/
def escapeChar (c : Char) : List Char :=
  match c with
  | '"' => ['\\', '"']
  | '\\' => ['\\', '\\']
  | '\n' => ['\\', 'n']
  | '\r' => ['\\', 'r']
  | '\t' => ['\\', 't']
  | '\x08' => ['\\', 'b']
  | '\x0c' => ['\\', 'f']
  | c =>
    if c.toNat < 32 then ['\\', 'u', '0', '0', hexDigit (c.toNat / 16), hexDigit (c.toNat % 16)]
    else [c]

/-- A text between quotes. -/
def quote (s : String) : String :=
  String.ofList ('"' :: s.toList.flatMap escapeChar ++ ['"'])

/-- The start of a line at a level. -/
def indent (level : Nat) : String :=
  "\n" ++ String.ofList (List.replicate (2 * level) ' ')

/-- Items between brackets, one on a line. Without items the brackets stand together. -/
def block (level : Nat) (opening closing : String) (items : List String) : String :=
  if items.isEmpty then opening ++ closing
  else
    opening ++ ",".intercalate (items.map (indent (level + 1) ++ ·)) ++ indent level ++ closing

mutual

/-- A value whose first line is already indented to `level`. A fraction is printed as `null`. -/
def render (level : Nat) : Json → String
  | null => "null"
  | bool b => if b then "true" else "false"
  | whole n => toString n
  | fraction => "null"
  | text s => quote s
  | list items => block level "[" "]" (renderItems (level + 1) items)
  | object members => block level "\x7b" "\x7d" (renderMembers (level + 1) members)

/-- The items of a list. -/
def renderItems (level : Nat) : List Json → List String
  | [] => []
  | item :: rest => render level item :: renderItems level rest

/-- The members of an object with their names. -/
def renderMembers (level : Nat) : List (String × Json) → List String
  | [] => []
  | (name, value) :: rest => (quote name ++ ": " ++ render level value) :: renderMembers level rest

end

end ResourceAssembler.Json
