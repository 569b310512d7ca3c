/-!
# Type codes

A resource type is identified by four ASCII characters, such as `STR#` or `PICT`. Blanks count.
-/

namespace ResourceAssembler

/-- Why a definition was refused. -/
inductive DefinitionError where
  | invalidTypeCode (text : String)
  | unknownFieldKind (name : String)
deriving DecidableEq, Repr

/-- The wording of a refused definition. -/
def DefinitionError.message : DefinitionError → String
  | .invalidTypeCode text => s!"invalid type code '{text}': expected exactly 4 ASCII characters"
  | .unknownFieldKind name => s!"unknown field kind '{name}'"

/-- A tag of four ASCII characters. -/
structure TypeCode where
  first : Char
  second : Char
  third : Char
  fourth : Char
  isAscii : first.toNat < 128 ∧ second.toNat < 128 ∧ third.toNat < 128 ∧ fourth.toNat < 128
deriving DecidableEq, Repr

namespace TypeCode

/-- The characters of the code. -/
def chars (code : TypeCode) : List Char :=
  [code.first, code.second, code.third, code.fourth]

/-- The code as text. -/
def text (code : TypeCode) : String :=
  String.ofList code.chars

instance : ToString TypeCode := ⟨text⟩

/-- Reads a code from a text of four ASCII characters. -/
def ofString? (text : String) : Option TypeCode :=
  match text.toList with
  | [a, b, c, d] =>
    if h : a.toNat < 128 ∧ b.toNat < 128 ∧ c.toNat < 128 ∧ d.toNat < 128 then
      some ⟨a, b, c, d, h⟩
    else none
  | _ => none

/-- Reads a code, or says which text was refused. -/
def ofString (text : String) : Except DefinitionError TypeCode :=
  match ofString? text with
  | some code => .ok code
  | none => .error (.invalidTypeCode text)

/-- The four bytes, first character first. -/
def bytes (code : TypeCode) : List UInt8 :=
  code.chars.map Char.toUInt8

/-- The code as the big-endian number that resource maps store. -/
def toNat (code : TypeCode) : Nat :=
  code.bytes.foldl (fun n b => n * 256 + b.toNat) 0

/-- Codes are ordered by their bytes. -/
instance : LT TypeCode where
  lt a b := a.bytes < b.bytes

instance (a b : TypeCode) : Decidable (a < b) :=
  inferInstanceAs (Decidable (a.bytes < b.bytes))

end TypeCode

end ResourceAssembler
