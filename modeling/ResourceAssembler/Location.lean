/-!
# Source locations

A location names a byte of a source text by its line and column, both counted from 1. Columns count
bytes, and a line ends with a newline byte. Source files are named by texts, as long as nothing else
is said; a host may have files whose paths are no texts.
-/

namespace ResourceAssembler

/-- A path as a host keeps it: a row of bytes, whether or not they encode a text. -/
structure HostPath where
  bytes : ByteArray

namespace HostPath

def ofText (text : String) : HostPath :=
  ⟨text.toUTF8⟩

/-- The text that the bytes of a path encode. -/
def text? (path : HostPath) : Option String :=
  String.fromUTF8? path.bytes

end HostPath

/-- A place in a source file. -/
structure Location (Path : Type := String) where
  file : Path
  line : Nat
  column : Nat
deriving DecidableEq, Repr

namespace Location

/-- The line and column reached from `line` and `column` by passing over `bytes`. -/
def advance (line column : Nat) : List UInt8 → Nat × Nat
  | [] => (line, column)
  | b :: rest => if b = 10 then advance (line + 1) 1 rest else advance line (column + 1) rest

/-- The location of a byte offset. An offset past the end stands for the end. -/
def ofOffset {Path : Type} (file : Path) (source : String) (offset : Nat) : Location Path :=
  let passed := (source.toUTF8.extract 0 offset).data.toList
  let (line, column) := advance 1 1 passed
  { file, line, column }

/-- The same place in a file on a host. -/
def onHost (location : Location) : Location HostPath :=
  { location with file := .ofText location.file }

/-- The place in a file that is named by a text, if the path is one. -/
def asText? (location : Location HostPath) : Option Location :=
  location.file.text?.map fun file => { location with file }

instance : ToString Location where
  toString location := s!"{location.file}:{location.line}:{location.column}"

end Location

/-- A piece of source text with the place it was written at. -/
structure Lexeme (Path : Type := String) where
  text : String
  location : Location Path
deriving DecidableEq, Repr

namespace Lexeme

def onHost (lexeme : Lexeme) : Lexeme HostPath :=
  { lexeme with location := lexeme.location.onHost }

def asText? (lexeme : Lexeme HostPath) : Option Lexeme :=
  lexeme.location.asText?.map fun location => { lexeme with location }

instance : ToString Lexeme := ⟨Lexeme.text⟩

end Lexeme

end ResourceAssembler
