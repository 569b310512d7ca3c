import ResourceAssembler.Format
import ResourceAssembler.Json.Basic
import ResourceAssembler.Location
import ResourceAssembler.Record

/-!
# JSON forms of definitions and records

Each type has a form, which `toJson` writes and `ofJson?` reads. A type with named parts is written
as an object and read from an object or from the list of its parts. Where it matters whether the
form is read straight from a text or from a value that was kept, `ofJsonFrom?` reads it from either.
-/

namespace ResourceAssembler

def TypeCode.toJson (code : TypeCode) : Json :=
  .text code.text

def TypeCode.ofJson? (json : Json) : Option TypeCode :=
  json.text?.bind TypeCode.ofString?

def Format.toJson (format : Format) : Json :=
  .text format.name

def Format.ofJson? (json : Json) : Option Format :=
  json.bareChoice?.bind Format.ofName?

def FieldKind.toJson (kind : FieldKind) : Json :=
  .text kind.name

def FieldKind.ofJson? (json : Json) : Option FieldKind :=
  json.bareChoice?.bind FieldKind.ofName?

def FieldDefinition.toJson (field : FieldDefinition) : Json :=
  .object [("name", .text field.name), ("kind", field.kind.toJson)]

def FieldDefinition.ofJson? (json : Json) : Option FieldDefinition :=
  match json.fields? ["name", "kind"] with
  | some [name, kind] => do
    return { name := ← name.text?, kind := ← FieldKind.ofJson? kind }
  | _ => none

def TypeDefinition.toJson (type : TypeDefinition) : Json :=
  .object [("name", .text type.name), ("code", type.code.toJson),
    ("fields", .list (type.fields.map FieldDefinition.toJson))]

def TypeDefinition.ofJson? (json : Json) : Option TypeDefinition :=
  match json.fields? ["name", "code", "fields"] with
  | some [name, code, fields] => do
    return {
      name := ← name.text?
      code := ← TypeCode.ofJson? code
      fields := ← (← fields.list?).mapM FieldDefinition.ofJson? }
  | _ => none

/-- The name of an integer width as a choice. -/
def IntegerWidth.choiceName : IntegerWidth → String
  | byte => "Byte"
  | word => "Word"
  | long => "Long"
  | quad => "Quad"

def IntegerWidth.ofChoiceName? : String → Option IntegerWidth
  | "Byte" => some byte
  | "Word" => some word
  | "Long" => some long
  | "Quad" => some quad
  | _ => none

def IntegerWidth.ofJson? (json : Json) : Option IntegerWidth :=
  json.bareChoice?.bind IntegerWidth.ofChoiceName?

def FieldValue.toJson : FieldValue → Json
  | integer width value =>
    .object [("Integer",
      .object [("width", .text width.choiceName), ("value", .whole value.toInt)])]
  | pstring text => .object [("PString", .text text)]
  | cstring text => .object [("CString", .text text)]
  | data bytes =>
    .object [("Data", .list (bytes.data.toList.map fun b => .whole b.toNat))]

/-- An integer value from its width and its number. -/
def FieldValue.integerOfParts? : List Json → Option FieldValue
  | [width, value] => do return integer (← IntegerWidth.ofJson? width) (← value.int64?)
  | _ => none

def FieldValue.ofJsonFrom? (origin : Json.Origin) (json : Json) : Option FieldValue :=
  match json.choice? with
  | some ("Integer", some content) =>
    (content.content? origin ["width", "value"]).bind integerOfParts?
  | some ("PString", some content) => content.text?.map pstring
  | some ("CString", some content) => content.text?.map cstring
  | some ("Data", some content) => do
    return data (bytesOf (← (← content.list?).mapM Json.byte?))
  | _ => none

/-- The field value that a kept JSON value stands for. -/
def FieldValue.ofJson? (json : Json) : Option FieldValue :=
  ofJsonFrom? .value json

def ResourceRecord.toJson (record : ResourceRecord) : Json :=
  .object [("type_code", record.code.toJson), ("id", .whole record.id.toInt),
    ("name", .text record.name), ("values", .list (record.values.map FieldValue.toJson))]

def ResourceRecord.ofJsonFrom? (origin : Json.Origin) (json : Json) : Option ResourceRecord :=
  match json.fields? ["type_code", "id", "name", "values"] with
  | some [code, id, name, values] => do
    return {
      code := ← TypeCode.ofJson? code
      id := ← id.int64?
      name := ← name.text?
      values := ← (← values.list?).mapM (FieldValue.ofJsonFrom? origin) }
  | _ => none

/-- The record that a kept JSON value stands for. -/
def ResourceRecord.ofJson? (json : Json) : Option ResourceRecord :=
  ofJsonFrom? .value json

def Location.toJson (location : Location) : Json :=
  .object [("file", .text location.file), ("line", .whole location.line),
    ("column", .whole location.column)]

def Location.ofJson? (json : Json) : Option Location :=
  match json.fields? ["file", "line", "column"] with
  | some [file, line, column] => do
    return { file := ← file.text?, line := ← line.count?, column := ← column.count? }
  | _ => none

def Lexeme.toJson (lexeme : Lexeme) : Json :=
  .object [("text", .text lexeme.text), ("location", lexeme.location.toJson)]

def Lexeme.ofJson? (json : Json) : Option Lexeme :=
  match json.fields? ["text", "location"] with
  | some [text, location] => do
    return { text := ← text.text?, location := ← Location.ofJson? location }
  | _ => none

/-- The form of a lexeme of any file. Where the path of the file is no text, there is none. -/
def Lexeme.toJsonOnHost? (lexeme : Lexeme HostPath) : Option Json :=
  lexeme.asText?.map toJson

def Lexeme.ofJsonOnHost? (json : Json) : Option (Lexeme HostPath) :=
  (ofJson? json).map onHost

end ResourceAssembler
