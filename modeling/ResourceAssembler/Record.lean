import ResourceAssembler.Field
import ResourceAssembler.Word

/-!
# Resource records

A record is a resource as the author wrote it: a code, an id, a name and one value per field.
`payload` writes the values one after another. An integer keeps the low bytes of its width, most
significant first; a counted string keeps its first 255 bytes.
-/

namespace ResourceAssembler

/-- The value of a field, ready to be written. -/
inductive FieldValue where
  | integer (width : IntegerWidth) (value : Int64)
  | pstring (text : String)
  | cstring (text : String)
  | data (bytes : ByteArray)

/-- The bytes of one value. -/
def FieldValue.encode : FieldValue → ByteArray
  | integer width value => bytesOf (Word.big width.bytes (Word.complement 8 value.toInt))
  | pstring text =>
    let bytes := text.toUTF8.extract 0 255
    bytesOf [UInt8.ofNat bytes.size] ++ bytes
  | cstring text => text.toUTF8.push 0
  | data bytes => bytes

/-- A resource with its values not yet written. -/
structure ResourceRecord where
  code : TypeCode
  id : Int64
  name : String
  values : List FieldValue := []

/-- The bytes of all values in order. -/
def ResourceRecord.payload (record : ResourceRecord) : ByteArray :=
  record.values.foldl (fun bytes value => bytes ++ value.encode) .empty

end ResourceAssembler
