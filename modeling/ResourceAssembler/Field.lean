import ResourceAssembler.TypeCode

/-!
# Fields and type definitions

A type definition names a resource type and lays out its fields in order. Each field has a kind,
which says what value it takes and how the value is written.
-/

namespace ResourceAssembler

/-- How many bytes an integer field takes. -/
inductive IntegerWidth where
  | byte
  | word
  | long
  | quad
deriving DecidableEq, Repr

/-- The number of bytes of a width. -/
def IntegerWidth.bytes : IntegerWidth → Nat
  | byte => 1
  | word => 2
  | long => 4
  | quad => 8

/-- The kinds of value a field can hold. -/
inductive FieldKind where
  | integer (width : IntegerWidth)
  /-- A length byte and at most 255 bytes of text. -/
  | pstring
  /-- Text ended by a zero byte. -/
  | cstring
  /-- The bytes of a file. -/
  | data
  /-- The raster of an image file. -/
  | image
deriving DecidableEq, Repr

namespace FieldKind

def name : FieldKind → String
  | integer .byte => "byte"
  | integer .word => "word"
  | integer .long => "long"
  | integer .quad => "quad"
  | pstring => "pstring"
  | cstring => "cstring"
  | data => "data"
  | image => "image"

instance : ToString FieldKind := ⟨name⟩

/-- The kind of exactly this name. -/
def ofName? : String → Option FieldKind
  | "byte" => some (integer .byte)
  | "word" => some (integer .word)
  | "long" => some (integer .long)
  | "quad" => some (integer .quad)
  | "pstring" => some pstring
  | "cstring" => some cstring
  | "data" => some data
  | "image" => some image
  | _ => none

/-- Reads a kind's name, or says which name is unknown. -/
def ofString (text : String) : Except DefinitionError FieldKind :=
  match ofName? text with
  | some kind => .ok kind
  | none => .error (.unknownFieldKind text)

/-- The width of an integer kind. -/
def integerWidth? : FieldKind → Option IntegerWidth
  | integer width => some width
  | _ => none

theorem ofName?_name (kind : FieldKind) : ofName? kind.name = some kind := by
  cases kind with
  | integer width => cases width <;> rfl
  | _ => rfl

/-- A kind is what its own name stands for, and no other text does. -/
theorem ofName?_eq_some_iff {written : String} {kind : FieldKind} :
    ofName? written = some kind ↔ kind.name = written := by
  constructor
  · intro h
    unfold ofName? at h
    split at h <;> cases h <;> rfl
  · rintro rfl
    exact ofName?_name kind

end FieldKind

/-- A named field of a type. -/
structure FieldDefinition where
  name : String
  kind : FieldKind
deriving DecidableEq, Repr

/-- A named resource type with its code and its fields in the order of the payload. -/
structure TypeDefinition where
  name : String
  code : TypeCode
  fields : List FieldDefinition := []
deriving DecidableEq, Repr

/-- The first field of the given name. -/
def TypeDefinition.field? (type : TypeDefinition) (name : String) : Option FieldDefinition :=
  type.fields.find? (·.name = name)

end ResourceAssembler
