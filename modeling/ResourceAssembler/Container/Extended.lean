import ResourceAssembler.Container.Name

/-!
# The extended resource file

The layout of the classic fork with ids, counts and offsets of 64 bits. All numbers are big-endian.

    0x000  version (8), data offset, map offset, data length, map length (8 each)
    0x028  zeros up to 0x100
    0x100  data: per resource a length (8) and the bytes
           map: offset of the type list (8), offset of the name list (8),
                type list: number of types (8),
                           per type: code (4), number of resources (8), offset of its references (8)
                references: id (8), name offset (8), attributes (1), data offset (8)
                name list: counted strings

Offsets in the map count from the start of the map, name offsets from the start of the name list.
-/

namespace ResourceAssembler.Container.Extended

def version : Nat := 1

/-- Where the data starts. -/
def headerArea : Nat := 256

/-- The length of the map before the type list. -/
def mapHeader : Nat := 16

/-- The length of a type's entry. -/
def typeEntry : Nat := 20

/-- The length of a resource's reference. -/
def referenceEntry : Nat := 25

/-- The name offset of a resource without a name. -/
def noName : Nat := 0xFFFFFFFFFFFFFFFF

/-- The parts of a container as far as they are written. -/
structure Parts where
  data : ByteArray := .empty
  types : ByteArray := .empty
  references : ByteArray := .empty
  names : ByteArray := .empty

/-- The offset at which the name of a resource goes into the name list,
and the name list with it. -/
def addName (names : ByteArray) (code : TypeCode) (resource : Resource) :
    Except ContainerError (Nat × ByteArray) :=
  if resource.name.isEmpty then .ok (noName, names)
  else do
    let name ← countedName code resource
    return (names.size, names ++ name)

/-- Writes one resource: its data, its reference and its name. -/
def addResource (code : TypeCode) (parts : Parts) (resource : Resource) :
    Except ContainerError Parts := do
  let (nameOffset, names) ← addName parts.names code resource
  let reference :=
    Word.big 8 (Word.complement 8 resource.id.toInt) ++ Word.big 8 nameOffset ++ [0]
      ++ Word.big 8 parts.data.size
  return { parts with
    data := parts.data ++ bytesOf (Word.big 8 resource.data.size) ++ resource.data
    references := parts.references ++ bytesOf reference
    names }

/-- Writes one group: its entry in the type list, whose references start at `offset`, and its
resources. -/
def addGroup (offset : Nat) (parts : Parts) (group : ResourceGroup) : Except ContainerError Parts :=
  let entry := group.code.bytes ++ Word.big 8 group.resources.length ++ Word.big 8 offset
  let parts := { parts with types := parts.types ++ bytesOf entry }
  group.resources.foldlM (addResource group.code) parts

/-- Writes the groups in order. The references of the first one start at `offset`. -/
def addGroups (offset : Nat) (parts : Parts) : List ResourceGroup → Except ContainerError Parts
  | [] => .ok parts
  | group :: rest => do
    let parts ← addGroup offset parts group
    addGroups (offset + referenceEntry * group.resources.length) parts rest

/-- The extended container of a resource file. -/
def encode (file : ResourceFile) : Except ContainerError ByteArray := do
  let start : Parts := { types := bytesOf (Word.big 8 file.groupCount) }
  let parts ← addGroups (mapHeader + 8 + typeEntry * file.groupCount) start file.groups
  let nameList := mapHeader + parts.types.size + parts.references.size
  let header := [version, headerArea, headerArea + parts.data.size, parts.data.size,
    nameList + parts.names.size].flatMap (Word.big 8)
  let fork := bytesOf (header ++ List.replicate (headerArea - header.length) 0)
  let mapStart := Word.big 8 mapHeader ++ Word.big 8 nameList
  return fork ++ parts.data ++ bytesOf mapStart ++ parts.types ++ parts.references ++ parts.names

end ResourceAssembler.Container.Extended
