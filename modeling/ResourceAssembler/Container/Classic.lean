import ResourceAssembler.Container.Name

/-!
# The classic resource fork

All numbers are big-endian.

    0x000  data offset, map offset, data length, map length (4 bytes each)
    0x010  zeros up to 0x100
    0x100  data: per resource a length (4) and the bytes
           map: the 16 header bytes again, next map (4), file reference (2), attributes (2),
                offset of the type list (2), offset of the name list (2),
                type list: number of types minus one (2),
                           per type: code (4), number of resources minus one (2),
                                     offset of its references (2)
                references: id (2), name offset (2), attributes (1), data offset (3), handle (4)
                name list: counted strings

Offsets in the type list count from the start of the type list, name offsets from the start of the
name list and data offsets from the start of the data.
-/

namespace ResourceAssembler.Container.Classic

/-- Where the data starts. -/
def headerArea : Nat := 256

/-- The length of the map before the type list. -/
def mapHeader : Nat := 28

/-- The length of a type's entry. -/
def typeEntry : Nat := 8

/-- The length of a resource's reference. -/
def referenceEntry : Nat := 12

/-- The name offset of a resource without a name. -/
def noName : Nat := 0xFFFF

/-- The greatest offset of a resource in the data. -/
def maxDataOffset : Nat := 0xFFFFFF

/-- The parts of a container as far as they are written. -/
structure Parts where
  data : ByteArray := .empty
  types : ByteArray := .empty
  references : ByteArray := .empty
  names : ByteArray := .empty

def tooLarge (limit : ContainerLimit) : ContainerError :=
  .tooLarge .classic limit

/-- A number that has to fit 16 bits. -/
def word (n : Nat) (field : String) : Except ContainerError Nat :=
  if n < 0x10000 then .ok n else .error (tooLarge (.bits field 16))

/-- A count as it is stored: less one, so that no entries at all are stored as 0xFFFF. -/
def storedCount (n : Nat) (kind : String) : Except ContainerError Nat :=
  if n ≤ 0x10000 then .ok ((n + 0xFFFF) % 0x10000)
  else .error (tooLarge (.entries kind n))

/-- The ids a reference can hold. -/
def idFits (id : Int64) : Bool :=
  -0x8000 ≤ id.toInt && id.toInt < 0x8000

/-- The offset at which the name of a resource goes into the name list,
and the name list with it. -/
def addName (names : ByteArray) (code : TypeCode) (resource : Resource) :
    Except ContainerError (Nat × ByteArray) :=
  if resource.name.isEmpty then .ok (noName, names)
  else do
    let offset ← word names.size "name list offset"
    if offset = noName then throw (tooLarge (.bits "name list offset" 16))
    let name ← countedName code resource
    return (offset, names ++ name)

/-- Writes one resource: its data, its reference and its name. -/
def addResource (code : TypeCode) (parts : Parts) (resource : Resource) :
    Except ContainerError Parts := do
  if !idFits resource.id then throw (.idOutOfRange .classic code resource.id)
  let (nameOffset, names) ← addName parts.names code resource
  if parts.data.size > maxDataOffset then throw (tooLarge (.bits "data offset" 24))
  if resource.data.size ≥ 0x100000000 then throw (tooLarge (.bits "resource payload" 32))
  let reference :=
    Word.big 2 (Word.complement 2 resource.id.toInt) ++ Word.big 2 nameOffset ++ [0]
      ++ Word.big 3 parts.data.size ++ Word.big 4 0
  return { parts with
    data := parts.data ++ bytesOf (Word.big 4 resource.data.size) ++ resource.data
    references := parts.references ++ bytesOf reference
    names }

/-- Writes one group: its entry in the type list, whose references start at `offset`, and its
resources. -/
def addGroup (offset : Nat) (parts : Parts) (group : ResourceGroup) :
    Except ContainerError Parts := do
  let count ← storedCount group.resources.length "resource"
  let offset ← word offset "reference list offset"
  let entry := group.code.bytes ++ Word.big 2 count ++ Word.big 2 offset
  let parts := { parts with types := parts.types ++ bytesOf entry }
  group.resources.foldlM (addResource group.code) parts

/-- Writes the groups in order. The references of the first one start at `offset`. -/
def addGroups (offset : Nat) (parts : Parts) : List ResourceGroup → Except ContainerError Parts
  | [] => .ok parts
  | group :: rest => do
    let parts ← addGroup offset parts group
    addGroups (offset + referenceEntry * group.resources.length) parts rest

/-- The four header numbers. Each has to fit 32 bits. -/
def header (dataLength mapLength : Nat) : Except ContainerError (List UInt8) := do
  let words := [headerArea, headerArea + dataLength, dataLength, mapLength]
  if words.any (· ≥ 0x100000000) then throw (tooLarge .fileOffsets)
  return words.flatMap (Word.big 4)

/-- The classic container of a resource file. -/
def encode (file : ResourceFile) : Except ContainerError ByteArray := do
  let count ← storedCount file.groupCount "type"
  let start : Parts := { types := bytesOf (Word.big 2 count) }
  let parts ← addGroups (2 + typeEntry * file.groupCount) start file.groups
  let nameList ← word (mapHeader + parts.types.size + parts.references.size) "name list"
  let header ← header parts.data.size (nameList + parts.names.size)
  let fork := bytesOf (header ++ List.replicate (headerArea - header.length) 0)
  let mapStart := header ++ Word.big 4 0 ++ Word.big 2 0 ++ Word.big 2 0
    ++ Word.big 2 mapHeader ++ Word.big 2 nameList
  return fork ++ parts.data ++ bytesOf mapStart ++ parts.types ++ parts.references ++ parts.names

end ResourceAssembler.Container.Classic
