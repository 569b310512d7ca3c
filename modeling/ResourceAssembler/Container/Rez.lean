import ResourceAssembler.Container.Name

/-!
# The rez archive

An archive is a list of entries with an index in front. Each resource is an entry, and
the last entry is the map of the resources. The header and the index are
little-endian, the map is big-endian.

    0x00  "BRGR"
    0x04  version (4)
    0x08  offset of the index (4)
    0x0C  number of entries (4)
    0x10  index: per entry its offset (4) and its size (4)
          entries, in the order of the index
    map:  number of types (4), per type: code (4), number of resources (4),
          per resource: id (4), number of its entry (4), counted name
-/

namespace ResourceAssembler.Container.Rez

/-- The first four bytes of an archive, "BRGR". -/
def magic : List UInt8 := [0x42, 0x52, 0x47, 0x52]

def version : Nat := 1

/-- Where the index starts. -/
def indexOffset : Nat := 16

/-- The length of an index entry. -/
def indexEntry : Nat := 8

/-- A number that has to fit 32 bits. -/
def long (n : Nat) : Except ContainerError Nat :=
  if n < 0x100000000 then .ok n else .error (.tooLarge .rez (.total n))

/-- The ids the map can hold. -/
def idFits (id : Int64) : Bool :=
  -0x80000000 ≤ id.toInt && id.toInt < 0x80000000

/-- The map and the number of entries as far as they are known. -/
structure Parts where
  map : ByteArray
  entries : Nat

/-- Writes the map's record of a resource, which becomes the next entry. -/
def addResource (code : TypeCode) (parts : Parts) (resource : Resource) :
    Except ContainerError Parts := do
  if !idFits resource.id then throw (.idOutOfRange .rez code resource.id)
  let entry ← long parts.entries
  let name ← countedName code resource
  let record := Word.big 4 (Word.complement 4 resource.id.toInt) ++ Word.big 4 entry
  return { map := parts.map ++ bytesOf record ++ name, entries := parts.entries + 1 }

/-- Writes the map's record of a group and of its resources. -/
def addGroup (parts : Parts) (group : ResourceGroup) : Except ContainerError Parts := do
  let count ← long group.resources.length
  let parts := { parts with map := parts.map ++ bytesOf (group.code.bytes ++ Word.big 4 count) }
  group.resources.foldlM (addResource group.code) parts

/-- The map of a resource file. -/
def map (file : ResourceFile) : Except ContainerError ByteArray := do
  let count ← long file.groupCount
  let parts ← file.groups.foldlM addGroup { map := bytesOf (Word.big 4 count), entries := 0 }
  return parts.map

/-- The index of the entries, the first of which starts at `offset`, and where the last one ends. -/
def index (offset : Nat) (written : ByteArray) : List ByteArray →
    Except ContainerError (ByteArray × Nat)
  | [] => .ok (written, offset)
  | entry :: rest => do
    let start ← long offset
    let size ← long entry.size
    index (offset + entry.size)
      (written ++ bytesOf (Word.little 4 start ++ Word.little 4 size)) rest

/-- The rez archive of a resource file. -/
def encode (file : ResourceFile) : Except ContainerError ByteArray := do
  let map ← map file
  let entries := file.groups.flatMap (·.resources.map (·.data)) ++ [map]
  let count ← long entries.length
  let header := magic ++ Word.little 4 version ++ Word.little 4 indexOffset ++ Word.little 4 count
  let (index, stop) ← index (indexOffset + indexEntry * entries.length) (bytesOf header) entries
  let _ ← long stop
  return entries.foldl (· ++ ·) index

end ResourceAssembler.Container.Rez
