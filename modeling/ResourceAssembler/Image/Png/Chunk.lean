import ResourceAssembler.Image.Crc32
import ResourceAssembler.Word

/-!
# The chunks of a PNG file

Behind its signature a file is a sequence of chunks. A chunk is the length of its content, its name
of four bytes, the content and a check sum of name and content.
-/

namespace ResourceAssembler.Png

/-- The byte at an index, 0 behind the end. -/
def byteAt (bytes : ByteArray) (index : Nat) : UInt8 :=
  if h : index < bytes.size then bytes[index] else 0

/-- The bytes with which a file starts. -/
def signature : List UInt8 := [0x89, 0x50, 0x4E, 0x47, 0x0D, 0x0A, 0x1A, 0x0A]

/-- How much of a chunk is there. -/
inductive Condition where
  /-- The check sum is right. -/
  | intact
  /-- The check sum is wrong. -/
  | damaged
  /-- The file ends inside the chunk: the content is what is left of it. -/
  | cut
deriving DecidableEq, Repr

/-- A chunk of a file. -/
structure Chunk where
  name : List UInt8
  content : ByteArray
  condition : Condition

namespace Chunk

/-- The name made of four letters. -/
def nameOf (text : String) : List UInt8 :=
  text.toUTF8.data.toList

/-- Whether a decoder may go on without the chunk, which a small first letter says. -/
def isAncillary (chunk : Chunk) : Bool :=
  chunk.name.head?.any fun byte => byte.toNat.testBit 5

/-- Whether the chunk may stand in a file that is read. -/
def isUsable (chunk : Chunk) : Bool :=
  match chunk.condition with
  | .intact => true
  | .damaged => chunk.isAncillary
  | .cut => false

/-- The big-endian number of the four bytes at an offset. -/
def wordAt (bytes : ByteArray) (offset : Nat) : Nat :=
  Word.ofBig (bytes.extract offset (offset + 4)).data.toList

/-- The chunks from an offset on. A chunk whose length and name are there counts. No chunk takes
less than twelve bytes, so `fuel` need not exceed the number of bytes. -/
def sequence (bytes : ByteArray) : (fuel offset : Nat) → List Chunk
  | 0, _ => []
  | fuel + 1, offset =>
    let start := offset + 8
    if bytes.size < start then []
    else
      let stop := start + wordAt bytes offset
      let name := (bytes.extract (offset + 4) start).data.toList
      if bytes.size < stop + 4 then [⟨name, bytes.extract start stop, .cut⟩]
      else
        let sum := (Crc32.checksum (bytes.extract (offset + 4) stop)).toNat
        let condition := if wordAt bytes stop = sum then .intact else .damaged
        ⟨name, bytes.extract start stop, condition⟩ :: sequence bytes fuel (stop + 4)

/-- The chunks of a file with the right signature. -/
def ofFile? (bytes : ByteArray) : Option (List Chunk) :=
  if (bytes.extract 0 8).data.toList = signature then some (sequence bytes bytes.size 8) else none

end Chunk

end ResourceAssembler.Png
