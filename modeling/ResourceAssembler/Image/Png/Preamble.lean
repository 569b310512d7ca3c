import ResourceAssembler.Image.Png.Frame

/-!
# What stands in front of the image data

Some chunks in front of the image data bear on the image: a palette, a transparency, and the
announcement of an animation and its frames. Others only describe it, but have to be well formed.
An empty chunk says nothing.
-/

namespace ResourceAssembler.Png

/-- The bytes of a transparency chunk. -/
abbrev Transparency := List UInt8

/-- What the chunks in front of the image data say. -/
structure Preamble where
  palette : Option (List UInt8) := none
  transparency : Option Transparency := none
  /-- The number of frames of an animation. -/
  frameCount : Option Nat := none
  /-- The latest frame announced, which the image data holds. -/
  frame : Option Frame := none
  /-- The names of the descriptions so far. -/
  described : List (List UInt8) := []

/-- Whether the content of a chunk that only describes the image is well formed: the size of a
pixel, with a unit; the brightness curve; the primary colors; how to render colors. Other
chunks are none of these. -/
def descriptionIsValid? (name : List UInt8) (content : ByteArray) : Option Bool :=
  if name = Chunk.nameOf "pHYs" then some (9 ≤ content.size && byteAt content 8 ≤ 1)
  else if name = Chunk.nameOf "gAMA" then some (4 ≤ content.size)
  else if name = Chunk.nameOf "cHRM" then some (32 ≤ content.size)
  else if name = Chunk.nameOf "sRGB" then some (1 ≤ content.size && byteAt content 0 ≤ 3)
  else none

namespace Preamble

/-- Whether a transparency chunk is long enough and stands where it may. -/
def admits (preamble : Preamble) (header : Header) (bytes : Transparency) : Bool :=
  preamble.transparency.isNone &&
    match header.color with
    | .gray => 2 ≤ bytes.length
    | .rgb => 6 ≤ bytes.length
    | .indexed => preamble.palette.isSome
    | _ => false

/-- The number that the next frame or piece of its data has to have. -/
def nextNumber (preamble : Preamble) : Nat :=
  match preamble.frame with
  | some frame => frame.number + 1
  | none => 0

/-- Takes in the content of one chunk. A palette, a transparency and each description may stand only
once, and a header not again. -/
def read? (header : Header) (preamble : Preamble) (name : List UInt8) (content : ByteArray) :
    Option Preamble :=
  if name = Chunk.nameOf "IHDR" then none
  else if name = Chunk.nameOf "PLTE" then
    if preamble.palette.isSome then none
    else some { preamble with palette := some content.data.toList }
  else if name = Chunk.nameOf "tRNS" then
    let bytes := content.data.toList
    if preamble.admits header bytes then some { preamble with transparency := some bytes } else none
  else if name = Chunk.nameOf "acTL" then
    if content.size < 8 then none
    else some { preamble with frameCount := some (Chunk.wordAt content 0) }
  else if name = Chunk.nameOf "fcTL" then do
    let frame ← Frame.ofContent? header content
    if frame.number ≠ preamble.nextNumber then failure
    return { preamble with frame := some frame }
  else
    match descriptionIsValid? name content with
    | none => some preamble
    | some valid =>
      if valid ∧ name ∉ preamble.described then
        some { preamble with described := name :: preamble.described }
      else none

/-- Takes in one chunk. Its content counts even if the chunk is damaged, where it may be. -/
def take? (header : Header) (preamble : Preamble) (chunk : Chunk) : Option Preamble :=
  if !chunk.isUsable ∨ chunk.name = Chunk.nameOf "IEND" then none
  else if chunk.content.isEmpty then some preamble
  else preamble.read? header chunk.name chunk.content

/-- Whether there is a frame to read. -/
def hasFrame (preamble : Preamble) : Bool :=
  preamble.frame.isNone || preamble.frameCount != some 0

end Preamble

end ResourceAssembler.Png
