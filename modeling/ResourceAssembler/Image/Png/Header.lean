import ResourceAssembler.Image.Png.Chunk

/-!
# The header of a PNG file

The header states the size of the image, how a pixel is made of samples, how many bits a sample
takes and whether the image is interlaced.
-/

namespace ResourceAssembler.Png

/-- What the samples of a pixel mean. -/
inductive ColorType where
  | gray
  | rgb
  | indexed
  | grayAlpha
  | rgba
deriving DecidableEq, Repr

namespace ColorType

def ofNumber? : Nat → Option ColorType
  | 0 => some gray
  | 2 => some rgb
  | 3 => some indexed
  | 4 => some grayAlpha
  | 6 => some rgba
  | _ => none

/-- The number of samples of a pixel. -/
def samples : ColorType → Nat
  | gray => 1
  | rgb => 3
  | indexed => 1
  | grayAlpha => 2
  | rgba => 4

/-- The numbers of bits that a sample may take. -/
def depths : ColorType → List Nat
  | gray => [1, 2, 4, 8, 16]
  | indexed => [1, 2, 4, 8]
  | _ => [8, 16]

end ColorType

/-- How the pixels of an image are stored. -/
structure Header where
  width : Nat
  height : Nat
  depth : Nat
  color : ColorType
  interlaced : Bool
deriving DecidableEq, Repr

namespace Header

/-- The number of bits of a pixel. -/
def pixelBits (header : Header) : Nat :=
  header.color.samples * header.depth

/-- The number of bytes from a byte to its neighbour in the pixel before, at least one. -/
def stride (header : Header) : Nat :=
  max 1 (header.pixelBits / 8)

/-- The number of bytes of a line of `width` pixels. -/
def lineBytes (header : Header) (width : Nat) : Nat :=
  (width * header.pixelBits + 7) / 8

/-- Reads a header: width, height, depth, color type, the methods of compression and filtering,
which have to be 0, and interlacing. An image has at least one pixel. -/
def ofContent? (content : ByteArray) : Option Header := do
  let width := Chunk.wordAt content 0
  let height := Chunk.wordAt content 4
  match (content.extract 8 13).data.toList with
  | [depth, color, compression, filter, interlace] =>
    let color ← ColorType.ofNumber? color.toNat
    if width = 0 ∨ height = 0 ∨ depth.toNat ∉ color.depths then failure
    if compression ≠ 0 ∨ filter ≠ 0 ∨ interlace > 1 then failure
    return { width, height, depth := depth.toNat, color, interlaced := interlace = 1 }
  | _ => failure

end Header

end ResourceAssembler.Png
