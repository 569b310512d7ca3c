import ResourceAssembler.Image.Png.Lines
import ResourceAssembler.Image.Png.Preamble
import ResourceAssembler.Image.Surface

/-!
# From samples to pixels

Samples of fewer than eight bits are stretched to the full range, samples of sixteen bits are
rounded to eight, a color named as transparent gets the alpha 0, and an index that the
palette lacks is opaque black.
-/

namespace ResourceAssembler.Png

/-- The greatest number of bytes of a palette: three for each of 256 entries. -/
def maxPalette : Nat := 768

/-- Whether the bytes of a palette are entries. -/
def isPalette (bytes : List UInt8) : Bool :=
  bytes.length % 3 = 0 && bytes.length ≤ maxPalette

/-- The alpha of each palette entry. A list longer than the palette counts as none. -/
def paletteAlphas (entries : Nat) (transparency : Transparency) : List UInt8 :=
  if transparency.length ≤ entries then transparency else []

/-- The pixels of palette bytes, three for each entry. -/
def paletteOf (transparency : Transparency) : List UInt8 → List Pixel
  | red :: green :: blue :: rest =>
    ⟨red, green, blue, transparency.head?.getD 0xFF⟩ :: paletteOf transparency.tail rest
  | _ => []

/-- The pixels of the palette. -/
def Preamble.pixels (preamble : Preamble) : Array Pixel :=
  let bytes := preamble.palette.getD []
  (paletteOf (paletteAlphas (bytes.length / 3) (preamble.transparency.getD [])) bytes).toArray

/-- The sample with the given number in a line. -/
def sampleAt (depth : Nat) (line : ByteArray) (index : Nat) : Nat :=
  if depth = 16 then
    (byteAt line (2 * index)).toNat * 256 + (byteAt line (2 * index + 1)).toNat
  else
    let first := index * depth
    ((byteAt line (first / 8)).toNat >>> (8 - depth - first % 8)) % (1 <<< depth)

/-- A sample as a channel of eight bits. -/
def channel (depth sample : Nat) : UInt8 :=
  UInt8.ofNat (if depth = 16 then (sample + 128) / 257 else sample * (255 / ((1 <<< depth) - 1)))

/-- The samples that bytes name, two bytes for each, of which images of at most
eight bits use the second. -/
def namedSamples (depth : Nat) : List UInt8 → List Nat
  | high :: low :: rest =>
    (if depth = 16 then high.toNat * 256 + low.toNat else low.toNat) :: namedSamples depth rest
  | _ => []

/-- The samples of the pixels that are to be transparent. What a transparency chunk holds besides
them is passed over, but with samples of sixteen bits such a chunk names none. -/
def transparentSamples (header : Header) (transparency : Transparency) : List Nat :=
  let count := header.color.samples
  if header.depth = 16 ∧ transparency.length ≠ 2 * count then []
  else (namedSamples header.depth transparency).take count

/-- Whether the pixels of a color type have an alpha of their own. -/
def ColorType.hasAlpha : ColorType → Bool
  | grayAlpha | rgba => true
  | gray | rgb | indexed => false

/-- How the samples of a pixel are to be read. -/
structure Sampling where
  header : Header
  preamble : Preamble
  entries : Array Pixel
  transparent : List Nat

/-- The reading that header and preamble ask for. -/
def Sampling.ofPreamble (header : Header) (preamble : Preamble) : Sampling where
  header
  preamble
  entries := preamble.pixels
  transparent := transparentSamples header (preamble.transparency.getD [])

namespace Sampling

/-- The pixel that samples stand for. -/
def pixel (sampling : Sampling) (samples : List Nat) : Pixel :=
  let channel := channel sampling.header.depth
  let alpha := if samples = sampling.transparent then 0 else 0xFF
  match sampling.header.color, samples with
  | .gray, [v] => ⟨channel v, channel v, channel v, alpha⟩
  | .grayAlpha, [v, a] => ⟨channel v, channel v, channel v, channel a⟩
  | .rgb, [r, g, b] => ⟨channel r, channel g, channel b, alpha⟩
  | .rgba, [r, g, b, a] => ⟨channel r, channel g, channel b, channel a⟩
  | .indexed, [i] => sampling.entries[i]?.getD ⟨0, 0, 0, 0xFF⟩
  | _, _ => ⟨0, 0, 0, 0xFF⟩

/-- Whether the pixels of the image have an alpha. -/
def hasAlpha (sampling : Sampling) : Bool :=
  sampling.header.color.hasAlpha || sampling.preamble.transparency.isSome

/-- The pixel in a place for which there is no data: black, and
transparent where that can be said. -/
def blank (sampling : Sampling) : Pixel :=
  ⟨0, 0, 0, if sampling.hasAlpha then 0 else 0xFF⟩

/-- The number of bytes that a pixel takes once the palette has been looked up. -/
def pixelBytes (sampling : Sampling) : Nat :=
  let colors := match sampling.header.color with
    | .gray | .grayAlpha => 1
    | .rgb | .rgba | .indexed => 3
  (if sampling.hasAlpha then colors + 1 else colors) * (if sampling.header.depth = 16 then 2 else 1)

/-- The frame that the image data holds, as an image by itself. Without a
frame it is the whole image. -/
def framed (sampling : Sampling) : Header :=
  match sampling.preamble.frame with
  | some frame => frame.header sampling.header
  | none => sampling.header

/-- The pixel at a place of the frame, from the line of the pass that it belongs to. -/
def framePixel (sampling : Sampling) (passes : List PassLines) (x y : Nat) : Pixel :=
  match passes.find? fun (pass, _) => pass.contains x y with
  | some (pass, lines) =>
    let line := lines[(y - pass.top) / pass.down]?.getD .empty
    let samples := sampling.header.color.samples
    let first := (x - pass.left) / pass.across * samples
    sampling.pixel
      ((List.range samples).map fun i => sampleAt sampling.header.depth line (first + i))
  | none => sampling.blank

/-- The pixel at a place of the image. A frame smaller than the image takes its upper left corner if
it is interlaced; else its pixels fill the lines of the image one after another. -/
def pixelAt (sampling : Sampling) (passes : List PassLines) (x y : Nat) : Pixel :=
  let frame := sampling.framed
  if frame.interlaced then
    if x < frame.width ∧ y < frame.height then sampling.framePixel passes x y else sampling.blank
  else
    let index := y * sampling.header.width + x
    if index < frame.width * frame.height then
      sampling.framePixel passes (index % frame.width) (index / frame.width)
    else sampling.blank

end Sampling

end ResourceAssembler.Png
