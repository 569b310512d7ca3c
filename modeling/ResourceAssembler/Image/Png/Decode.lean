import ResourceAssembler.Image.Png.Intake
import ResourceAssembler.Image.Png.Sampling

/-!
# PNG images

`Surface.ofPng` reads an image of any color type. In a file with an animation it reads the first
frame for which there is data.
-/

namespace ResourceAssembler

namespace Png

/-- Whether a chunk holds data of the image. -/
def Chunk.isImageData (chunk : Chunk) : Bool :=
  chunk.name = nameOf "IDAT"

/-- Whether a chunk holds data of a frame. -/
def Chunk.isFrameData (chunk : Chunk) : Bool :=
  chunk.name = nameOf "fdAT"

/-- A PNG file, taken apart. -/
structure File where
  header : Header
  preamble : Preamble
  /-- The first chunks with data of one kind that follow one another. -/
  parts : List Chunk
  rest : List Chunk

namespace File

/-- Reads the header, which stands first but for empty headers. -/
def header? : List Chunk → Option (Header × List Chunk)
  | [] => none
  | first :: rest => do
    if first.name ≠ Chunk.nameOf "IHDR" ∨ first.condition ≠ .intact then failure
    if first.content.isEmpty then header? rest
    else return (← Header.ofContent? first.content, rest)

/-- Takes apart the bytes of a file. -/
def ofBytes? (bytes : ByteArray) : Option File := do
  let (header, chunks) ← header? (← Chunk.ofFile? bytes)
  let (before, chunks) := chunks.span fun chunk => !chunk.isImageData && !chunk.isFrameData
  let preamble ← before.foldlM (Preamble.take? header) {}
  let (parts, rest) := chunks.span fun chunk => chunks.head?.any (·.name = chunk.name)
  return { header, preamble, parts, rest }

/-- The compressed data in a part. Data of a frame starts with its number. -/
def partData? (file : File) (part : Chunk) (index : Nat) : Option ByteArray := do
  if !part.isFrameData then return part.content
  if part.content.size < 4 ∨
      Chunk.wordAt part.content 0 ≠ file.preamble.nextNumber + index then failure
  return part.content.extract 4 part.content.size

/-- The compressed data of the image. -/
def data? (file : File) : Option ByteArray :=
  file.parts.zipIdx.foldlM (fun bytes (part, index) => do
    return bytes ++ (← file.partData? part index)) .empty

/-- The reading of the samples. -/
def sampling (file : File) : Sampling :=
  Sampling.ofPreamble file.header file.preamble

/-- The greatest number of bytes that the pixels of an image may take. -/
def maxBytes : Nat := 1 <<< 29

/-- Whether an image may be read from the file: there is data, and a palette if the pixels need one.
Data of a frame needs the announcement of one. Nothing is said of how sound they are. -/
def isReadable (file : File) : Bool :=
  !file.parts.isEmpty && file.preamble.hasFrame &&
    (file.preamble.frame.isSome || !file.parts.any (·.isFrameData)) &&
    file.header.width * file.header.height * file.sampling.pixelBytes ≤ maxBytes &&
    (file.header.color != .indexed || file.preamble.palette.isSome)

/-- How many bytes the lines of the image take as far as they can be told from the header alone. An
interlaced image counts twice, and an announced frame may take any number. -/
def expectedSize (file : File) : Option Nat :=
  let lines := file.header.height * (file.header.lineBytes file.header.width + 1)
  if file.preamble.frame.isSome then none
  else some (if file.header.interlaced then 2 * lines else lines)

/-- What has come out of the data of parts when there are `count` bytes, if nothing is wrong so far.
A part has come in before its check sum is looked at. -/
def firstBytes? (file : File) (count : Nat) : List (Chunk × Nat) → Intake → Option ByteArray
  | [], _ => none
  | (part, index) :: rest, intake => do
    let intake ← (intake.feed count (← file.partData? part index)).toOption
    if count ≤ intake.taken then return intake.stream.output
    if part.isUsable then file.firstBytes? count rest intake else none

/-- Whether a line comes out of the data that needs a palette, but the palette has no whole number
of entries or too many of them. -/
def misusesPalette (file : File) : Bool :=
  let header := file.sampling.framed
  let intake : Intake := { window := { expected := file.expectedSize } }
  file.header.color = .indexed && !file.preamble.palette.any isPalette &&
    (file.firstBytes? (firstLineSize header) file.parts.zipIdx intake).any (startsWithLine header)

/-- The lines of the image, if all parts are sound and the file does not end with the last one. -/
def lines? (file : File) : Option (List PassLines) := do
  if file.rest.isEmpty ∨ !file.parts.all (·.isUsable) then failure
  passLines? file.sampling.framed (← (Deflate.inflate (← file.data?)).toOption)

end File

/-- What is there, or the error that the bytes are no image. -/
def orUndecoded {α : Type} : Option α → Except ImageError α
  | some a => .ok a
  | none => .error .decode

end Png

open Png in
/-- The image in the bytes of a PNG file, or why there is none. Nothing is asked of
what follows the image data. -/
def Surface.ofPng (bytes : ByteArray) : Except ImageError Surface := do
  let file ← orUndecoded (File.ofBytes? bytes)
  if !file.isReadable then throw .decode
  if file.misusesPalette then throw .palette
  let passes ← orUndecoded file.lines?
  return ofPixels file.header.width file.header.height (file.sampling.pixelAt passes)

end ResourceAssembler
