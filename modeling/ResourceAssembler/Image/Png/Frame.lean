import ResourceAssembler.Image.Png.Header

/-!
# The frames of an animation

A file may hold several frames, each of which takes a rectangle of the image. Frames and their data
are numbered in the order in which they stand in the file.
-/

namespace ResourceAssembler.Png

/-- A frame as it is announced: its number and its size. -/
structure Frame where
  number : Nat
  width : Nat
  height : Nat
deriving DecidableEq, Repr

namespace Frame

/-- The number of bytes of an announcement: number, width, height, left, top, a duration, and one
byte each for how the frame is taken away and how it is put over the one before. -/
def contentSize : Nat := 26

/-- Reads an announcement. The frame lies within the image. -/
def ofContent? (header : Header) (content : ByteArray) : Option Frame :=
  let width := Chunk.wordAt content 4
  let height := Chunk.wordAt content 8
  let left := Chunk.wordAt content 12
  let top := Chunk.wordAt content 16
  if contentSize ≤ content.size ∧ 0 < width ∧ 0 < height ∧
      left + width ≤ header.width ∧ top + height ≤ header.height ∧
      byteAt content 24 ≤ 2 ∧ byteAt content 25 ≤ 1 then
    some { number := Chunk.wordAt content 0, width, height }
  else none

/-- The header of the image that a frame is by itself. -/
def header (frame : Frame) (header : Header) : Header :=
  { header with width := frame.width, height := frame.height }

end Frame

end ResourceAssembler.Png
