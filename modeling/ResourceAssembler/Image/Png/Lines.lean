import ResourceAssembler.Image.Png.Header

/-!
# The lines of a PNG image

Each line starts with a byte that says how its bytes were filtered: against the byte of the pixel to
the left, the byte above, or both. An interlaced image is stored as seven passes, each a smaller
image that takes every so many pixels; an image that is not interlaced is a single pass.
-/

namespace ResourceAssembler.Png

/-- Of the bytes to the left, above, and above to the left, the one that is nearest to left plus
above less above to the left. -/
def paeth (left above corner : UInt8) : UInt8 :=
  let guess : Int := left.toNat + above.toNat - corner.toNat
  let toLeft := (guess - left.toNat).natAbs
  let toAbove := (guess - above.toNat).natAbs
  let toCorner := (guess - corner.toNat).natAbs
  if toLeft ≤ toAbove ∧ toLeft ≤ toCorner then left
  else if toAbove ≤ toCorner then above
  else corner

/-- What a filter took away from a byte. -/
def prediction? (filter left above corner : UInt8) : Option UInt8 :=
  match filter with
  | 0 => some 0
  | 1 => some left
  | 2 => some above
  | 3 => some (UInt8.ofNat ((left.toNat + above.toNat) / 2))
  | 4 => some (paeth left above corner)
  | _ => none

/-- The byte `stride` places before an index, 0 before the start. -/
def byteBefore (bytes : ByteArray) (stride index : Nat) : UInt8 :=
  if stride ≤ index then byteAt bytes (index - stride) else 0

/-- Restores the line of `length` bytes at `start`, given the line above it. -/
def restore? (data : ByteArray) (stride : Nat) (filter : UInt8) (start length : Nat)
    (above : ByteArray) : Option ByteArray :=
  length.foldM (fun i _ (line : ByteArray) => do
    let predicted ← prediction? filter (byteBefore line stride i) (byteAt above i)
      (byteBefore above stride i)
    return line.push (byteAt data (start + i) + predicted)) .empty

/-- Restores `count` lines of `length` bytes from an offset on. -/
def restoreLines? (data : ByteArray) (stride length offset : Nat) :
    (count : Nat) → Option (Array ByteArray)
  | 0 => some #[]
  | count + 1 => do
    let lines ← restoreLines? data stride length offset count
    let start := offset + count * (length + 1)
    let above := lines.back?.getD .empty
    let line ← restore? data stride (byteAt data start) (start + 1) length above
    return lines.push line

/-- The pixels of a pass: from `left` and `top` on, every `across`-th
one of every `down`-th line. -/
structure Pass where
  left : Nat
  top : Nat
  across : Nat
  down : Nat
deriving DecidableEq, Repr

namespace Pass

/-- How many of `extent` places a pass takes that starts at `first`. -/
def count (first step extent : Nat) : Nat :=
  (extent - first + step - 1) / step

def width (pass : Pass) (header : Header) : Nat :=
  count pass.left pass.across header.width

/-- The number of lines. A pass without columns has none. -/
def height (pass : Pass) (header : Header) : Nat :=
  if pass.width header = 0 then 0 else count pass.top pass.down header.height

/-- The number of bytes of a pass, with the filters of its lines. -/
def size (pass : Pass) (header : Header) : Nat :=
  pass.height header * (header.lineBytes (pass.width header) + 1)

/-- Whether a pixel belongs to the pass. -/
def contains (pass : Pass) (x y : Nat) : Bool :=
  x % pass.across = pass.left && y % pass.down = pass.top

/-- The passes of an interlaced image. -/
def interlaced : List Pass :=
  [⟨0, 0, 8, 8⟩, ⟨4, 0, 8, 8⟩, ⟨0, 4, 4, 8⟩, ⟨2, 0, 4, 4⟩, ⟨0, 2, 2, 4⟩, ⟨1, 0, 2, 2⟩,
    ⟨0, 1, 1, 2⟩]

/-- The passes of an image in the order in which they are stored. -/
def ofHeader (header : Header) : List Pass :=
  if header.interlaced then interlaced else [⟨0, 0, 1, 1⟩]

end Pass

/-- A pass with its lines restored. -/
abbrev PassLines := Pass × Array ByteArray

/-- Restores the passes one after another. -/
def restorePasses? (header : Header) (data : ByteArray) (offset : Nat) :
    List Pass → Option (List PassLines)
  | [] => some []
  | pass :: rest => do
    let length := header.lineBytes (pass.width header)
    let lines ← restoreLines? data header.stride length offset (pass.height header)
    let passes ← restorePasses? header data (offset + pass.size header) rest
    return (pass, lines) :: passes

/-- The number of bytes of all lines. -/
def dataSize (header : Header) : Nat :=
  (Pass.ofHeader header).foldl (fun size pass => size + pass.size header) 0

/-- The lines of an image, if the data has them all. Data behind the last line is ignored. -/
def passLines? (header : Header) (data : ByteArray) : Option (List PassLines) :=
  if data.size < dataSize header then none else restorePasses? header data 0 (Pass.ofHeader header)

/-- The number of bytes of the first line. -/
def firstLineSize (header : Header) : Nat :=
  match Pass.ofHeader header with
  | [] => 0
  | pass :: _ => header.lineBytes (pass.width header) + 1

/-- Whether the first line of some data can be restored. -/
def startsWithLine (header : Header) (data : ByteArray) : Bool :=
  (restoreLines? data header.stride (firstLineSize header - 1) 0 1).isSome

end ResourceAssembler.Png
