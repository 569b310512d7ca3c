import ResourceAssembler.Image.Fault
import ResourceAssembler.Word

/-!
# Surfaces

A surface is a raster of RGBA pixels with eight bits per channel. Its bytes are the rows from top to
bottom, four bytes for each pixel.
-/

namespace ResourceAssembler

/-- One RGBA pixel. -/
structure Pixel where
  red : UInt8
  green : UInt8
  blue : UInt8
  alpha : UInt8
deriving DecidableEq, Repr

/-- Writes a pixel behind other pixels. -/
def Pixel.pushTo (pixel : Pixel) (raster : ByteArray) : ByteArray :=
  (((raster.push pixel.red).push pixel.green).push pixel.blue).push pixel.alpha

/-- The bytes of the first `count` pixels of a sequence. -/
def rasterOf (pixel : Nat → Pixel) (count : Nat) : ByteArray :=
  count.fold (fun i _ raster => (pixel i).pushTo raster) .empty

@[simp] theorem Pixel.size_pushTo (pixel : Pixel) (raster : ByteArray) :
    (pixel.pushTo raster).size = raster.size + 4 := by
  simp [pushTo]

@[simp] theorem size_rasterOf (pixel : Nat → Pixel) (count : Nat) :
    (rasterOf pixel count).size = 4 * count := by
  induction count with
  | zero => rfl
  | succ count ih =>
    rw [rasterOf] at ih ⊢
    rw [Nat.fold_succ, Pixel.size_pushTo, ih]
    omega

/-- A raster of `width` times `height` pixels. -/
structure Surface where
  width : Nat
  height : Nat
  raster : ByteArray
  size_raster : raster.size = 4 * (width * height)

namespace Surface

/-- The surface with the given pixel in every place. -/
def ofPixels (width height : Nat) (pixel : (x y : Nat) → Pixel) : Surface where
  width
  height
  raster := rasterOf (fun i => pixel (i % width) (i / width)) (width * height)
  size_raster := by simp

/-- The surface with the same pixel in every place. -/
def filled (width height : Nat) (pixel : Pixel) : Surface :=
  ofPixels width height fun _ _ => pixel

/-- The number of a pixel, counted row by row. -/
def index (surface : Surface) (x y : Nat) : Nat :=
  y * surface.width + x

theorem index_lt {surface : Surface} {x y : Nat} (hx : x < surface.width)
    (hy : y < surface.height) :
    surface.index x y < surface.width * surface.height := by
  calc surface.index x y < surface.width * y + surface.width := by
        rw [index, Nat.mul_comm]; omega
    _ = surface.width * (y + 1) := by rw [Nat.mul_succ]
    _ ≤ surface.width * surface.height := Nat.mul_le_mul_left _ hy

/-- The pixel at a place of the surface. -/
def pixel? (surface : Surface) (x y : Nat) : Option Pixel :=
  if h : x < surface.width ∧ y < surface.height then
    have := index_lt h.1 h.2
    have := surface.size_raster
    let start := 4 * surface.index x y
    some {
      red := surface.raster[start]
      green := surface.raster[start + 1]
      blue := surface.raster[start + 2]
      alpha := surface.raster[start + 3] }
  else none

/-- The surface with one pixel changed. -/
def set (surface : Surface) (x y : Nat) (pixel : Pixel) : Surface :=
  ofPixels surface.width surface.height fun column row =>
    if column = x ∧ row = y then pixel else (surface.pixel? column row).getD pixel

/-- The greatest width and height that a payload can state. -/
def maxExtent : Nat := 0xFFFF

/-- The payload of a surface: width and height as big-endian words of two bytes, then the raster. -/
def payload (surface : Surface) : Except ImageError ByteArray :=
  if surface.width ≤ maxExtent ∧ surface.height ≤ maxExtent then
    .ok (bytesOf (Word.big 2 surface.width ++ Word.big 2 surface.height) ++ surface.raster)
  else .error (.tooLarge surface.width surface.height)

end Surface

end ResourceAssembler
