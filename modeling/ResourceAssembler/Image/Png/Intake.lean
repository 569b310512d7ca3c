import ResourceAssembler.Image.Deflate.Stream

/-!
# Taking in image data

The compressed data of an image comes in parts, and its meaning is taken out through a
window that widens as it fills. `Intake.draw` takes out bytes until there are as many as
asked for or a part is used up. Whatever the data says as long as the window has room
counts, also behind the bytes asked for.
-/

namespace ResourceAssembler.Png

open Deflate

/-- A window on the meaning of compressed data. -/
structure Window where
  /-- How many bytes are expected in all, if that is known. -/
  expected : Option Nat
  size : Nat := 0
  filled : Nat := 0
deriving DecidableEq, Repr

namespace Window

/-- The room that a window offers at least, unless fewer bytes are expected. -/
def unit : Nat := 1 <<< 15

/-- How many bytes a window keeps for good. -/
def capacity : Nat := 4 * unit

/-- A window with room in it. Once as many bytes are there as were
expected, any number may follow. -/
def widened (window : Window) : Window :=
  let expected := window.expected.filter (window.filled < ·)
  let within (size : Nat) := expected.elim size (min size)
  if within (window.filled + unit) ≤ window.size then { window with expected }
  else { window with expected, size := within (window.size + max unit window.size) }

def room (window : Window) : Nat :=
  window.size - window.filled

/-- A window with `count` more bytes in it. When it has become too large,
the oldest ones are let go. -/
def filledBy (window : Window) (count : Nat) : Window :=
  let filled := window.filled + count
  { window with filled := if capacity < filled then unit else filled }

end Window

/-- Data that is being taken in: how far the stream has come, and how many
bytes have been taken out. -/
structure Intake where
  stream : Stream := {}
  window : Window
  taken : Nat := 0

namespace Intake

/-- Takes out what the window has room for. -/
def fill (intake : Intake) : Except Fault Intake := do
  let window := intake.window.widened
  let limit := intake.taken + window.room
  let stream ← intake.stream.advance (some limit)
  let taken := min limit stream.output.size
  return { stream, window := window.filledBy (taken - intake.taken), taken }

/-- Takes out bytes until `count` are there or there are no more for now. A full window has room for
a byte at least, so `fuel` need not exceed `count`. -/
def draw (count : Nat) : (fuel : Nat) → Intake → Except Fault Intake
  | 0, intake => .ok intake
  | fuel + 1, intake => do
    let next ← intake.fill
    if next.taken < count ∧ intake.taken + intake.window.widened.room ≤ next.taken then
      draw count fuel next
    else return next

/-- Takes in a part of the data, and out of it what is needed for `count` bytes. -/
def feed (count : Nat) (intake : Intake) (part : ByteArray) : Except Fault Intake :=
  draw count (count + 1) { intake with stream := intake.stream.feed part }

end Intake

end ResourceAssembler.Png
