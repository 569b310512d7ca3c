/-!
# Bit streams

Compressed data is read bit by bit, the least significant bit of each byte first. A reader
looks at the bits at hand, which may be fewer than it needs: then it fails, and can be run
again once more bits have come in.
-/

namespace ResourceAssembler.Deflate

/-- The bits of a byte, the least significant one first. -/
def bitsOf (byte : UInt8) : List Bool :=
  (List.range 8).map byte.toNat.testBit

/-- The bits of bytes in the order in which they are read. -/
def bitsIn (bytes : ByteArray) : List Bool :=
  bytes.data.toList.flatMap bitsOf

/-- Why bits cannot be read. -/
inductive Fault where
  /-- There are too few of them. -/
  | ended
  /-- They have no meaning. -/
  | corrupt
deriving DecidableEq, Repr

/-- Reads from the bits at hand and leaves the rest of them, or fails. -/
abbrev Reader := StateT (List Bool) (Except Fault)

/-- Whether there are at least `count` bits. -/
def has : (count : Nat) → List Bool → Bool
  | 0, _ => true
  | _ + 1, [] => false
  | count + 1, _ :: rest => has count rest

theorem has_eq_true_iff (count : Nat) (bits : List Bool) :
    has count bits = true ↔ count ≤ bits.length := by
  induction count generalizing bits with
  | zero => simp [has]
  | succ count ih =>
    cases bits with
    | nil => simp [has]
    | cons bit rest => simp [has, ih]

/-- Fails unless at least `count` bits are at hand. -/
def await (count : Nat) : Reader Unit := do
  if has count (← get) then return else throw .ended

/-- The next bit. -/
def bit : Reader Bool := fun bits =>
  match bits with
  | [] => .error .ended
  | bit :: rest => .ok (bit, rest)

/-- The next `width` bits as a number, the least significant one first. -/
def number : (width : Nat) → Reader Nat
  | 0 => return 0
  | width + 1 => do
    let low ← bit
    let high ← number width
    return low.toNat + 2 * high

/-- Skips to the next boundary of a byte. The bits at hand end with a whole byte, so what is left of
the current byte is what exceeds a multiple of eight. -/
def align : Reader Unit :=
  modify fun bits => bits.drop (bits.length % 8)

/-- Fails if a condition of the format is not met. -/
def demand (condition : Prop) [Decidable condition] : Reader Unit :=
  if condition then return else throw .corrupt

/-- A part of the format that has to be there. -/
def known {α : Type} : Option α → Reader α
  | some a => return a
  | none => throw .corrupt

/-- Takes bits without a meaning for bits that are not all there yet, unless
`count` of them are at hand. -/
def patiently {α : Type} (count : Nat) (reader : Reader α) : Reader α := fun bits =>
  match reader bits with
  | .error .corrupt => .error (if has count bits then .corrupt else .ended)
  | outcome => outcome

end ResourceAssembler.Deflate
