import ResourceAssembler.Image.Deflate.Block

/-!
# Compressed streams

A compressed stream is a header, a sequence of blocks and a check sum. It may come in piece by
piece, and what it stands for may be taken out piece by piece: `Stream.advance` goes as far as the
bits at hand and the room for their meaning allow, and what it leaves can be continued.
-/

namespace ResourceAssembler.Deflate

/-- What comes next in a stream. Inside a block it is known whether the block is the last one. -/
inductive Phase where
  | streamHeader
  | blockHeader
  /-- The code for the lengths of words. -/
  | lengthCode (sizes : CodeSizes) (last : Bool)
  /-- The lengths of words, some of which are known. -/
  | lengths (sizes : CodeSizes) (code : Code) (known : Array Nat) (last : Bool)
  | words (codes : BlockCodes) (last : Bool)
  /-- Bytes as they are. -/
  | plain (left : Nat) (last : Bool)
  | checkSum
  | finished

/-- How much room there is for what a stream stands for. -/
inductive Room where
  | free
  | full
  /-- More is there than there is room for. -/
  | exceeded
deriving DecidableEq, Repr

namespace Room

/-- The room behind `size` bytes, which has a limit or not. -/
def behind (limit : Option Nat) (size : Nat) : Room :=
  match limit with
  | none => free
  | some limit => if size < limit then free else if size = limit then full else exceeded

end Room

namespace Phase

/-- What comes behind a block. -/
def behindBlock (last : Bool) : Phase :=
  if last then checkSum else blockHeader

/-- Reads the two bytes in front of a compressed stream: the method and the size of its window, then
a check that makes both bytes a multiple of 31. A preset dictionary is not allowed. -/
def ofStreamHeader : Reader Phase := do
  await 16
  let method ← number 4
  let window ← number 4
  let flags ← number 8
  demand (method = 8 ∧ window ≤ 7 ∧ !flags.testBit 5 ∧
    ((16 * window + method) * 256 + flags) % 31 = 0)
  return blockHeader

/-- The number of bits that have to be at hand for the header of a block. -/
def headerPatience : Nat := 10

/-- Reads the header of a block of one of the three kinds. A block of fixed codes
that is empty ends with it. -/
def ofBlockHeader : Reader Phase := do
  await headerPatience
  let last := (← number 1) = 1
  match ← number 2 with
  | 0 => return plain (← plainLength) last
  | 1 =>
    let codes ← known fixedCodes
    if (codes.literals.word? (← get)).any (·.symbol = endOfBlock) then
      discard codes.literals.read
      return behindBlock last
    else return words codes last
  | 2 => return lengthCode (← codeSizes) last
  | _ => throw .corrupt

/-- Reads the lengths of words, and makes codes of them once all are there. -/
def ofLengths (sizes : CodeSizes) (code : Code) (lengths : Array Nat) (last : Bool) :
    Reader Phase := do
  let count := sizes.literals + sizes.distances
  if lengths.size = count then
    return words (← known (BlockCodes.ofLengths? sizes lengths.toList)) last
  else return .lengths sizes code (← lengthEntry code count lengths) last

/-- The number of bits that have to be at hand for the end of a block if there
is no room for its words. -/
def endPatience : Nat := 15

/-- Reads the end of a block. -/
def ofBlockEnd (codes : BlockCodes) (last : Bool) : Reader Phase := do
  await endPatience
  let word ← codes.literals.read
  if word.symbol = endOfBlock then return behindBlock last else throw .ended

/-- Reads what comes next: how the stream goes on behind it, and what it adds. -/
def step (room : Room) : Phase → Reader (Phase × Option Addition)
  | streamHeader => return (← ofStreamHeader, none)
  | blockHeader => return (← ofBlockHeader, none)
  | lengthCode sizes last => return (.lengths sizes (← Deflate.lengthCode sizes) #[] last, none)
  | lengths sizes code known last => return (← ofLengths sizes code known last, none)
  | words codes last =>
    match room with
    | .free => do
      match ← blockWords codes with
      | some addition => return (words codes last, some addition)
      | none => return (behindBlock last, none)
    | .full => return (← ofBlockEnd codes last, none)
    | .exceeded => throw .ended
  | plain 0 last => return (behindBlock last, none)
  | plain (left + 1) last => do
    if room ≠ .free then throw .ended
    return (plain left last, some (.bytes [UInt8.ofNat (← number 8)]))
  | checkSum => do
    align
    discard (number 32)
    return (finished, none)
  | finished => throw .ended

end Phase

/-! ## What a stream stands for -/

/-- Repeats `length` bytes that start `distance` before the end, where the bytes just written count
too. Nothing is repeated from before the start. -/
def repeated (out : ByteArray) (distance : Nat) : (length : Nat) → ByteArray
  | 0 => out
  | length + 1 =>
    if h : out.size - distance < out.size then
      repeated (out.push out[out.size - distance]) distance length
    else out

/-- Bytes with an addition behind them. -/
def Addition.appendTo? (out : ByteArray) : Addition → Option ByteArray
  | bytes values => some (values.foldl ByteArray.push out)
  | again length distance =>
    if distance ≤ out.size then some (repeated out distance length) else none

/-- A stream on its way: what comes next in it, the bits at hand, and what
those before them stand for. -/
structure Stream where
  phase : Phase := .streamHeader
  bits : List Bool := []
  output : ByteArray := .empty

namespace Stream

/-- Puts bytes behind those at hand. -/
def feed (stream : Stream) (bytes : ByteArray) : Stream :=
  { stream with bits := stream.bits ++ bitsIn bytes }

/-- Takes at most `fuel` steps. -/
def run (limit : Option Nat) : (fuel : Nat) → Stream → Except Fault Stream
  | 0, stream => .ok stream
  | fuel + 1, ⟨phase, bits, output⟩ =>
    match phase.step (.behind limit output.size) bits with
    | .error .ended => .ok ⟨phase, bits, output⟩
    | .error .corrupt => .error .corrupt
    | .ok ((phase, none), rest) => run limit fuel ⟨phase, rest, output⟩
    | .ok ((phase, some addition), rest) =>
      match addition.appendTo? output with
      | some output => run limit fuel ⟨phase, rest, output⟩
      | none => .error .corrupt

/-- Goes as far as the bits at hand allow, and the limit on the bytes that they stand for, which the
last step may exceed. Only the ends of blocks of plain bytes and of lists of lengths take no bit,
and a header has been read before each of them. -/
def advance (limit : Option Nat) (stream : Stream) : Except Fault Stream :=
  stream.run limit (2 * stream.bits.length + 2)

end Stream

/-- What a compressed stream with its header stands for. The check sum behind the blocks has to be
there, but it is not compared; bytes behind it are ignored. -/
def inflate (bytes : ByteArray) : Except Fault ByteArray := do
  let stream ← (({} : Stream).feed bytes).advance none
  match stream.phase with
  | .finished => return stream.output
  | _ => throw .ended

end ResourceAssembler.Deflate
