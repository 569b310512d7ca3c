import ResourceAssembler.Image.Deflate.Code

/-!
# Blocks of compressed data

A block holds bytes as they are, or words of two codes: one for single bytes, for the lengths of
repeated stretches and for the end of the block, and one for how far back such a stretch starts. The
codes are fixed, or they stand in front of the block, themselves in code.
-/

namespace ResourceAssembler.Deflate

/-- The two codes of a compressed block. -/
structure BlockCodes where
  literals : Code
  distances : Code

/-- What a stream adds to what it stands for. -/
inductive Addition where
  | bytes (values : List UInt8)
  /-- Bytes that are there already: `length` of them, which start `distance` before the end. -/
  | again (length distance : Nat)

/-! ## The words of a block -/

/-- The symbol that ends a block. Smaller symbols are bytes, greater ones lengths. -/
def endOfBlock : Nat := 256

/-- The number of bits that follow each length symbol. -/
def lengthExtras : List Nat :=
  [0, 0, 0, 0, 0, 0, 0, 0, 1, 1, 1, 1, 2, 2, 2, 2, 3, 3, 3, 3, 4, 4, 4, 4, 5, 5, 5, 5, 0]

/-- The least length of each length symbol. -/
def lengthBases : List Nat :=
  [3, 4, 5, 6, 7, 8, 9, 10, 11, 13, 15, 17, 19, 23, 27, 31, 35, 43, 51, 59, 67, 83, 99, 115, 131,
    163, 195, 227, 258]

/-- The number of bits that follow each distance symbol. -/
def distanceExtras : List Nat :=
  [0, 0, 0, 0, 1, 1, 2, 2, 3, 3, 4, 4, 5, 5, 6, 6, 7, 7, 8, 8, 9, 9, 10, 10, 11, 11, 12, 12, 13, 13]

/-- The least distance of each distance symbol. -/
def distanceBases : List Nat :=
  [1, 2, 3, 4, 5, 7, 9, 13, 17, 25, 33, 49, 65, 97, 129, 193, 257, 385, 513, 769, 1025, 1537, 2049,
    3073, 4097, 6145, 8193, 12289, 16385, 24577]

/-- The greatest symbol that is a length. -/
def lastLength : Nat := 285

/-- A number given by a symbol and the bits behind it. -/
def extended (bases extras : List Nat) (symbol : Nat) : Reader Nat := do
  let base ← known bases[symbol]?
  let extra ← known extras[symbol]?
  return base + (← number extra)

/-- The number of bits that have to be at hand before a distance can be said to have no meaning. -/
def distancePatience : Nat := 10

/-- Reads what a length symbol stands for, and the distance behind it. -/
def stretch (codes : BlockCodes) (symbol : Nat) : Reader Addition := do
  let length ← extended lengthBases lengthExtras (symbol - endOfBlock - 1)
  let distance ← patiently distancePatience do
    extended distanceBases distanceExtras (← codes.distances.read).symbol
  return .again length distance

/-- The greatest number of bits of two words that are taken together. -/
def pairLimit : Nat := 12

/-- Whether a byte whose word has `length` bits is taken together with a byte behind it. The bits of
such a pair have to be there before either byte comes out. -/
def hasPartner (code : Code) (length : Nat) (bits : List Bool) : Bool :=
  (code.word? bits).any fun next =>
    next.symbol < endOfBlock && 2 ≤ next.length && length + next.length ≤ pairLimit

/-- The bytes that come out with the word of the first one. -/
def literals (code : Code) (first : CodeWord) : Reader Addition := do
  if hasPartner code first.length (← get) then
    let second ← code.read
    return .bytes [UInt8.ofNat first.symbol, UInt8.ofNat second.symbol]
  else return .bytes [UInt8.ofNat first.symbol]

/-- Reads the next words of a block, or its end: the symbol for it or one behind the last length. -/
def blockWords (codes : BlockCodes) : Reader (Option Addition) := do
  let word ← codes.literals.read
  if word.symbol < endOfBlock then some <$> literals codes.literals word
  else if word.symbol = endOfBlock ∨ lastLength < word.symbol then return none
  else some <$> stretch codes word.symbol

/-! ## Codes -/

/-- How many lengths describe the codes of a block: of its literals, of its distances, and of the
code in which these are given. -/
structure CodeSizes where
  literals : Nat
  distances : Nat
  entries : Nat
deriving DecidableEq, Repr

/-- The greatest number of symbols in a block's literal code and in its distance code. -/
def maxLiterals : Nat := 286

def maxDistances : Nat := 30

/-- Reads how many lengths there are. -/
def codeSizes : Reader CodeSizes := do
  let literals := 257 + (← number 5)
  let distances := 1 + (← number 5)
  let entries := 4 + (← number 4)
  demand (literals ≤ maxLiterals ∧ distances ≤ maxDistances)
  return { literals, distances, entries }

/-- The order in which the lengths of the code for lengths are given. -/
def lengthOrder : List Nat :=
  [16, 17, 18, 0, 8, 7, 9, 6, 10, 5, 11, 4, 12, 3, 13, 2, 14, 1, 15]

/-- Reads `count` numbers of three bits each. -/
def shortLengths : (count : Nat) → Reader (List Nat)
  | 0 => return []
  | count + 1 => do
    let length ← number 3
    return length :: (← shortLengths count)

/-- Reads the code for lengths. -/
def lengthCode (sizes : CodeSizes) : Reader Code := do
  let short := lengthOrder.zip (← shortLengths sizes.entries)
  known (Code.ofLengths? ((List.range 19).map fun i => (short.lookup i).getD 0))

/-- The number of bits that have to be at hand for an entry of a list of lengths. -/
def entryPatience : Nat := 7

/-- Reads one entry of a list of lengths: a length, or a length repeated. The array holds the
lengths so far, and takes no more than `count`. -/
def lengthEntry (code : Code) (count : Nat) (lengths : Array Nat) : Reader (Array Nat) := do
  await entryPatience
  let entry ← match (← code.read).symbol with
    | 16 =>
      let extra ← number 2
      let last ← known lengths.back?
      pure (List.replicate (3 + extra) last)
    | 17 => pure (List.replicate (3 + (← number 3)) 0)
    | 18 => pure (List.replicate (11 + (← number 7)) 0)
    | length => pure [length]
  demand (lengths.size + entry.length ≤ count)
  return lengths ++ entry

/-- The codes with the given lengths. A code without an end of the block is none. -/
def BlockCodes.ofLengths? (sizes : CodeSizes) (lengths : List Nat) : Option BlockCodes := do
  if lengths[endOfBlock]? = some 0 then failure
  let literals ← Code.ofLengths? (lengths.take sizes.literals)
  let distances ← Code.ofDistanceLengths? (lengths.drop sizes.literals)
  return { literals, distances }

/-- The codes of a block that brings none. -/
def fixedCodes : Option BlockCodes := do
  let literals ← Code.ofLengths?
    (List.replicate 144 8 ++ List.replicate 112 9 ++ List.replicate 24 7 ++ List.replicate 8 8)
  let distances ← Code.ofDistanceLengths? (List.replicate 32 5)
  return { literals, distances }

/-! ## Bytes as they are -/

/-- Reads the length of bytes that are given as they are, and its complement. -/
def plainLength : Reader Nat := do
  align
  let length ← number 16
  let complement ← number 16
  demand (length + complement = 0xFFFF)
  return length

end ResourceAssembler.Deflate
