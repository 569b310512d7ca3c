import ResourceAssembler.Image.Deflate.Bits

/-!
# Codes of varying length

A code is given by the length of each symbol's code word. Among words of one length the symbols
stand in order, and shorter words come before longer ones. The tree of a code is therefore built
from its deepest level upwards: a level holds its leaves and then the nodes that join the trees
of the level below in pairs.
-/

namespace ResourceAssembler.Deflate

/-- A code as a tree, walked from the root by the bits of a word. -/
inductive Code where
  /-- No word leads here. -/
  | unused
  | symbol (value : Nat)
  | branch (zero one : Code)
deriving DecidableEq, Repr

/-- A word of a code: the symbol that it stands for, and how many bits it has. -/
structure CodeWord where
  symbol : Nat
  length : Nat
deriving DecidableEq, Repr

namespace Code

/-- The word that bits begin with, behind `depth` bits of it. Missing bits count as zeros. -/
def wordFrom (depth : Nat) : Code → List Bool → Option CodeWord
  | unused, _ => none
  | symbol value, _ => some ⟨value, depth⟩
  | branch zero _, [] => zero.wordFrom (depth + 1) []
  | branch zero one, bit :: rest =>
    if bit then one.wordFrom (depth + 1) rest else zero.wordFrom (depth + 1) rest

/-- The word that bits begin with, where missing bits count as zeros. -/
def word? (code : Code) (bits : List Bool) : Option CodeWord :=
  code.wordFrom 0 bits

/-- Reads one word. -/
def read (code : Code) : Reader CodeWord := do
  let word ← known (code.word? (← get))
  await word.length
  modify fun bits => bits.drop word.length
  return word

/-- The greatest length of a word. -/
def maxLength : Nat := 15

/-- The leaves for the symbols whose words have the given length. -/
def leaves (lengths : List Nat) (length : Nat) : List Code :=
  ((lengths.zipIdx.filter (·.1 = length)).map fun (_, value) => symbol value)

/-- Joins neighbours, if none is left over. -/
def pairs : List Code → Option (List Code)
  | [] => some []
  | [_] => none
  | zero :: one :: rest => (pairs rest).map (branch zero one :: ·)

/-- The trees on the level `depth`, which has `below` levels under it. -/
def level (lengths : List Nat) : (below depth : Nat) → Option (List Code)
  | 0, depth => some (leaves lengths depth)
  | below + 1, depth => do
    let deeper ← level lengths below (depth + 1)
    return leaves lengths depth ++ (← pairs deeper)

/-- The code with these lengths of words, 0 for a symbol that has none. Every sequence of bits
has to begin with a word. -/
def ofLengths? (lengths : List Nat) : Option Code := do
  match ← pairs (← level lengths (maxLength - 1) 1) with
  | [code] => some code
  | _ => none

/-- The code of distances, which may also have no word at all or a single word of one bit. -/
def ofDistanceLengths? (lengths : List Nat) : Option Code :=
  match lengths.zipIdx.filter (·.1 ≠ 0) with
  | [] => some unused
  | [(1, value)] => some (branch (symbol value) unused)
  | _ => ofLengths? lengths

end Code

end ResourceAssembler.Deflate
