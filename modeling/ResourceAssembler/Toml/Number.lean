import ResourceAssembler.Toml.Value
import ResourceAssembler.Toml.Text

/-!
# Numbers

Digits may be grouped by underscores. A decimal number does not start with a zero that has digits
behind it. Whole numbers fit 64 bits with a sign.
-/

namespace ResourceAssembler.Toml

open Scan

/-- Digits, where an underscore may stand between each two. -/
def grouped (isDigit : Char → Bool) : Scan (List Char) := do
  let first ← char isDigit
  let more ← repeated (char isDigit <|> (exactly "_" *> char isDigit))
  return first :: more

/-- The digits of a decimal number. -/
def decimalDigits : Scan (List Char) :=
  (exactly "0" *> return ['0']) <|> grouped Char.isDigit

/-- A sign, true for minus. -/
def sign : Scan Bool :=
  (exactly "-" *> return true) <|> (exactly "+" *> return false) <|> return false

/-- The number that digits stand for. -/
def valueOf (base : Nat) (digits : List Char) : Nat :=
  digits.foldl (fun n c => base * n + (hexValue? c).getD 0) 0

/-- A number of 64 bits with a sign. -/
def int64? (n : Int) : Option Int64 :=
  if Int64.minValue.toInt ≤ n ∧ n ≤ Int64.maxValue.toInt then some (Int64.ofInt n) else none

/-- Digits of a base behind its mark. -/
def basedInteger (mark : String) (base : Nat) : Scan Int64 := do
  exactly mark
  int64? (valueOf base (← grouped fun c => (hexValue? c).any (· < base)))

def decimalInteger : Scan Int64 := do
  let negative ← sign
  let magnitude := valueOf 10 (← decimalDigits)
  int64? (if negative then -magnitude else magnitude)

def integer : Scan Int64 :=
  basedInteger "0x" 16 <|> basedInteger "0o" 8 <|> basedInteger "0b" 2 <|> decimalInteger

/-- The least number that is nearer to 2 ^ 1024 than to the greatest number of 53
bits below it, or as near. -/
def floatLimit : Nat := (1 <<< 1024) - (1 <<< 970)

/-- Whether these digits, shifted by `exponent` places, are too great for a floating-point number.
Of numbers far from the limit only the order of magnitude is asked. -/
def overflows (digits : List Char) (exponent : Int) : Bool :=
  let digits := digits.dropWhile (· = '0')
  let magnitude : Int := digits.length + exponent
  if digits.isEmpty || magnitude < 300 then false
  else if magnitude > 400 then true
  else
    valueOf 10 digits * Nat.pow 10 exponent.toNat ≥ floatLimit * Nat.pow 10 (-exponent).toNat

/-- The digits behind a point. -/
def fractionPart : Scan (List Char) :=
  exactly "." *> grouped Char.isDigit

/-- The power of ten by which a number is shifted. -/
def exponentPart : Scan Int := do
  discard (char fun c => c = 'e' || c = 'E')
  let negative ← sign
  let magnitude := valueOf 10 (← grouped Char.isDigit)
  return if negative then -magnitude else magnitude

/-- A floating-point number with a fraction, an exponent or both. One that is too great is refused,
one that is too far below zero is not. -/
def decimalFloat : Scan Unit := do
  let negative ← sign
  let whole ← decimalDigits
  let fraction ← optional fractionPart
  let exponent ← optional exponentPart
  if fraction.isNone ∧ exponent.isNone then failure
  let digits := whole ++ fraction.getD []
  if !negative ∧ overflows digits (exponent.getD 0 - (fraction.getD []).length) then failure

def specialFloat : Scan Unit := do
  discard sign
  exactly "inf" <|> exactly "nan"

def float : Scan String :=
  written (decimalFloat <|> specialFloat)

end ResourceAssembler.Toml
