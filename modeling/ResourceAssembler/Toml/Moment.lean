import ResourceAssembler.Toml.Text

/-!
# Dates and times

A moment is a date, a time of day, or both with a blank or a `T` between them, and then
perhaps an offset from universal time. The day has to exist in its month. A moment has one
text, however it was written.
-/

namespace ResourceAssembler.Toml

open Scan

structure Date where
  year : Nat
  month : Nat
  day : Nat
deriving DecidableEq, Repr

structure TimeOfDay where
  hour : Nat
  minute : Nat
  second : Nat
  /-- The digits of the fraction of the second: nine at most, and no zero at the end. -/
  fraction : List Char
deriving DecidableEq, Repr

/-- An offset from universal time. -/
inductive TimeOffset where
  | universal
  /-- Ahead by so many minutes, or behind. -/
  | minutes (value : Int)
deriving DecidableEq, Repr

/-- A date, a time or both. -/
inductive Moment where
  | day (date : Date)
  | clock (time : TimeOfDay)
  | both (date : Date) (time : TimeOfDay) (offset : Option TimeOffset)
deriving DecidableEq, Repr

/-! ## The text of a moment -/

/-- A number of at least `width` digits. -/
def padded (width n : Nat) : String :=
  let digits := toString n
  String.ofList (List.replicate (width - digits.length) '0') ++ digits

namespace Date

def text (date : Date) : String :=
  s!"{padded 4 date.year}-{padded 2 date.month}-{padded 2 date.day}"

end Date

namespace TimeOfDay

/-- The fraction that digits stand for. Digits behind the ninth are dropped. -/
def fractionOf (digits : List Char) : List Char :=
  ((digits.take 9).reverse.dropWhile (· = '0')).reverse

def text (time : TimeOfDay) : String :=
  s!"{padded 2 time.hour}:{padded 2 time.minute}:{padded 2 time.second}" ++
    if time.fraction.isEmpty then "" else "." ++ String.ofList time.fraction

end TimeOfDay

namespace TimeOffset

def text : TimeOffset → String
  | universal => "Z"
  | minutes value =>
    let mark := if value < 0 then "-" else "+"
    s!"{mark}{padded 2 (value.natAbs / 60)}:{padded 2 (value.natAbs % 60)}"

end TimeOffset

namespace Moment

def text : Moment → String
  | day date => date.text
  | clock time => time.text
  | both date time offset => date.text ++ "T" ++ time.text ++ (offset.map TimeOffset.text).getD ""

end Moment

/-! ## Reading a moment -/

/-- A number of `count` digits behind the digits of `n`. -/
def digits : (count n : Nat) → Scan Nat
  | 0, n => return n
  | count + 1, n => do
    let digit ← char Char.isDigit
    digits count (10 * n + (digit.toNat - '0'.toNat))

/-- A number of two digits from `lo` up to and including `hi`. -/
def twoDigits (lo hi : Nat) : Scan Nat := do
  let n ← digits 2 0
  if lo ≤ n ∧ n ≤ hi then return n else failure

def isLeapYear (year : Nat) : Bool :=
  year % 4 = 0 && (year % 100 ≠ 0 || year % 400 = 0)

/-- The number of days of a month. -/
def daysOf (year month : Nat) : Nat :=
  if month = 2 then (if isLeapYear year then 29 else 28)
  else if month ∈ [4, 6, 9, 11] then 30
  else 31

def date : Scan Date := do
  let year ← digits 4 0
  exactly "-"
  let month ← twoDigits 1 12
  exactly "-"
  let day ← twoDigits 1 (daysOf year month)
  return { year, month, day }

/-- A time of day. The 60th second is one that is inserted. -/
def time : Scan TimeOfDay := do
  let hour ← twoDigits 0 23
  exactly ":"
  let minute ← twoDigits 0 59
  exactly ":"
  let second ← twoDigits 0 60
  let fraction ← optional (exactly "." *> repeated₁ (char Char.isDigit))
  return { hour, minute, second, fraction := TimeOfDay.fractionOf (fraction.getD []) }

/-- An offset from universal time. -/
def timeOffset : Scan TimeOffset :=
  (do
    discard (char fun c => c = 'Z' || c = 'z')
    return .universal)
  <|> do
    let mark ← char fun c => c = '+' || c = '-'
    let hour ← twoDigits 0 23
    exactly ":"
    let minutes := 60 * hour + (← twoDigits 0 59)
    return .minutes (if mark = '-' then -minutes else minutes)

/-- A date with a time behind it. -/
def dateAndTime : Scan Moment := do
  let date ← date
  discard (char fun c => c = 'T' || c = 't' || c = ' ')
  let time ← time
  return .both date time (← optional timeOffset)

def moment : Scan Moment :=
  dateAndTime <|> Moment.day <$> date <|> Moment.clock <$> time

/-- The moment that a text states. -/
def Moment.ofText? (text : String) : Option Moment :=
  (moment <* finish).run' (Cursor.ofList text.toList)

end ResourceAssembler.Toml
