import ResourceAssembler.Toml.Moment

/-!
# TOML values

Floating-point numbers are kept as they are written: nothing in this library asks for more than
the fact that a value is one.
-/

namespace ResourceAssembler.Toml

/-- How a table came to be, which decides how it may still be extended. -/
inductive TableOrigin where
  /-- Written between braces: complete. -/
  | braces
  /-- Named by a header of its own. -/
  | header
  /-- Needed by the header of a table inside it. -/
  | implied
  /-- Needed by a dotted key. -/
  | dotted
deriving DecidableEq, Repr

/-- A TOML value. -/
inductive Value where
  /-- A string and the byte offset at which it is written. -/
  | text (content : String) (offset : Nat)
  | integer (value : Int64)
  | float (written : String)
  | boolean (value : Bool)
  | moment (value : Moment)
  | array (items : List Value)
  | table (origin : TableOrigin) (entries : List (String × Value))
  /-- The tables of an array with headers, the latest first. -/
  | tables (latestFirst : List Value)
deriving Inhabited

/-- The entries of a table. No key stands twice. -/
abbrev Entries := List (String × Value)

/-- The value of a key. -/
def Entries.get? (entries : Entries) (key : String) : Option Value :=
  (entries.find? (·.1 = key)).map (·.2)

namespace Value

def string? : Value → Option String
  | text content _ => some content
  | _ => none

def int64? : Value → Option Int64
  | integer value => some value
  | _ => none

/-- The items of an array, however it is written. -/
def items? : Value → Option (List Value)
  | array items => some items
  | tables latestFirst => some latestFirst.reverse
  | _ => none

/-- The key under which the text of a moment stands where a table is expected. -/
def momentKey : String := "$__toml_private_datetime"

/-- The entries of a table. A moment counts as a table with one entry. -/
def entries? : Value → Option Entries
  | table _ entries => some entries
  | moment value => some [(momentKey, text value.text 0)]
  | _ => none

/-- A list of named values, written as a table or as an array of the values in the order of the
names. Values may be missing, in an array from the end, and other values are passed over. -/
def fields? (value : Value) (names : List String) : Option (List (Option Value)) :=
  match value.entries?, value.items? with
  | some entries, _ => some (names.map entries.get?)
  | _, some items => some ((List.range names.length).map fun i => items[i]?)
  | _, _ => none

/-- Whether a value is the text of a moment. -/
def isMomentText : Value → Bool
  | text content _ => (Moment.ofText? content).isSome
  | _ => false

mutual

/-- Whether a value makes sense where any value may stand. A table stands for a moment if its first
key is `momentKey`, which then has to hold the text of one; its other entries do not count. -/
def isSound : Value → Bool
  | array items => areSound items
  | tables latestFirst => areSound latestFirst
  | table _ entries =>
    match entries with
    | [] => true
    | (key, value) :: rest =>
      if key = momentKey then value.isMomentText else value.isSound && haveSound rest
  | _ => true

def areSound : List Value → Bool
  | [] => true
  | value :: rest => value.isSound && areSound rest

def haveSound : List (String × Value) → Bool
  | [] => true
  | (_, value) :: rest => value.isSound && haveSound rest

end

end Value

/-! ## Reading values of a known form -/

/-- Reads a value that may be missing. -/
def optional? {α : Type} (read : Value → Option α) : Option Value → Option (Option α)
  | some value => (read value).map some
  | none => some none

/-- Reads a value that may be missing, in place of which a default stands. -/
def orDefault? {α : Type} (default : α) (read : Value → Option α) (value : Option Value) :
    Option α :=
  (optional? read value).map (·.getD default)

/-- Reads the items of an array. -/
def listOf? {α : Type} (read : Value → Option α) (value : Value) : Option (List α) := do
  (← value.items?).mapM read

end ResourceAssembler.Toml
