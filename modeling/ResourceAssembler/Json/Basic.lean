/-!
# JSON values

Objects keep their members in the order written. Whole numbers and other numbers are kept apart: no
form of this library has a fraction, so of those only the fact remains.
-/

namespace ResourceAssembler

/-- A JSON value. -/
inductive Json where
  | null
  | bool (b : Bool)
  | whole (n : Int)
  | fraction
  | text (s : String)
  | list (items : List Json)
  | object (members : List (String × Json))
deriving Inhabited

namespace Json

/-- What a form is read from: straight from the text of a JSON value, or
from a value that was kept. -/
inductive Origin where
  | text
  | value
deriving DecidableEq, Repr

/-- The value of the member of the given name. A name that is given twice has no value. -/
def member? (members : List (String × Json)) (name : String) : Option Json :=
  match members.filter (·.1 = name) with
  | [(_, value)] => some value
  | _ => none

/-- A fixed list of named values, written as an object with these members or as a list of the values
in the order of the names. Other members are passed over. -/
def fields? (names : List String) : Json → Option (List Json)
  | object members => names.mapM (member? members)
  | list items => if items.length = names.length then some items else none
  | _ => none

def text? : Json → Option String
  | text s => some s
  | _ => none

def list? : Json → Option (List Json)
  | list items => some items
  | _ => none

/-- A whole number from `lo` up to and including `hi`. -/
def within? (lo hi : Int) : Json → Option Int
  | whole n => if lo ≤ n ∧ n ≤ hi then some n else none
  | _ => none

def int64? (json : Json) : Option Int64 :=
  (json.within? Int64.minValue.toInt Int64.maxValue.toInt).map Int64.ofInt

/-- A count or position of at most 64 bits. -/
def count? (json : Json) : Option Nat :=
  (json.within? 0 (UInt64.size - 1)).map Int.toNat

def byte? (json : Json) : Option UInt8 :=
  (json.within? 0 255).map fun n => UInt8.ofNat n.toNat

/-- The name and the content of a choice: a text alone, or an object with one member. -/
def choice? : Json → Option (String × Option Json)
  | text name => some (name, none)
  | object [(name, content)] => some (name, some content)
  | _ => none

/-- The named values that make up the content of a choice. A value that was kept has them in an
object only, while in a text they may be a list. -/
def content? (origin : Origin) (names : List String) (json : Json) : Option (List Json) :=
  match origin, json with
  | .value, list _ => none
  | _, _ => json.fields? names

/-- The name of a choice without content, for which `null` may stand. -/
def bareChoice? (json : Json) : Option String :=
  match json.choice? with
  | some (name, none) => some name
  | some (name, some null) => some name
  | _ => none

end Json

end ResourceAssembler
