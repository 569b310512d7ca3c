import ResourceAssembler.Toml.Value

/-!
# Building tables

A key or a header names a path of tables, the missing ones of which come to be as it is
followed. A header passes through any table that is not written between braces and through the
latest table of an array with headers. A dotted key passes only through such arrays and through
tables that no header has named.
-/

namespace ResourceAssembler.Toml

/-- What names a path. -/
inductive PathKind where
  | header
  | dottedKey
deriving DecidableEq, Repr

namespace PathKind

/-- The origin of the tables that come to be on a path. -/
def origin : PathKind → TableOrigin
  | header => .implied
  | dottedKey => .dotted

/-- Whether a path may pass through a table. -/
def passes : PathKind → TableOrigin → Bool
  | _, .braces => false
  | dottedKey, .header => false
  | _, _ => true

end PathKind

namespace Entries

/-- The entries with the value of a key changed, or added behind the others. -/
def put (entries : Entries) (key : String) (value : Value) : Entries :=
  match entries with
  | [] => [(key, value)]
  | (k, v) :: rest => if k = key then (k, value) :: rest else (k, v) :: put rest key value

/-- The entries without a key. -/
def erase (entries : Entries) (key : String) : Entries :=
  entries.filter (·.1 ≠ key)

/-- Visits the table at the end of a path and changes its entries. The visit
is told the table's origin. -/
def visit {α : Type} (kind : PathKind) (change : TableOrigin → Entries → Option (α × Entries)) :
    (path : List String) → (origin : TableOrigin) → (entries : Entries) → Option (α × Entries)
  | [], origin, entries => change origin entries
  | key :: path, _, entries =>
    match entries.get? key with
    | none => do
      let (result, below) ← visit kind change path kind.origin []
      return (result, entries.put key (.table kind.origin below))
    | some (.table origin below) => do
      if !kind.passes origin then failure
      let (result, below) ← visit kind change path origin below
      return (result, entries.put key (.table origin below))
    | some (.tables (.table origin below :: earlier)) => do
      let (result, below) ← visit kind change path origin below
      return (result, entries.put key (.tables (.table origin below :: earlier)))
    | some _ => none

/-- Adds a value under a key that is given with its path. A key with a path adds only to a table
that came to be by dotted keys. -/
def insert? (entries : Entries) (path : List String) (key : String) (value : Value) :
    Option Entries := do
  let ((), entries) ← visit .dottedKey (fun origin entries =>
    if (origin = .dotted ↔ path.isEmpty) ∨ (entries.get? key).isSome then none
    else some ((), entries ++ [(key, value)])) path .header entries
  return entries

end Entries

end ResourceAssembler.Toml
