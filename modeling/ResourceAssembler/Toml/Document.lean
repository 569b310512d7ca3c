import ResourceAssembler.Toml.Moment
import ResourceAssembler.Toml.Number
import ResourceAssembler.Toml.Table

/-!
# TOML documents

A document is a sequence of lines: pairs of key and value, and headers that name the table to which
the pairs behind them belong. `Toml.parse?` gives the entries of the whole document.
-/

namespace ResourceAssembler.Toml

open Scan

/-! ## Values -/

/-- A value that holds no others. -/
def scalar : Scan Value := do
  let offset := (← get).offset
  (Value.text · offset) <$> string
    <|> Value.moment <$> moment
    <|> Value.float <$> float
    <|> Value.integer <$> integer
    <|> (exactly "true" *> return .boolean true)
    <|> (exactly "false" *> return .boolean false)

/-- A key, its path and its value. -/
structure Pair where
  path : List String
  key : String
  value : Value

def pair (value : Scan Value) : Scan Pair := do
  let (path, key) ← key
  exactly "="
  blanks
  return { path, key, value := ← value }

/-- An array of values. -/
def arrayOf (value : Scan Value) : Scan Value := do
  exactly "["
  let items ← separated "," (gap *> value <* gap)
  if !items.isEmpty then discard (optional (exactly ","))
  gap
  exactly "]"
  return .array items

/-- The entries of pairs. -/
def entriesOf? (pairs : List Pair) : Option Entries :=
  pairs.foldlM (fun entries p => entries.insert? p.path p.key p.value) []

/-- A table between braces, which is written on one line. -/
def tableOf (value : Scan Value) : Scan Value := do
  exactly "\x7b"
  let pairs ← separated "," (pair value <* blanks)
  blanks
  exactly "\x7d"
  return .table .braces (← entriesOf? pairs)

/-- A value with at most `depth` brackets or braces inside one another. -/
def valueWithin : (depth : Nat) → Scan Value
  | 0 => scalar
  | depth + 1 => scalar <|> arrayOf (valueWithin depth) <|> tableOf (valueWithin depth)

/-- The greatest depth of a value. -/
def depthLimit : Nat := 79

/-! ## Lines -/

/-- The name of a table. -/
structure Header where
  path : List String
  key : String
  /-- Whether the table is one more of an array. -/
  inArray : Bool

inductive Line where
  | blank
  | pair (pair : Pair)
  | header (header : Header)

/-- The name of a table between one or two pairs of brackets. -/
def header : Scan Header := do
  exactly "["
  let inArray := (← optional (exactly "[")).isSome
  let (path, key) ← key
  exactly "]"
  if inArray then exactly "]"
  return { path, key, inArray }

/-- A line. -/
def line : Scan Line := do
  if ← atEnd then failure
  (lineEnd *> return .blank)
    <|> blanks *> (Line.header <$> header <* lineEnd)
    <|> Line.pair <$> pair (valueWithin depthLimit) <* lineEnd

/-- The lines of a document, which may start with a byte order mark. -/
def lines : Scan (List Line) := do
  discard (optional (exactly "\ufeff"))
  let lines ← repeated line
  finish
  return lines

/-! ## Tables of a document -/

/-- A document as far as it is read: the entries of the whole, and the table
to which pairs are added. -/
structure Draft where
  root : Entries := []
  /-- The name of the open table. The root has none. -/
  name : Option Header := none
  entries : Entries := []

namespace Draft

/-- Puts the finished table of a header into the entries around it. -/
def place? (header : Header) (table entries : Entries) : Option (Unit × Entries) :=
  let table := Value.table .header table
  if header.inArray then
    match entries.get? header.key with
    | some (.tables earlier) => some ((), entries.put header.key (.tables (table :: earlier)))
    | _ => none
  else some ((), entries.put header.key table)

/-- The entries of the whole with the open table in its place. -/
def close? (draft : Draft) : Option Entries :=
  match draft.name with
  | none => some draft.entries
  | some header => do
    let change := fun _ => place? header draft.entries
    let ((), root) ← draft.root.visit .header change header.path .header
    return root

/-- Takes the table of a header out of the entries around it, with what it already holds. Only a
table that other headers have implied holds something. An array goes on with an empty table. -/
def take? (header : Header) (entries : Entries) : Option (Entries × Entries) :=
  match header.inArray, entries.get? header.key with
  | true, none => some ([], entries.put header.key (.tables []))
  | true, some (.tables _) => some ([], entries)
  | false, none => some ([], entries)
  | false, some (.table .implied held) => some (held, entries.erase header.key)
  | _, _ => none

/-- Opens the table that a header names. -/
def open? (draft : Draft) (header : Header) : Option Draft := do
  let root ← draft.close?
  let (entries, root) ← root.visit .header (fun _ => take? header) header.path .header
  return { root, name := some header, entries }

/-- Takes in a line. -/
def add? (draft : Draft) : Line → Option Draft
  | .blank => some draft
  | .header header => draft.open? header
  | .pair pair => do
    return { draft with entries := ← draft.entries.insert? pair.path pair.key pair.value }

end Draft

/-- The entries of a document. -/
def parse? (text : String) : Option Entries := do
  let (lines, _) ← lines.run (Cursor.ofList text.toList)
  (← lines.foldlM Draft.add? {}).close?

end ResourceAssembler.Toml
