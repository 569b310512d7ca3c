/-!
# Scanning text

A cursor stands in a text. A scan reads from the cursor on and leaves it behind what it has read, or
fails and leaves it where it was.
-/

namespace ResourceAssembler.Toml

/-- A place in a text. -/
structure Cursor where
  rest : List Char
  /-- The number of bytes before this place. -/
  offset : Nat
  /-- The number of characters behind this place. -/
  left : Nat
  left_eq : left = rest.length

namespace Cursor

/-- The start of a text. -/
def ofList (text : List Char) : Cursor :=
  ⟨text, 0, text.length, rfl⟩

/-- The next character and the place behind it. -/
def next? : Cursor → Option (Char × Cursor)
  | ⟨[], _, _, _⟩ => none
  | ⟨c :: rest, offset, left, left_eq⟩ =>
    some (c, ⟨rest, offset + c.utf8Size, left - 1, by simp [left_eq]⟩)

end Cursor

/-- Reads from a text, or fails. -/
abbrev Scan := StateT Cursor Option

namespace Scan

/-- The next character, if it is accepted. -/
def char (accepts : Char → Bool) : Scan Char := fun cursor =>
  match cursor.next? with
  | some (c, next) => if accepts c then some (c, next) else none
  | none => none

/-- Exactly this text. -/
def exactly (text : String) : Scan Unit :=
  text.toList.forM fun c => discard (char (· = c))

/-- Whether the text is at its end. -/
def atEnd : Scan Bool := fun cursor =>
  some (cursor.rest.isEmpty, cursor)

/-- The end of the text. -/
def finish : Scan Unit := do
  if !(← atEnd) then failure

/-- Repeats a scan until it fails, but not more than `fuel` times. -/
def repeatUpTo {α : Type} (scan : Scan α) : (fuel : Nat) → (done : List α) → Scan (List α)
  | 0, done => return done.reverse
  | fuel + 1, done => fun cursor =>
    match scan cursor with
    | some (a, next) => repeatUpTo scan fuel (a :: done) next
    | none => some (done.reverse, cursor)

/-- Repeats a scan that reads at least one character until it fails. -/
def repeated {α : Type} (scan : Scan α) : Scan (List α) := fun cursor =>
  repeatUpTo scan cursor.left [] cursor

/-- One or more repetitions. -/
def repeated₁ {α : Type} (scan : Scan α) : Scan (List α) := do
  let first ← scan
  return first :: (← repeated scan)

/-- Any number of repetitions with a mark between each two. -/
def separated {α : Type} (mark : String) (scan : Scan α) : Scan (List α) :=
  (do
    let first ← scan
    return first :: (← repeated (exactly mark *> scan)))
  <|> return []

/-- The text that a scan passes over. -/
def written {α : Type} (scan : Scan α) : Scan String := do
  let before ← get
  discard scan
  return String.ofList (before.rest.take (before.left - (← get).left))

end Scan

end ResourceAssembler.Toml
