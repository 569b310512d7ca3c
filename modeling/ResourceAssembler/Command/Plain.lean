/-!
# Plain lines

A text may hold characters that steer a terminal instead of showing something: control characters,
and sequences that an escape character starts. `plainText` leaves what shows on a stream that is no
terminal. A sequence that is not finished when the text ends shows nothing.
-/

namespace ResourceAssembler

/-- A sequence that steers a terminal, and how far it has come. -/
inductive ControlSequence where
  /-- Only the escape character is there. -/
  | started
  /-- A sequence without parameters, up to a character from `0` on. -/
  | short
  /-- A sequence with parameters, up to a character from `@` on. -/
  | parameters
  /-- A command to the terminal itself, up to a bell. -/
  | command
  /-- A string for a device that has just begun. -/
  | device
  /-- The parameters of a string for a device. -/
  | deviceParameters
  /-- Marks behind the parameters of a string for a device, up to a character from `0` on. -/
  | deviceMarks
  /-- A string for a device, up to the byte `9C`. -/
  | deviceString
deriving DecidableEq, Repr

/-- Where in a text a reader is. -/
inductive TextState where
  | shown
  | hidden (sequence : ControlSequence)
  /-- In text that shows, although it stands in a sequence that is not finished. -/
  | interrupted (sequence : ControlSequence)
deriving DecidableEq, Repr

/-- Whether a control character takes room in a text. -/
def isSpacing (c : Char) : Bool :=
  c = '\t' || c = '\n' || c = '\x0c' || c = '\r'

/-- Whether a character shows where no sequence is under way. -/
def isVisible (c : Char) : Bool :=
  (' ' ≤ c && c ≠ '\x7f') || isSpacing c

/-- The byte that ends a string for a device. -/
def stringTerminator : UInt8 := 0x9C

namespace ControlSequence

/-- Whether spacing breaks into the sequence and shows. -/
def yieldsToSpacing : ControlSequence → Bool
  | started | short | parameters => true
  | command | device | deviceParameters | deviceMarks | deviceString => false

/-- What becomes of a sequence with the next character. The characters from `<` to `?` are
parameters of a string for a device only where they stand first. -/
def after (sequence : ControlSequence) (c : Char) : TextState :=
  match sequence with
  | started =>
    if c = '[' then .hidden parameters
    else if c = ']' then .hidden command
    else if c = 'P' then .hidden device
    else if c = 'X' ∨ c = '^' ∨ c = '_' then .hidden deviceString
    else if ' ' ≤ c ∧ c ≤ '/' then .hidden short
    else if '0' ≤ c ∧ c ≤ '~' then .shown
    else .hidden started
  | short => if '0' ≤ c ∧ c ≤ '~' then .shown else .hidden short
  | parameters => if '@' ≤ c ∧ c ≤ '~' then .shown else .hidden parameters
  | command => if c = '\x07' then .shown else .hidden command
  | device =>
    if ' ' ≤ c ∧ c ≤ '/' then .hidden deviceMarks
    else if '0' ≤ c ∧ c ≤ '?' then .hidden deviceParameters
    else if '@' ≤ c ∧ c ≤ '~' then .hidden deviceString
    else .hidden device
  | deviceParameters =>
    if ' ' ≤ c ∧ c ≤ '/' then .hidden deviceMarks
    else if '<' ≤ c ∧ c ≤ '~' then .hidden deviceString
    else .hidden deviceParameters
  | deviceMarks => if '0' ≤ c ∧ c ≤ '~' then .hidden deviceString else .hidden deviceMarks
  | deviceString =>
    if stringTerminator ∈ String.utf8EncodeChar c then .shown else .hidden deviceString

end ControlSequence

namespace TextState

/-- The state behind a character, and whether the character shows. The escape character starts a
sequence anywhere, and the cancelling characters `18` and `1A` end one. -/
def step (state : TextState) (c : Char) : TextState × Bool :=
  if c = '\x1b' then (hidden .started, false)
  else if c = '\x18' ∨ c = '\x1a' then (shown, false)
  else
    match state with
    | shown => (shown, isVisible c)
    | hidden sequence =>
      if isSpacing c ∧ sequence.yieldsToSpacing then (interrupted sequence, true)
      else (sequence.after c, false)
    | interrupted sequence =>
      if isVisible c then (if c ≤ '\x7f' then interrupted sequence else shown, true)
      else (sequence.after c, false)

end TextState

/-- What shows of a text. -/
def plainText (text : String) : String :=
  (text.toList.foldl (fun (state, out) c =>
    let (next, shows) := TextState.step state c
    (next, if shows then out.push c else out)) (TextState.shown, "")).2

/-- A text with every line but the first moved in by four places. -/
def indented (text : String) : String :=
  "\n    ".intercalate (text.splitOn "\n")

end ResourceAssembler
