import ResourceAssembler.Failure
import ResourceAssembler.Notice

/-!
# Commands

A command works on a host, prints lines, reports notices and may fail. What it printed and reported
before a failure stays in its transcript.
-/

namespace ResourceAssembler

/-- What a command has printed and reported. -/
structure Transcript where
  output : String := ""
  journal : Array Notice := #[]
deriving DecidableEq

/-- A command on a host. -/
abbrev Command (m : Type → Type) := ExceptT Failure (StateT Transcript m)

namespace Command

variable {m : Type → Type} [Monad m] {α : Type}

/-- Prints a line. -/
def print (line : String) : Command m Unit :=
  modify fun transcript => { transcript with output := transcript.output ++ line ++ "\n" }

def report (notices : List Notice) : Command m Unit :=
  modify fun transcript => { transcript with journal := transcript.journal ++ notices }

/-- Goes on with a result, or fails as it does. -/
def settle (result : Except Failure α) : Command m α :=
  liftExcept result

/-- Fails for a reason that is a text of its own. -/
def refuse (message : String) : Command m α :=
  throw { cause := .plain message }

/-- Runs a command and gives its result and its transcript. -/
def execute (command : Command m α) : m (Except Failure α × Transcript) :=
  command.run.run {}

end Command

end ResourceAssembler
