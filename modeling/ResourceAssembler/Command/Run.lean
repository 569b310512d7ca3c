import ResourceAssembler.Command.Build
import ResourceAssembler.Command.Init
import ResourceAssembler.Command.Line
import ResourceAssembler.Command.Plain

/-!
# Running command lines

`CommandLine.run` does what a command line asks for. Its outcome is what goes to the two
output streams and the exit code.
-/

namespace ResourceAssembler

/-- What a run leaves behind. -/
structure Outcome where
  output : String
  errors : String
  exitCode : UInt8
deriving DecidableEq

/-- What shows of a notice: its level and its message, with a newline behind it. A message of
several lines is moved in from its second line on. -/
def Notice.entry (notice : Notice) : String :=
  plainText (s!"[{notice.level.name}] {indented notice.message}" ++ "\n")

namespace CommandLine

/-- The name and the version of the program. -/
def versionLine : String := "kdl 0.1.0"

/-- How the program is used. -/
def usage : String :=
  "\n".intercalate [
    "Usage: kdl [-v] <COMMAND>",
    "",
    "  init NAME",
    "  build [INPUT] [-o PATH] [-f FORMAT] [--scenarios DIR] [--scenario NAME]",
    "  target [INPUT] [-o PATH] [-f FORMAT] [--scenarios DIR] [--json]",
    "  scenario NAME [--scenarios DIR]"]

/-- The least level of the notices that a run shows. -/
def threshold (line : CommandLine) : Level :=
  if line.verbose then .debug else .warn

variable {m : Type → Type} [Monad m] [Host m]

/-- The work that a request asks for. -/
def command (place : Surroundings) : Request → Command m Unit
  | .init name => Command.init name
  | .build options => do
    let settings ← Command.settings place options
    discard (Command.build place settings)
  | .target options asJson => do
    let settings ← Command.settings place options
    discard (Command.describe settings asJson)
  | .scenario name scenarios => do
    let root ← Command.scenarioRoot place scenarios
    discard (Command.scenario place root name)

/-- The outcome of a finished command. -/
def outcome (line : CommandLine) (result : Except Failure Unit) (transcript : Transcript) :
    Outcome :=
  let shown :=
    transcript.journal.toList.filter fun notice => line.threshold.rank ≤ notice.level.rank
  let notices := String.join (shown.map (·.entry))
  match result with
  | .ok () => { output := transcript.output, errors := notices, exitCode := 0 }
  | .error failure =>
    { output := transcript.output
      errors := notices ++ s!"error: {failure.message}" ++ "\n"
      exitCode := 1 }

/-- Does what the arguments of a command line ask for. -/
def run (place : Surroundings) (arguments : List String) : m Outcome := do
  match parse arguments with
  | .error .help => return { output := usage ++ "\n", errors := "", exitCode := 0 }
  | .error .version => return { output := versionLine ++ "\n", errors := "", exitCode := 0 }
  | .error .misuse => return { output := "", errors := usage ++ "\n", exitCode := 2 }
  | .ok line =>
    let (result, transcript) ← (command place line.request : Command m Unit).execute
    return line.outcome result transcript

end CommandLine

end ResourceAssembler
