import ResourceAssembler.Settings

/-!
# The command line

A command line names a command with its options and operands. Options are written `-o value`,
`-ovalue`, `-o=value`, `--output value` or `--output=value`; flags of one letter may stand together
behind one hyphen. An option stands once, its value may start with a hyphen only if it is attached,
and behind `--` everything is an operand.
-/

namespace ResourceAssembler

/-- The options and flags of all commands. -/
inductive Mark where
  | verbose
  | help
  | version
  | output
  | format
  | scenarios
  | scenario
  | json
deriving DecidableEq, Repr

namespace Mark

/-- The name behind two hyphens. -/
def long : Mark → String
  | verbose => "verbose"
  | help => "help"
  | version => "version"
  | output => "output"
  | format => "format"
  | scenarios => "scenarios"
  | scenario => "scenario"
  | json => "json"

/-- The letter behind one hyphen. -/
def short? : Mark → Option Char
  | verbose => some 'v'
  | help => some 'h'
  | version => some 'V'
  | output => some 'o'
  | format => some 'f'
  | _ => none

def takesValue : Mark → Bool
  | output | format | scenarios | scenario => true
  | _ => false

end Mark

/-- The commands by name. -/
inductive CommandName where
  | init
  | build
  | target
  | scenario
deriving DecidableEq, Repr

namespace CommandName

def ofName? : String → Option CommandName
  | "init" => some init
  | "build" => some build
  | "target" => some target
  | "scenario" => some scenario
  | _ => none

/-- The options that a command knows. -/
def marks : CommandName → List Mark
  | init => [.verbose, .help]
  | build => [.verbose, .help, .output, .format, .scenarios, .scenario]
  | target => [.verbose, .help, .output, .format, .scenarios, .json]
  | scenario => [.verbose, .help, .scenarios]

end CommandName

/-- What a command line asks for. -/
inductive Request where
  | init (name : String)
  | build (options : BuildOptions)
  | target (options : BuildOptions) (json : Bool)
  | scenario (name : String) (scenarios : Option String)
deriving DecidableEq, Repr

/-- A command line that asks for work. -/
structure CommandLine where
  verbose : Bool
  request : Request
deriving DecidableEq, Repr

/-- Why a command line asks for no work. -/
inductive Diversion where
  | help
  | version
  /-- It cannot be understood. -/
  | misuse
deriving DecidableEq, Repr

/-- A command line as far as it is read. -/
structure Reading where
  /-- The command, once it is named. -/
  command : Option CommandName := none
  verbose : Bool := false
  /-- The options and flags that the current command may not be given again. -/
  given : List Mark := []
  /-- The option whose value comes next. -/
  pending : Option Mark := none
  /-- Whether everything that follows is an operand. -/
  escaped : Bool := false
  format : Option Format := none
  values : List (Mark × String) := []
  operands : List String := []
deriving Repr

namespace Reading

/-- The options that may be given now. -/
def marks (reading : Reading) : List Mark :=
  match reading.command with
  | none => [.verbose, .help, .version]
  | some command => command.marks

/-- Notes that an option or flag is given. Help and version end the reading. -/
def give (reading : Reading) (mark : Mark) : Except Diversion Reading :=
  match mark with
  | .help => throw .help
  | .version => throw .version
  | _ =>
    if mark ∈ reading.given then throw .misuse
    else
      return { reading with
        given := mark :: reading.given
        verbose := reading.verbose || mark = .verbose }

/-- Takes the value of an option. -/
def takeValue (reading : Reading) (mark : Mark) (value : String) : Except Diversion Reading := do
  let reading ← reading.give mark
  if mark = .format then
    match Format.ofString? value with
    | some format => return { reading with format := some format }
    | none => throw .misuse
  return { reading with values := (mark, value) :: reading.values }

/-- Reads an argument behind two hyphens: a name, and perhaps an attached value. -/
def readLong (reading : Reading) (argument : List Char) : Except Diversion Reading :=
  let name := String.ofList (argument.takeWhile (· ≠ '='))
  match reading.marks.find? (·.long = name), argument.dropWhile (· ≠ '=') with
  | none, _ => throw .misuse
  | some mark, [] =>
    if mark.takesValue then return { reading with pending := some mark } else reading.give mark
  | some mark, _ :: value =>
    if mark.takesValue then reading.takeValue mark (String.ofList value) else throw .misuse

/-- Reads the letters of an argument behind one hyphen. What follows the letter of an option is its
value, with or without a sign of equality. -/
def readShort (reading : Reading) : List Char → Except Diversion Reading
  | [] => return reading
  | letter :: rest => do
    match reading.marks.find? (·.short? = some letter) with
    | none => throw .misuse
    | some mark =>
      if mark.takesValue then
        match rest with
        | [] => return { reading with pending := some mark }
        | '=' :: value => reading.takeValue mark (String.ofList value)
        | _ => reading.takeValue mark (String.ofList rest)
      else (← reading.give mark).readShort rest

/-- Reads a word: the name of the command, or an operand of it. No command has a second operand. -/
def readWord (reading : Reading) (word : String) : Except Diversion Reading :=
  match reading.command with
  | none =>
    match CommandName.ofName? word with
    | some command => return { reading with command := some command, given := [] }
    | none => throw .misuse
  | some _ =>
    if reading.operands.isEmpty then return { reading with operands := [word] } else throw .misuse

/-- Reads one argument. -/
def read (reading : Reading) (argument : String) : Except Diversion Reading :=
  match reading.escaped, reading.pending, argument.toList with
  | true, _, _ => if reading.command.isNone then throw .misuse else reading.readWord argument
  | _, some _, '-' :: _ :: _ => throw .misuse
  | _, some mark, _ => { reading with pending := none }.takeValue mark argument
  | _, none, ['-', '-'] => return { reading with escaped := true }
  | _, none, '-' :: '-' :: rest => reading.readLong rest
  | _, none, '-' :: letter :: rest => reading.readShort (letter :: rest)
  | _, none, _ => reading.readWord argument

/-- The value of an option. -/
def value? (reading : Reading) (mark : Mark) : Option String :=
  reading.values.lookup mark

/-- The options of a build. -/
def buildOptions (reading : Reading) : BuildOptions where
  input := reading.operands.head?
  output := reading.value? .output
  format := reading.format
  scenarios := reading.value? .scenarios
  scenario := reading.value? .scenario

/-- What a completely read command line asks for. -/
def request (reading : Reading) : Except Diversion Request :=
  match reading.pending, reading.command, reading.operands with
  | some _, _, _ => throw .misuse
  | _, some .init, [name] => return .init name
  | _, some .build, _ => return .build reading.buildOptions
  | _, some .target, _ => return .target reading.buildOptions (.json ∈ reading.given)
  | _, some .scenario, [name] => return .scenario name (reading.value? .scenarios)
  | _, _, _ => throw .misuse

end Reading

/-- Asks for help on a command, or on all of them. -/
def helpOn (names : List String) : Diversion :=
  match names with
  | [] => .help
  | [name] => if name = "help" || (CommandName.ofName? name).isSome then .help else .misuse
  | _ => .misuse

namespace CommandLine

/-- Reads arguments up to the end, or up to a request for help on commands. -/
def readAll (reading : Reading) : List String → Except Diversion Reading
  | [] => return reading
  | argument :: rest => do
    if argument = "help" && reading.command.isNone && !reading.escaped then throw (helpOn rest)
    readAll (← reading.read argument) rest

/-- What the arguments of a command line ask for. -/
def parse (arguments : List String) : Except Diversion CommandLine := do
  let reading ← readAll {} arguments
  return { verbose := reading.verbose, request := ← reading.request }

end CommandLine

end ResourceAssembler
