import ResourceAssembler.Container.Encode
import ResourceAssembler.Target.Paths

/-!
# Build targets

A build target collects the type definitions and resources of one build and writes them
out. The types keep the order in which they were registered, and a name stands for the
first type registered under it.
-/

namespace ResourceAssembler

/-- The type definitions of a build, in the order of registration. -/
structure Registry where
  types : List TypeDefinition := []
deriving DecidableEq

namespace Registry

def register (registry : Registry) (type : TypeDefinition) : Registry :=
  ⟨registry.types ++ [type]⟩

def count (registry : Registry) : Nat :=
  registry.types.length

def isEmpty (registry : Registry) : Bool :=
  registry.types.isEmpty

/-- The first type of the given name. -/
def find? (registry : Registry) (name : String) : Option TypeDefinition :=
  registry.types.find? (·.name = name)

/-- The first type named by a lexeme. -/
def named (registry : Registry) (name : Lexeme) : Except TargetError TypeDefinition :=
  match registry.find? name.text with
  | some type => .ok type
  | none => .error (.missingType name.text name.location)

end Registry

/-- Where a build target stands. -/
inductive Phase where
  | configuring
  | emitting
  | done
deriving DecidableEq, Repr

/-- A build in progress. The journal holds what was reported, the earliest notice first. -/
structure BuildTarget where
  paths : TargetPaths := {}
  format : Format := .classic
  /-- The artifact's file name, if it is not the destination's. -/
  outputName : Option String := none
  registry : Registry := {}
  file : ResourceFile := {}
  /-- How many resources were added, replaced ones counted too. -/
  forwarded : Nat := 0
  phase : Phase := .configuring
  journal : Array Notice := #[]

/-- Writes a container to a path and says what is to be reported about it. -/
abbrev ContainerWriter (m : Type → Type) :=
  ResourceFile → Format → String → m (Except ContainerError (List Notice))

namespace BuildTarget

def report (target : BuildTarget) (notices : List Notice) : BuildTarget :=
  { target with journal := target.journal ++ notices }

/-- Registers a type definition behind the ones before it. -/
def addType (target : BuildTarget) (type : TypeDefinition) : BuildTarget :=
  { target.report [.typeRegistered type.name type.code] with
    registry := target.registry.register type }

/-- Writes the payload of a record and stores it in the resource file. -/
def addResource (target : BuildTarget) (record : ResourceRecord) : BuildTarget :=
  let data := record.payload
  let notices := .resourceAdded record.code record.id record.name data.size ::
    target.file.replacement record.code record.id
  { target.report notices with
    file := target.file.insert record.code ⟨record.id, record.name, data⟩
    forwarded := target.forwarded + 1 }

def setFormat (target : BuildTarget) (format : Format) : BuildTarget :=
  { target with format }

def setOutputName (target : BuildTarget) (name : String) : BuildTarget :=
  { target with outputName := some name }

/-- The artifact's file name without its ending. -/
def outputFile (target : BuildTarget) : String :=
  target.outputName.getD target.paths.destinationFile

/-- Where `save` writes the artifact. -/
def artifact (target : BuildTarget) : String :=
  artifactPath target.paths.destinationRoot target.outputFile target.format

variable {m : Type → Type} [Monad m] [Host m]

/-- Creates the destination root if that was found to be necessary and it is still missing. -/
def prepareDestination (target : BuildTarget) : m (BuildTarget × Except TargetError Unit) := do
  let root := target.paths.destinationRoot
  if !target.paths.createDestination then return (target, .ok ())
  let look ← Host.look [root]
  if look root = .dir then return (target, .ok ())
  let target := target.report [.destinationCreated root]
  match ← Host.createDirAll root with
  | .ok () => return (target, .ok ())
  | .error fault => return (target, .error (.createDestination root fault))

/-- Hands the resource file to the writer. -/
def emit (writer : ContainerWriter m) (target : BuildTarget) (path : String) :
    m (BuildTarget × Except TargetError Unit) := do
  match ← prepareDestination target with
  | (target, .error e) => return (target, .error e)
  | (target, .ok ()) =>
    match ← writer target.file target.format path with
    | .ok notices => return (target.report notices, .ok ())
    | .error cause => return (target, .error (.write path cause))

/-- Writes the artifact and gives its path. A target that could not be saved is back to
configuring. -/
def save (writer : ContainerWriter m) (target : BuildTarget) :
    m (BuildTarget × Except TargetError String) := do
  let path := target.artifact
  let target := if target.phase = .done then target.report [.savedAgain path] else target
  match ← emit writer { target with phase := .emitting } path with
  | (target, .ok ()) => return ({ target with phase := .done }, .ok path)
  | (target, .error e) => return ({ target with phase := .configuring }, .error e)

end BuildTarget

/-- Writes the container to a file of the host, after it is complete in memory. -/
def ResourceFile.writeToHost {m : Type → Type} [Monad m] [Host m] : ContainerWriter m :=
  fun file format path => do
    match file.encode format with
    | .error e => return .error e
    | .ok bytes =>
      match ← Host.write path bytes with
      | .ok () => return .ok [.containerWritten file.resourceCount bytes.size format path]
      | .error fault => return .error (.host fault)

end ResourceAssembler
