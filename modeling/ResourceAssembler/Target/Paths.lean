import ResourceAssembler.Host.Basic
import ResourceAssembler.Notice
import ResourceAssembler.Paths.Text
import ResourceAssembler.Target.Error

/-!
# The paths of a build

Where a build writes its artifact, where its sources lie and where its scenarios are. Roots are kept
as text without a slash at the end, so the top directory is kept as the empty text, from which
`root ++ "/" ++ name` still leads to a name at the top.
-/

namespace ResourceAssembler

/-- The locations of one build. -/
structure TargetPaths where
  destinationRoot : String := "."
  destinationFile : String := "result"
  /-- The destination root was missing and has to be created before the artifact is written. -/
  createDestination : Bool := false
  sourceRoot : String := "."
  scenarioRoot : String := "."
deriving DecidableEq, Repr

namespace TargetPaths

/-- The file name of an artifact whose destination names a directory only. -/
def defaultFile : String := "result"

/-- The manifest of a scenario, inside the scenario's directory. -/
def scenarioManifestFile : String := "manifest.kdl"

/-- The ending of a listing's file name. -/
def listingEnding : String := ".kdl"

/-- The directory to ask for, given a destination's part up to its last slash. -/
def rootToProbe (root : String) : String :=
  let trimmed := Paths.trimEnd root
  if trimmed.isEmpty && !root.isEmpty then "/" else trimmed

/-- The paths about which `setDestination` asks. -/
def destinationProbes (path : String) : List String :=
  [path, rootToProbe (Paths.splitLast path).1]

/-- Takes a destination apart. Of a file that exists the last piece is the file name. A directory
that exists is the root. Of any other path the last piece is the file name to be, and the part
before it is to be created if it is no directory. -/
def setDestination (paths : TargetPaths) (look : Look) (path : String) : TargetPaths :=
  let (root, file) := Paths.splitLast path
  match look path with
  | .file =>
    { paths with
      destinationRoot := Paths.trimEnd root, destinationFile := file, createDestination := false }
  | .dir =>
    { paths with
      destinationRoot := Paths.trimEnd path, destinationFile := defaultFile
      createDestination := false }
  | .absent =>
    { paths with
      destinationRoot := Paths.trimEnd root
      destinationFile := if file.isEmpty then defaultFile else file
      createDestination := look (rootToProbe root) ≠ .dir }

/-- The notice of a destination. -/
def destinationNotice (paths : TargetPaths) : Notice :=
  .destinationChosen paths.destinationRoot paths.destinationFile paths.createDestination

def setScenarioRoot (paths : TargetPaths) (path : String) : TargetPaths :=
  { paths with scenarioRoot := Paths.trimEnd path }

/-- Sets the directory that sources are taken from. A path that ends as a listing's does stands for
the directory of the listing. -/
def setSourceRoot (paths : TargetPaths) (path : String) : TargetPaths :=
  let root := if Paths.endsWith path listingEnding then (Paths.splitLast path).1 else path
  { paths with sourceRoot := Paths.trimEnd root }

/-- The macro that stands for the source root. -/
def sourceMacro : String := "@rpath"

/-- Macros that have no meaning yet. -/
def reservedMacros : List String := ["@spath", "@opath"]

/-- A reference to a source file, with the source root in the place of its macro. -/
def expandReference (paths : TargetPaths) (reference : String) : String :=
  if Paths.startsWith reference sourceMacro then
    paths.sourceRoot ++ String.ofList (reference.toList.drop sourceMacro.length)
  else reference

/-- What is to be reported about a reference. -/
def referenceNotices (paths : TargetPaths) (reference : String) : List Notice :=
  if Paths.startsWith reference sourceMacro then
    [.referenceExpanded reference (paths.expandReference reference)]
  else
    (reservedMacros.filter (Paths.startsWith reference ·)).map (.macroUnsupported · reference)

/-- The file that a reference names. What is still relative is taken from the source root. -/
def sourceFile (paths : TargetPaths) (reference : String) : String :=
  let path := paths.expandReference reference
  if Paths.isAbsolute path then path else Paths.join paths.sourceRoot path

/-- The directory of a scenario. -/
def scenarioDir (paths : TargetPaths) (home : Option String) (name : String) : String :=
  Paths.expandTilde home paths.scenarioRoot ++ "/" ++ name

/-- The manifest of a scenario, whether or not it exists. -/
def scenarioFile (paths : TargetPaths) (home : Option String) (name : String) : String :=
  Paths.join (paths.scenarioDir home name) scenarioManifestFile

/-- The paths about which `scenarioManifest` asks. -/
def scenarioProbes (paths : TargetPaths) (home : Option String) (name : String) : List String :=
  [paths.scenarioDir home name, paths.scenarioFile home name]

/-- Finds the manifest of a scenario under the scenario root. -/
def scenarioManifest (paths : TargetPaths) (home : Option String) (look : Look) (name : String) :
    Except TargetError String :=
  if look (paths.scenarioDir home name) ≠ .dir then
    .error (.scenarioNotFound name (paths.scenarioDir home name))
  else if look (paths.scenarioFile home name) = .absent then
    .error (.missingManifest name (paths.scenarioFile home name))
  else .ok (paths.scenarioFile home name)

variable {m : Type → Type} [Monad m] [Host m]

/-- Sets the destination after asking the host about it. -/
def resolveDestination (paths : TargetPaths) (path : String) : m TargetPaths := do
  let look ← Host.look (destinationProbes path)
  return paths.setDestination look path

/-- Finds the manifest of a scenario on the host. -/
def locateScenario (paths : TargetPaths) (home : Option String) (name : String) :
    m (Except TargetError String) := do
  let look ← Host.look (paths.scenarioProbes home name)
  return paths.scenarioManifest home look name

end TargetPaths

/-- The path of an artifact: root, file name and the ending of its format. -/
def artifactPath (root file : String) (format : Format) : String :=
  (if Paths.endsWithSlash root then root else root ++ "/") ++ file ++ "." ++ format.extension

end ResourceAssembler
