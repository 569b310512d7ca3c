import ResourceAssembler.Manifest
import ResourceAssembler.Target.Paths

/-!
# Build settings

What a build does is settled by its options, then by the manifest of its project, then by the
defaults of a build target. A path in a manifest is taken from the project directory, a path among
the options as it stands; in both "~" stands for the home directory.
-/

namespace ResourceAssembler

/-- The settings of one build. -/
structure BuildSettings where
  input : String
  output : Option String := none
  format : Format := .classic
  scenarios : Option String := none
  scenario : Option String := none
deriving DecidableEq, Repr

/-- A path as a manifest in the given directory means it. -/
def projectRelative (home : Option String) (projectDir path : String) : String :=
  if Paths.startsWith path "~" then Paths.expandTilde home path
  else if Paths.isAbsolute path then path
  else Paths.join projectDir path

namespace BuildSettings

/-- Lays options over the manifest of a project directory. -/
def resolve (home : Option String) (options : BuildOptions) (manifest : Option Manifest)
    (projectDir : String) : Except Failure BuildSettings :=
  let build := (manifest.map (·.build)).getD {}
  let path (option default : Option String) : Option String :=
    (option.map (Paths.expandTilde home)).or (default.map (projectRelative home projectDir))
  match path options.input build.input with
  | none => throw { cause := .plain "no input file given and no [build] input in kdl.toml" }
  | some input =>
    return {
      input
      output := path options.output build.output
      format := (options.format.or build.format).getD .classic
      scenarios := path options.scenarios build.scenarios
      scenario := options.scenario.or build.scenario }

/-- The text that stands for the input's directory. A listing stands for its own. -/
def sourcePath (settings : BuildSettings) : String :=
  if Paths.endsWith settings.input TargetPaths.listingEnding then settings.input
  else
    match Paths.parent? settings.input with
    | some parent => if parent.isEmpty then "." else parent
    | none => "."

/-- Settles the paths of a build, and says what is to be reported about them. -/
def targetPaths {m : Type → Type} [Monad m] [Host m] (settings : BuildSettings) :
    m (TargetPaths × List Notice) := do
  let paths := ({} : TargetPaths).setSourceRoot settings.sourcePath
  let (paths, notices) ← match settings.output with
    | some output => do
      let paths ← paths.resolveDestination output
      pure (paths, [paths.destinationNotice])
    | none => pure (paths, [])
  let paths := match settings.scenarios with
    | some root => paths.setScenarioRoot root
    | none => paths
  return (paths, notices)

/-- Where a build with these settings and paths writes its artifact. -/
def artifact (settings : BuildSettings) (paths : TargetPaths) : String :=
  artifactPath paths.destinationRoot paths.destinationFile settings.format

end BuildSettings

end ResourceAssembler
