import ResourceAssembler.Command.Basic
import ResourceAssembler.Json.Form
import ResourceAssembler.Json.Printer
import ResourceAssembler.Listing.Assemble
import ResourceAssembler.Settings

/-!
# Building an artifact

`build` assembles a scenario, if one is asked for, and then the input, and writes the artifact.
`describe` says where the same settings would write it.
-/

namespace ResourceAssembler

/-- Where a command runs. -/
structure Surroundings where
  /-- The home directory, if there is one. -/
  home : Option String
  workingDir : String
deriving DecidableEq, Repr

/-- What a build produced. -/
structure BuildReport where
  artifact : String
  types : Nat
  resources : Nat
deriving DecidableEq, Repr

/-- Where the artifact of a build goes. -/
structure TargetDescription where
  artifact : String
  format : Format
  paths : TargetPaths
deriving DecidableEq, Repr

def TargetPaths.toJson (paths : TargetPaths) : Json :=
  .object [("destination_root", .text paths.destinationRoot),
    ("destination_file", .text paths.destinationFile),
    ("create_destination", .bool paths.createDestination),
    ("source_root", .text paths.sourceRoot),
    ("scenario_root", .text paths.scenarioRoot)]

def TargetDescription.toJson (description : TargetDescription) : Json :=
  .object [("artifact", .text description.artifact), ("format", description.format.toJson),
    ("paths", description.paths.toJson)]

namespace Command

variable {m : Type → Type} [Monad m] [Host m]

/-- Finds the manifest for the working directory, if there is one, and the project directory.
Without a manifest the working directory counts as the project directory. -/
def project (place : Surroundings) : Command m (Option Manifest × String) := do
  let found ← settle (← Manifest.find (m := m) place.workingDir)
  return match found with
    | some (manifest, dir) => (some manifest, dir)
    | none => (none, place.workingDir)

/-- Settles what a build does when it is started with the given options. -/
def settings (place : Surroundings) (options : BuildOptions) : Command m BuildSettings := do
  let (manifest, dir) ← project place
  settle (BuildSettings.resolve place.home options manifest dir)

/-- Settles the paths of a build. -/
def paths (settings : BuildSettings) : Command m TargetPaths := do
  let (paths, notices) ← settings.targetPaths (m := m)
  report notices
  return paths

/-- Works on a build target, whose notices go to the transcript even if the work fails. -/
def onTarget {α : Type} (target : BuildTarget)
    (work : BuildTarget → m (Except Failure α × BuildTarget)) : Command m (α × BuildTarget) := do
  let (result, target) ← (work target : m _)
  report target.journal.toList
  return (← settle result, { target with journal := #[] })

/-- Finds the manifest of a scenario. -/
def scenarioManifest (place : Surroundings) (paths : TargetPaths) (name : String) :
    Command m String := do
  let found ← (paths.locateScenario place.home name : m _)
  let manifest ← settle (Cause.raise .target found)
  report [.scenarioFound name manifest]
  return manifest

/-- Assembles the scenario of a build, if it has one. -/
def assembleScenario (place : Surroundings) (settings : BuildSettings) (target : BuildTarget) :
    Command m (AssemblySummary × BuildTarget) := do
  match settings.scenario with
  | none => return ({}, target)
  | some name =>
    let manifest ← scenarioManifest place target.paths name
    onTarget target fun target => do
      let (result, target) ← target.assemble manifest
      return (Failure.inContext s!"assembling scenario '{name}'" result, target)

/-- Writes the artifact and gives its path. -/
def save (target : BuildTarget) : Command m String := do
  let (artifact, _) ← onTarget target fun target => do
    let (target, result) ← target.save ResourceFile.writeToHost
    return (Cause.raise .target result, target)
  return artifact

/-- Builds the artifact. -/
def build (place : Surroundings) (settings : BuildSettings) : Command m BuildReport := do
  let look ← (Host.look [settings.input] : m _)
  if look settings.input ≠ .file then refuse s!"input file not found: {settings.input}"
  let paths ← paths settings
  let target : BuildTarget := { paths, format := settings.format }
  let (first, target) ← assembleScenario place settings target
  let (second, target) ← onTarget target (·.assemble settings.input)
  let summary := first.add second
  let artifact ← save target
  print (s!"Wrote {summary.resources} resources ({summary.types} types, {settings.format}) to " ++
    artifact)
  return { artifact, types := summary.types, resources := summary.resources }

/-- Says where a build with these settings would write its artifact, in words or as JSON. -/
def describe (settings : BuildSettings) (asJson : Bool) : Command m TargetDescription := do
  let paths ← paths settings
  let artifact := settings.artifact paths
  let description := { artifact, format := settings.format, paths }
  if asJson then print (description.toJson.render 0)
  else
    print artifact
    if paths.createDestination then
      print s!"  (directory {paths.destinationRoot} will be created)"
  return description

/-- The root of scenarios that is meant without further options: the one given, else that of the
manifest, else the working directory. -/
def scenarioRoot (place : Surroundings) (root : Option String) : Command m String := do
  let (manifest, dir) ← project place
  let default := (manifest.bind (·.build.scenarios)).map (projectRelative place.home dir)
  return (root.or default).getD "."

/-- Prints the manifest of a scenario under a root. -/
def scenario (place : Surroundings) (root name : String) : Command m String := do
  let manifest ← scenarioManifest place (({} : TargetPaths).setScenarioRoot root) name
  print manifest
  return manifest

end Command

end ResourceAssembler
