import ResourceAssembler.Failure
import ResourceAssembler.Host.Basic
import ResourceAssembler.Paths.Text
import ResourceAssembler.Toml.Document

/-!
# Project manifests

A project directory holds a manifest, which names the project and sets what a build takes when it is
not told otherwise. The manifest for a directory is the nearest one upwards.
-/

namespace ResourceAssembler

/-- The name of a project and what it is about. -/
structure ProjectInfo where
  name : String
  description : Option String := none
deriving DecidableEq, Repr

/-- What is asked of a build, on the command line or in a manifest. -/
structure BuildOptions where
  input : Option String := none
  output : Option String := none
  format : Option Format := none
  scenarios : Option String := none
  scenario : Option String := none
deriving DecidableEq, Repr

/-- The content of a manifest. -/
structure Manifest where
  project : ProjectInfo
  build : BuildOptions := {}
deriving DecidableEq, Repr

/-- A format by its name, or as a table whose only key is the name and holds nothing. -/
def Format.ofToml? : Toml.Value → Option Format
  | .text name _ => ofName? name
  | .table _ [(name, content)] => ofEntry? name content
  | _ => none
where
  /-- The format named by a key that holds nothing. -/
  ofEntry? (name : String) (content : Toml.Value) : Option Format :=
    let isEmpty := content.entries?.any (·.isEmpty) || content.items?.any (·.isEmpty)
    if isEmpty then ofName? name else none

namespace Manifest

/-- The file name of a manifest. -/
def fileName : String := "kdl.toml"

def projectOfToml? (value : Toml.Value) : Option ProjectInfo := do
  match ← value.fields? ["name", "description"] with
  | [some name, description] =>
    return {
      name := ← name.string?
      description := ← Toml.optional? Toml.Value.string? description }
  | _ => none

def buildOfToml? (value : Toml.Value) : Option BuildOptions := do
  match ← value.fields? ["input", "output", "format", "scenarios", "scenario"] with
  | [input, output, format, scenarios, scenario] =>
    return {
      input := ← Toml.optional? Toml.Value.string? input
      output := ← Toml.optional? Toml.Value.string? output
      format := ← Toml.optional? Format.ofToml? format
      scenarios := ← Toml.optional? Toml.Value.string? scenarios
      scenario := ← Toml.optional? Toml.Value.string? scenario }
  | _ => none

/-- The manifest that a document states. The project's name is required. -/
def ofToml? (entries : Toml.Entries) : Option Manifest := do
  let project ← projectOfToml? (← entries.get? "project")
  let build ← Toml.optional? buildOfToml? (entries.get? "build")
  return { project, build := build.getD {} }

/-- Reads a manifest. -/
def parse? (text : String) : Option Manifest :=
  (Toml.parse? text).bind ofToml?

/-- The manifest of a new project. -/
def template (name : String) : String :=
  s!"[project]\nname = \"{name}\"\n\n[build]\ninput = \"src/main.kdl\"\noutput = \"out/{name}\"\n" ++
    "format = \"classic\"\n"

/-- The manifest in a file. -/
def load (read : Read) (path : String) : Except Failure Manifest := do
  let text ← Failure.inContext s!"reading {path}" (Cause.raise .host (read.text path))
  match parse? text with
  | some manifest => return manifest
  | none => Failure.inContext s!"parsing {path}" (throw { cause := .toml })

/-- The manifest of a directory, whether or not it exists. -/
def pathIn (dir : String) : String :=
  Paths.join dir fileName

/-- The directories that may hold the manifest for a directory, the nearest first. -/
def candidates (start : String) : List String :=
  Paths.ancestors start

/-- The nearest directory upwards that holds a manifest. -/
def locate? (look : Look) (start : String) : Option String :=
  (candidates start).find? fun dir => look (pathIn dir) = .file

/-- Finds the nearest manifest upwards and reads it. Gives it with the directory that holds it. -/
def find {m : Type → Type} [Monad m] [Host m] (start : String) :
    m (Except Failure (Option (Manifest × String))) := do
  let look ← Host.look ((candidates start).map pathIn)
  match locate? look start with
  | none => return .ok none
  | some dir =>
    let read ← Host.read [pathIn dir]
    return (load read (pathIn dir)).map fun manifest => some (manifest, dir)

end Manifest

end ResourceAssembler
