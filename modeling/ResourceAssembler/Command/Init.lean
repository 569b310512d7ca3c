import ResourceAssembler.Command.Basic
import ResourceAssembler.Manifest

/-!
# Creating projects

A new project has a manifest, a listing with one resource and a directory for artifacts.
-/

namespace ResourceAssembler

/-- The listing of a new project. -/
def sampleListing : String :=
  "\n".intercalate [
    "[[type]]",
    "name = \"Greeting\"",
    "code = \"STR \"",
    "fields = [\x7b name = \"text\", kind = \"pstring\" \x7d]",
    "",
    "[[resource]]",
    "type = \"Greeting\"",
    "id = 128",
    "name = \"Hello\"",
    "values = \x7b text = \"Hello, world\" \x7d",
    ""]

namespace Command

variable {m : Type → Type} [Monad m] [Host m]

/-- Creates a directory and the directories above it. -/
def createDir (context path : String) : Command m Unit := do
  let done ← (Host.createDirAll path : m _)
  settle (Failure.inContext context (Cause.raise .host done))

/-- Writes a text file. -/
def writeText (context path text : String) : Command m Unit := do
  let done ← (Host.write path text.toUTF8 : m _)
  settle (Failure.inContext context (Cause.raise .host done))

/-- Creates a project in a new directory of its name. -/
def init (name : String) : Command m Unit := do
  let look ← (Host.look [name] : m _)
  if look name ≠ .absent then refuse s!"directory '{name}' already exists"
  let sources := Paths.join name "src"
  createDir "creating src/ directory" sources
  createDir "creating out/ directory" (Paths.join name "out")
  writeText "writing kdl.toml" (Manifest.pathIn name) (Manifest.template name)
  writeText "writing src/main.kdl" (Paths.join sources "main.kdl") sampleListing
  writeText "writing .gitignore" (Paths.join name ".gitignore") "out/\n"
  print s!"Created project '{name}'"
  print s!"  {name}/kdl.toml"
  print s!"  {name}/src/main.kdl"
  print s!"  {name}/out/"

end Command

end ResourceAssembler
