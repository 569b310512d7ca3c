import ResourceAssembler.Host.Basic
import ResourceAssembler.Paths.Text

/-!
# Sketches of a file system

A sketch knows which paths are directories and which are files, and nothing else. Two paths are the
same if they denote the same, so ".." is a segment like any other and a directory need not have a
parent.
-/

namespace ResourceAssembler

/-- The directories and files of a sketch, the fault that creating a directory meets if any, and the
paths of the directories asked for, the latest first. -/
structure Sketch where
  dirs : List Paths.Denoted := []
  files : List Paths.Denoted := []
  createFault : Option HostFault := none
  requests : List String := []
deriving DecidableEq

namespace Sketch

/-- The top and the working directory, which always exist. -/
def fixedDirs : List Paths.Denoted :=
  [⟨true, []⟩, ⟨false, []⟩]

/-- What a path denotes. The empty path denotes nothing. -/
def key? (path : String) : Option Paths.Denoted :=
  if path.isEmpty then none else some (Paths.denoted path)

/-- The sketch with these directories and files. -/
def ofPaths (dirs files : List String) (createFault : Option HostFault) : Sketch :=
  { dirs := dirs.filterMap key?, files := files.filterMap key?, createFault }

/-- What a path leads to. A file is not found under a path that ends in a slash. -/
def look (sketch : Sketch) : Look := fun path =>
  match key? path with
  | none => .absent
  | some key =>
    if key ∈ fixedDirs ++ sketch.dirs then .dir
    else if key ∈ sketch.files && !Paths.endsWithSlash path then .file
    else .absent

/-- Notes the request, then adds the one directory unless a fault is set. -/
def createDirAll (sketch : Sketch) (path : String) : Except HostFault Unit × Sketch :=
  let sketch := { sketch with requests := path :: sketch.requests }
  match sketch.createFault with
  | some fault => (.error fault, sketch)
  | none => (.ok (), { sketch with dirs := sketch.dirs ++ (key? path).toList })

/-- Adds the file. -/
def write (sketch : Sketch) (path : String) : Sketch :=
  { sketch with files := sketch.files ++ (key? path).toList }

instance : Host (StateM Sketch) where
  look _ := fun sketch => (sketch.look, sketch)
  read _ := fun sketch => (fun _ => .error .notFound, sketch)
  createDirAll path := fun sketch => sketch.createDirAll path
  write path _ := fun sketch => (.ok (), sketch.write path)

end Sketch

end ResourceAssembler
