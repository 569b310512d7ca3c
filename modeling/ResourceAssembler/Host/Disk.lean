import ResourceAssembler.Host.Basic
import ResourceAssembler.Paths.Text

/-!
# Disks

A disk is a tree of directories and files together with a working directory. A place is the list of
names that leads to it from the top. Paths are walked name by name, and ".." leads from an existing
directory to the one above.
-/

namespace ResourceAssembler

/-- What stands at a place. -/
inductive Disk.Entry where
  | dir
  | file (content : ByteArray)

/-- A tree of directories and files, each under its place, and the place
of the working directory. -/
structure Disk where
  entries : List (List String × Disk.Entry) := []
  workingPlace : List String := []

namespace Disk

/-- The entry at a place. The top is always a directory. -/
def find? (disk : Disk) (place : List String) : Option Entry :=
  if place = [] then some .dir
  else (disk.entries.find? (·.1 = place)).map (·.2)

/-- Puts an entry at a place, replacing what stood there. -/
def put (entries : List (List String × Entry)) (place : List String) (entry : Entry) :
    List (List String × Entry) :=
  match entries with
  | [] => [(place, entry)]
  | e :: rest => if e.1 = place then (place, entry) :: rest else e :: put rest place entry

def insert (disk : Disk) (place : List String) (entry : Entry) : Disk :=
  { disk with entries := put disk.entries place entry }

/-- The path of the working directory. -/
def workingPath (disk : Disk) : String :=
  "/" ++ "/".intercalate disk.workingPlace

/-- The longest name, in bytes. -/
def maxName : Nat := 255

/-- The length from which on a path is refused, in bytes. -/
def pathLimit : Nat := 4096

/-- One step from a place, which has to be a directory, along a segment. -/
def step (disk : Disk) (place : List String) (segment : String) :
    Except HostFault (List String) :=
  match disk.find? place with
  | some .dir =>
    if segment = "." then .ok place
    else if segment = ".." then .ok place.dropLast
    else if segment.utf8ByteSize > maxName then .error .nameTooLong
    else .ok (place ++ [segment])
  | some (.file _) => .error .notADirectory
  | none => .error .notFound

/-- Walks along segments, each from a directory. The last place need not exist. -/
def walk (disk : Disk) (place : List String) (segments : List String) :
    Except HostFault (List String) :=
  segments.foldlM disk.step place

/-- Where a path starts, and its pieces without the empty ones. -/
def route (disk : Disk) (path : String) : Except HostFault (List String × List String) :=
  if path.toList.contains '\x00' then .error .zeroInName
  else if path.isEmpty then .error .notFound
  else if path.utf8ByteSize ≥ pathLimit then .error .nameTooLong
  else
    let pieces := ((Paths.splitPieces path.toList).filter (· ≠ [])).map String.ofList
    .ok (if Paths.isAbsolute path then [] else disk.workingPlace, pieces)

/-- The entry that a path leads to. After a slash at the end only a directory is found. -/
def status (disk : Disk) (path : String) : Except HostFault (List String × Entry) := do
  let (start, pieces) ← disk.route path
  let place ← disk.walk start pieces
  match disk.find? place with
  | none => throw .notFound
  | some .dir => return (place, .dir)
  | some (.file content) =>
    if Paths.endsWithSlash path then throw .notADirectory
    return (place, .file content)

/-- What a path leads to. -/
def look (disk : Disk) : Look := fun path =>
  match disk.status path with
  | .ok (_, .dir) => .dir
  | .ok (_, .file _) => .file
  | .error _ => .absent

/-- The content of a file. -/
def read (disk : Disk) : Read := fun path =>
  match disk.status path with
  | .ok (_, .file content) => .ok content
  | .ok (_, .dir) => .error .isADirectory
  | .error fault => .error fault

/-- The place of a new entry, whose directory has to exist. A path whose last name is missing, "."
or ".." leads to a directory that is there already. -/
def newPlace (disk : Disk) (path : String) (occupied : HostFault) :
    Except HostFault (List String) := do
  let (start, pieces) ← disk.route path
  match pieces.getLast? with
  | none => throw occupied
  | some name =>
    let place ← disk.walk start pieces
    if name = "." || name = ".." then throw occupied
    return place

/-- Creates one directory. -/
def makeDir (disk : Disk) (path : String) : Except HostFault Disk := do
  let place ← disk.newPlace path .alreadyExists
  match disk.find? place with
  | some _ => throw .alreadyExists
  | none => return disk.insert place .dir

/-- Creates the first of these directories, after the ones behind it where they are missing. That a
directory exists already is no fault. -/
def makeDirs (disk : Disk) : List String → Except HostFault Unit × Disk
  | [] => (.error (.other "failed to create whole tree"), disk)
  | path :: above =>
    if path.isEmpty then (.ok (), disk)
    else
      match disk.makeDir path with
      | .ok disk => (.ok (), disk)
      | .error .notFound =>
        match disk.makeDirs above with
        | (.error fault, disk) => (.error fault, disk)
        | (.ok (), disk) =>
          match disk.makeDir path with
          | .ok disk => (.ok (), disk)
          | .error fault => (if disk.look path = .dir then .ok () else .error fault, disk)
      | .error fault => (if disk.look path = .dir then .ok () else .error fault, disk)

/-- Creates a directory and the directories above it. -/
def createDirAll (disk : Disk) (path : String) : Except HostFault Unit × Disk :=
  disk.makeDirs (Paths.ancestors path)

/-- Writes a file into an existing directory. -/
def write (disk : Disk) (path : String) (content : ByteArray) : Except HostFault Disk := do
  let place ← disk.newPlace path .isADirectory
  if Paths.endsWithSlash path then throw .isADirectory
  match disk.find? place with
  | some .dir => throw .isADirectory
  | _ => return disk.insert place (.file content)

instance : Host (StateM Disk) where
  look _ := fun disk => (disk.look, disk)
  read _ := fun disk => (disk.read, disk)
  createDirAll path := fun disk => disk.createDirAll path
  write path content := fun disk =>
    match disk.write path content with
    | .ok disk => (.ok (), disk)
    | .error fault => (.error fault, disk)

end Disk

end ResourceAssembler
