/-!
# Paths as text

A path is a text whose pieces stand between slashes. Empty pieces and the piece "." name nothing, so
what a path denotes is given by its leading slash and its remaining pieces, its segments.
-/

namespace ResourceAssembler.Paths

/-- The pieces between slashes, empty ones included. -/
def splitPieces : List Char → List (List Char)
  | [] => [[]]
  | '/' :: rest => [] :: splitPieces rest
  | c :: rest =>
    match splitPieces rest with
    | piece :: pieces => (c :: piece) :: pieces
    | [] => [[c]]

/-- A piece that names nothing. -/
def isIdle (piece : List Char) : Bool :=
  piece = [] || piece = ['.']

/-- The pieces that name something, in order. -/
def segments (path : String) : List String :=
  ((splitPieces path.toList).filter (!isIdle ·)).map String.ofList

def isAbsolute (path : String) : Bool :=
  path.toList.head? = some '/'

def startsWith (text start : String) : Bool :=
  start.toList.isPrefixOf text.toList

def endsWith (text ending : String) : Bool :=
  ending.toList.isSuffixOf text.toList

def endsWithSlash (path : String) : Bool :=
  path.toList.getLast? = some '/'

/-- What a path denotes: whether it starts at the top, and its segments. -/
structure Denoted where
  absolute : Bool
  segments : List String
deriving DecidableEq, Repr

def denoted (path : String) : Denoted :=
  ⟨isAbsolute path, segments path⟩

/-- A path taken from a base directory. An absolute path stands for itself. -/
def join (base path : String) : String :=
  if isAbsolute path then path
  else if base.isEmpty || endsWithSlash base then base ++ path
  else base ++ "/" ++ path

/-- A path without the slashes at its end. -/
def trimEnd (path : String) : String :=
  String.ofList (path.toList.reverse.dropWhile (· = '/')).reverse

/-- The path cut after its last slash. A path without a slash lies in ".". -/
def splitLast (path : String) : String × String :=
  let reversed := path.toList.reverse
  let file := reversed.takeWhile (· ≠ '/')
  let root := reversed.dropWhile (· ≠ '/')
  (if root.isEmpty then "." else String.ofList root.reverse, String.ofList file.reverse)

/-- The part of a path that no parent goes beyond: a leading slash, or a leading ".". -/
def anchor (path : String) : List Char :=
  match path.toList with
  | '/' :: _ => ['/']
  | ['.'] => ['.']
  | '.' :: '/' :: _ => ['.']
  | _ => []

/-- Pieces, the last one first, as text after an anchor. Idle pieces at the end are left out. -/
def ofReversed (anchor : List Char) (pieces : List (List Char)) : String :=
  String.ofList (anchor ++ ['/'].intercalate (pieces.dropWhile isIdle).reverse)

/-- The directories above the last of the pieces, the nearest first. -/
def climb (anchor : List Char) : List (List Char) → List String
  | [] => []
  | piece :: rest =>
    if isIdle piece then climb anchor rest else ofReversed anchor rest :: climb anchor rest

/-- The path and the directories above it, up to the top or, for a relative path, to the empty
path. -/
def ancestors (path : String) : List String :=
  let anchor := anchor path
  let pieces := splitPieces (path.toList.drop anchor.length)
  path :: climb anchor pieces.reverse ++ if anchor = ['.'] then [""] else []

/-- The directory above a path. -/
def parent? (path : String) : Option String :=
  (ancestors path)[1]?

/-- A path whose leading "~" stands for the home directory. Only "~" itself and paths that
start with "~/" are changed. -/
def expandTilde (home : Option String) (path : String) : String :=
  match path.toList, home with
  | ['~'], some home => home
  | '~' :: '/' :: rest, some home => home ++ String.ofList ('/' :: rest)
  | _, _ => path

end ResourceAssembler.Paths
