import ResourceAssembler.Format
import ResourceAssembler.Host.Fault
import ResourceAssembler.TypeCode

/-!
# Why a container cannot be written

Each format has its own range of ids and its own limits for counts, offsets and totals. A message
names the resource or the limit that the file fails at.
-/

namespace ResourceAssembler

/-- The limit of a format that a resource file exceeds. -/
inductive ContainerLimit where
  /-- More entries of a kind than a count can hold. -/
  | entries (kind : String) (count : Nat)
  /-- An offset or a length that needs more bits than its field has. -/
  | bits (field : String) (width : Nat)
  /-- A total that needs more than 32 bits. -/
  | total (value : Nat)
  /-- A file whose header offsets need more than 32 bits. -/
  | fileOffsets
deriving DecidableEq, Repr

def ContainerLimit.message : ContainerLimit → String
  | entries kind count => s!"too many {kind} entries ({count})"
  | bits field width => s!"{field} exceeds {width} bits"
  | total value => s!"{value} exceeds 32 bits"
  | fileOffsets => "file exceeds 32-bit offsets"

/-- Why a container was not written. -/
inductive ContainerError where
  | host (fault : HostFault)
  | unknownFormat (name : String)
  | idOutOfRange (format : Format) (code : TypeCode) (id : Int64)
  | nameTooLong (code : TypeCode) (id : Int64) (length : Nat)
  | tooLarge (format : Format) (limit : ContainerLimit)
deriving DecidableEq, Repr

def ContainerError.message : ContainerError → String
  | host fault => s!"I/O error: {fault.message}"
  | unknownFormat name =>
    s!"unknown container format '{name}' (expected classic, extended or rez)"
  | idOutOfRange format code id =>
    s!"resource '{code}' #{id} does not fit the id range of the {format} format"
  | nameTooLong code id length =>
    s!"resource '{code}' #{id} has a {length}-byte name; at most 255 bytes are allowed"
  | tooLarge format limit => s!"{format} container too large: {limit.message}"

/-- Reads a format's name, or says which name is unknown. -/
def Format.ofString (text : String) : Except ContainerError Format :=
  match ofString? text with
  | some format => .ok format
  | none => .error (.unknownFormat text)

end ResourceAssembler
