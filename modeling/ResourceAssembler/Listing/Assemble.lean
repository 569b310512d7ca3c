import ResourceAssembler.Failure
import ResourceAssembler.Image.Png.Decode
import ResourceAssembler.Listing.Form
import ResourceAssembler.Target.Build

/-!
# Assembling listings

Assembling a listing registers its types in a build target and then adds its resources, each laid
out by the first type of its name. It stops at the first fault and keeps what was added before. What
has to be read from files is given as a function of their paths.
-/

namespace ResourceAssembler

/-- Work that reports notices and may fail. The notices before a failure stay reported. -/
abbrev Reporting := ExceptT Failure (StateM (Array Notice))

/-- Work on a build target that may fail. What was done before a failure stays done. -/
abbrev Assembly := ExceptT Failure (StateM BuildTarget)

/-- Adds notices to the journal. -/
def Reporting.report (notices : List Notice) : Reporting Unit :=
  modify fun journal : Array Notice => journal ++ notices

/-- Gives the work's failure one more context. -/
def Reporting.inContext {α : Type} (context : String) (work : Reporting α) : Reporting α :=
  ExceptT.mk do return Failure.inContext context (← work.run)

/-- Does reporting work that concerns only the journal of a target. -/
def Assembly.reporting {α : Type} (work : Reporting α) : Assembly α :=
  ExceptT.mk do
    let target ← get
    let (result, journal) := work.run.run target.journal
    set { target with journal }
    return result

/-! ## Types -/

/-- The field that a listing declares. -/
def FieldEntry.definition (typeName : String) (entry : FieldEntry) :
    Except Failure FieldDefinition := do
  let kind ← Failure.inContext s!"field '{entry.name}' of type '{typeName}'"
    (Cause.raise .definition (FieldKind.ofString entry.kind))
  return { name := entry.name, kind }

/-- The type that a listing declares. -/
def TypeEntry.definition (path : String) (entry : TypeEntry) : Except Failure TypeDefinition := do
  let code ← Failure.inContext s!"type '{entry.name}' in {path}"
    (Cause.raise .definition (TypeCode.ofString entry.code))
  return { name := entry.name, code, fields := ← entry.fields.mapM (·.definition entry.name) }

/-- Registers a declared type. -/
def TypeEntry.declare (path : String) (entry : TypeEntry) : Assembly Unit := do
  let type ← entry.definition path
  modify (·.addType type)

/-! ## Values -/

/-- The file that a value refers to, with the notices that this gives rise to. -/
def TargetPaths.reference (paths : TargetPaths) (reference : String) : Reporting String := do
  Reporting.report (paths.referenceNotices reference)
  return paths.sourceFile reference

/-- The text of a value of a field. -/
def FieldDefinition.textOf (field : FieldDefinition) (value : Toml.Value) : Except Failure String :=
  match value.string? with
  | some text => return text
  | none => throw { cause := .plain s!"field '{field.name}' expects a string" }

/-- The bytes of a file. -/
def Read.bytes (read : Read) (path : String) : Except Failure ByteArray :=
  Failure.inContext s!"reading {path}" (Cause.raise .host (read path))

/-- The payload of an image file. -/
def Read.image (read : Read) (path : String) : Except ImageError ByteArray := do
  let bytes ← (read path).mapError (ImageError.host path)
  (← Surface.ofPng bytes).payload

/-- The value of a field as the field's kind takes it. -/
def FieldDefinition.valueOf (paths : TargetPaths) (read : Read) (field : FieldDefinition)
    (value : Toml.Value) : Reporting FieldValue := do
  match field.kind with
  | .integer width =>
    match value.int64? with
    | some number => return .integer width number
    | none => throw { cause := .plain s!"field '{field.name}' expects an integer" }
  | .pstring => return .pstring (← field.textOf value)
  | .cstring => return .cstring (← field.textOf value)
  | .data =>
    let path ← paths.reference (← field.textOf value)
    return .data (← read.bytes path)
  | .image =>
    let path ← paths.reference (← field.textOf value)
    return .data (← Cause.raise .image (read.image path))

/-! ## Resources -/

namespace ResourceEntry

/-- The resource as failures name it. -/
def label (entry : ResourceEntry) (location : Location) : String :=
  s!"{location}: resource '{entry.name}' #{entry.id}"

/-- The value that the resource gives for a field. -/
def fieldValue (paths : TargetPaths) (read : Read) (location : Location) (entry : ResourceEntry)
    (field : FieldDefinition) : Reporting FieldValue :=
  match entry.values.get? field.name with
  | some value => Reporting.inContext (entry.label location) (field.valueOf paths read value)
  | none =>
    throw { cause := .plain s!"{entry.label location} is missing field '{field.name}'" }

/-- The keys of the resource's values that are no fields of its type, in
the order of their bytes. -/
def strayKeys (entry : ResourceEntry) (type : TypeDefinition) : List String :=
  ((entry.values.map (·.1)).filter fun key => (type.field? key).isNone).mergeSort (· ≤ ·)

/-- The record that the resource makes of its type. -/
def record (paths : TargetPaths) (read : Read) (location : Location) (type : TypeDefinition)
    (entry : ResourceEntry) : Reporting ResourceRecord := do
  let values ← type.fields.mapM (entry.fieldValue paths read location)
  Reporting.report ((entry.strayKeys type).map (.valueIgnored location · type.name))
  return { code := type.code, id := entry.id, name := entry.name, values }

/-- The name of the resource's type, with the place where it is written. -/
def typeLexeme (path source : String) (entry : ResourceEntry) : Lexeme :=
  { text := entry.typeName, location := Location.ofOffset path source entry.typeOffset }

/-- Adds a declared resource. -/
def add (path source : String) (read : Read) (entry : ResourceEntry) : Assembly Unit := do
  let target ← get
  let lexeme := entry.typeLexeme path source
  let type ← Cause.raise .target (target.registry.named lexeme)
  let record ← Assembly.reporting (entry.record target.paths read lexeme.location type)
  modify (·.addResource record)

end ResourceEntry

/-! ## Listings -/

/-- How much a listing declares. -/
structure AssemblySummary where
  types : Nat := 0
  resources : Nat := 0
deriving DecidableEq, Repr

namespace AssemblySummary

/-- What two listings declare together. -/
def add (a b : AssemblySummary) : AssemblySummary :=
  ⟨a.types + b.types, a.resources + b.resources⟩

end AssemblySummary

namespace Listing

def summary (listing : Listing) : AssemblySummary :=
  ⟨listing.types.length, listing.resources.length⟩

/-- Assembles a listing. The path and the text of the listing say where its parts are written. -/
def assemble (path source : String) (read : Read) (listing : Listing) :
    Assembly AssemblySummary := do
  listing.types.forM (·.declare path)
  listing.resources.forM (·.add path source read)
  let summary := listing.summary
  modify (·.report [.listingAssembled path summary.types summary.resources])
  return summary

/-- The files that the value of a resource refers to, by a type's fields. -/
def fileReferences (paths : TargetPaths) (entry : ResourceEntry) (type : TypeDefinition) :
    List String :=
  (type.fields.filter fun field => field.kind = .data || field.kind = .image).filterMap fun field =>
    ((entry.values.get? field.name).bind (·.string?)).map paths.sourceFile

/-- The files that may have to be read for a listing once its types are registered. -/
def references (registry : Registry) (paths : TargetPaths) (listing : Listing) : List String :=
  let declared := listing.types.filterMap fun entry => (entry.definition "").toOption
  let registry := declared.foldl Registry.register registry
  listing.resources.flatMap fun entry =>
    ((registry.find? entry.typeName).map (fileReferences paths entry)).getD []

/-- The text of a listing and what it declares. -/
def load (read : Read) (path : String) : Except Failure (String × Listing) := do
  let source ← Failure.inContext s!"reading {path}" (Cause.raise .host (read.text path))
  match parse? source with
  | some listing => return (source, listing)
  | none => Failure.inContext s!"parsing {path}" (throw { cause := .toml })

end Listing

/-- Assembles the listing in a file. -/
def BuildTarget.assemble {m : Type → Type} [Monad m] [Host m] (path : String)
    (target : BuildTarget) :
    m (Except Failure AssemblySummary × BuildTarget) := do
  let read ← Host.read [path]
  match Listing.load read path with
  | .error failure => return (.error failure, target)
  | .ok (source, listing) =>
    let read ← Host.read (listing.references target.registry target.paths)
    return (listing.assemble path source read).run.run target

end ResourceAssembler
