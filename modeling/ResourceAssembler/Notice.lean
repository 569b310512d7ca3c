import ResourceAssembler.Format
import ResourceAssembler.Location
import ResourceAssembler.TypeCode

/-!
# Notices

What a run reports beside its results: one constructor per event, a level for each,
and the wording in one place.
-/

namespace ResourceAssembler

/-- How much a notice matters, the least first. -/
inductive Level where
  | debug
  | info
  | warn
deriving DecidableEq, Repr

namespace Level

def name : Level → String
  | debug => "DEBUG"
  | info => "INFO"
  | warn => "WARN"

def rank : Level → Nat
  | debug => 0
  | info => 1
  | warn => 2

end Level

/-- An event worth reporting. -/
inductive Notice where
  | destinationChosen (root file : String) (toCreate : Bool)
  | referenceExpanded (reference path : String)
  | macroUnsupported (name reference : String)
  | scenarioFound (name manifest : String)
  | typeRegistered (name : String) (code : TypeCode)
  | resourceAdded (code : TypeCode) (id : Int64) (name : String) (size : Nat)
  | resourceReplaced (code : TypeCode) (id : Int64) (previousName : String)
  | valueIgnored (location : Location) (key typeName : String)
  | listingAssembled (path : String) (types resources : Nat)
  | destinationCreated (root : String)
  | savedAgain (path : String)
  | containerWritten (resources size : Nat) (format : Format) (path : String)
deriving DecidableEq, Repr

namespace Notice

def level : Notice → Level
  | resourceReplaced .. | macroUnsupported .. | valueIgnored .. | savedAgain .. => .warn
  | containerWritten .. => .info
  | _ => .debug

def message : Notice → String
  | destinationChosen root file toCreate =>
    s!"destination root '{root}', file '{file}'" ++ if toCreate then " (to be created)" else ""
  | referenceExpanded reference path => s!"resolved {reference} to {path}"
  | macroUnsupported name reference =>
    s!"path macro {name} is not supported; using '{reference}' as written"
  | scenarioFound name manifest => s!"scenario '{name}' manifest at {manifest}"
  | typeRegistered name code => s!"registered type '{name}' ({code})"
  | resourceAdded code id name size => s!"adding resource '{code}' #{id} '{name}' ({size} bytes)"
  | resourceReplaced code id previousName =>
    s!"replacing duplicate resource '{code}' #{id} ('{previousName}')"
  | valueIgnored location key typeName =>
    s!"{location}: '{key}' is not a field of type '{typeName}'; ignored"
  | listingAssembled path types resources => s!"{path}: {types} types, {resources} resources"
  | destinationCreated root => s!"creating destination directory {root}"
  | savedAgain path => s!"build target already saved; writing {path} again"
  | containerWritten resources size format path =>
    s!"wrote {resources} resources ({size} bytes, {format}) to {path}"

end Notice

end ResourceAssembler
