import ResourceAssembler.Container.Fault
import ResourceAssembler.Location

/-!
# Why a build target gives up

A lookup fails at a type that nothing defines or at a scenario without a manifest, a save at the
directory of the artifact or at the artifact. Each message names what was looked for, and where.
-/

namespace ResourceAssembler

/-- Why a lookup or a save failed. -/
inductive TargetError where
  /-- A type is used that no definition names. -/
  | missingType (name : String) (location : Location)
  | scenarioNotFound (name path : String)
  | missingManifest (name path : String)
  | createDestination (path : String) (fault : HostFault)
  | write (path : String) (cause : ContainerError)
deriving DecidableEq, Repr

def TargetError.message : TargetError → String
  | missingType name location => s!"{location}: missing definition for type '{name}'"
  | scenarioNotFound name path =>
    s!"could not find scenario named '{name}' (looked for {path})"
  | missingManifest name path => s!"scenario '{name}' is missing a 'manifest.kdl' file ({path})"
  | createDestination path fault =>
    s!"could not create destination directory {path}: {fault.message}"
  | write path cause => s!"failed to write {path}: {cause.message}"

end ResourceAssembler
