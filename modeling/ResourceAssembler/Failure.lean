import ResourceAssembler.Image.Fault
import ResourceAssembler.Target.Error

/-!
# Failures

A failure is a cause with the contexts in which it arose, the outermost first. Its text is the chain
of all contexts, the cause and what led to the cause.
-/

namespace ResourceAssembler

/-- What made a run fail. -/
inductive Cause where
  | definition (error : DefinitionError)
  | container (error : ContainerError)
  | image (error : ImageError)
  | target (error : TargetError)
  | host (fault : HostFault)
  /-- A text is no TOML document, or not one of the expected form. -/
  | toml
  | plain (message : String)
deriving DecidableEq, Repr

/-- A container error and the fault that led to it. -/
def ContainerError.chain (error : ContainerError) : List String :=
  match error with
  | host fault => [error.message, fault.message]
  | _ => [error.message]

/-- An image error and the fault that led to it. -/
def ImageError.chain (error : ImageError) : List String :=
  match error with
  | host _ fault => [error.message, fault.message]
  | _ => [error.message]

/-- A target error and what led to it. -/
def TargetError.chain (error : TargetError) : List String :=
  match error with
  | createDestination _ fault => [error.message, fault.message]
  | write _ cause => error.message :: cause.chain
  | _ => [error.message]

/-- A cause and what led to it. -/
def Cause.chain : Cause → List String
  | definition error => [error.message]
  | container error => error.chain
  | image error => error.chain
  | target error => error.chain
  | host fault => [fault.message]
  | toml => ["TOML parse error"]
  | plain message => [message]

/-- Why a run failed. -/
structure Failure where
  contexts : List String := []
  cause : Cause
deriving DecidableEq, Repr

namespace Failure

/-- The failure seen from one context further out. -/
def within (context : String) (failure : Failure) : Failure :=
  { failure with contexts := context :: failure.contexts }

def message (failure : Failure) : String :=
  ": ".intercalate (failure.contexts ++ failure.cause.chain)

/-- A result with its failure seen from one context further out. -/
def inContext {α : Type} (context : String) (result : Except Failure α) : Except Failure α :=
  result.mapError (within context)

end Failure

/-- A result whose error is taken as the cause of a failure. -/
def Cause.raise {ε α : Type} (cause : ε → Cause) (result : Except ε α) : Except Failure α :=
  result.mapError fun error => { cause := cause error }

end ResourceAssembler
