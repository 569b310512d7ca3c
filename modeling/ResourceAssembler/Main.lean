import ResourceAssembler.Command.Run

/-!
# The program

The host of the running system, and the program that does what its command line asks for.
-/

namespace ResourceAssembler

/-- The fault that an error of the system stands for, given its number and its wording. -/
def HostFault.ofSystem (number : UInt32) (details : String) : HostFault :=
  match number.toNat with
  | 2 => .notFound
  | 17 => .alreadyExists
  | 20 => .notADirectory
  | 21 => .isADirectory
  | 36 => .nameTooLong
  | n => .other s!"{details} (os error {n})"

/-- The fault that an error stands for. -/
def HostFault.ofError : IO.Error → HostFault
  | .noFileOrDirectory _ number details => ofSystem number details
  | .alreadyExists _ number details => ofSystem number details
  | .inappropriateType _ number details => ofSystem number details
  | .permissionDenied _ number details => ofSystem number details
  | .resourceExhausted _ number details => ofSystem number details
  | .invalidArgument _ number details => ofSystem number details
  | .noSuchThing _ number details => ofSystem number details
  | .otherError number details => ofSystem number details
  | error => .other (toString error)

/-- Does something and gives the fault, if there is one. -/
def faultless {α : Type} (action : IO α) : BaseIO (Except HostFault α) := do
  return (← action.toBaseIO).mapError HostFault.ofError

/-- What a path leads to, found out by reading a byte from it. -/
def probe (path : String) : BaseIO Presence := do
  let read : IO Unit := do
    let file ← IO.FS.Handle.mk path .read
    discard (file.read 1)
  return match ← faultless read with
    | .ok () => .file
    | .error .isADirectory => .dir
    | .error _ => .absent

/-- Creates the first of these directories, after the ones behind it where they are missing. That a
directory exists already is no fault. -/
def createDirs : List String → BaseIO (Except HostFault Unit)
  | [] => return .ok ()
  | path :: above => do
    if path.isEmpty then return .ok ()
    let create := faultless (IO.FS.createDir path)
    let done ← match ← create with
      | .error .notFound =>
        match ← createDirs above with
        | .ok () => create
        | .error fault => return .error fault
      | done => pure done
    if done.isOk || (← probe path) = .dir then return .ok () else return done

instance : Host BaseIO where
  look paths := do
    let answers ← paths.mapM fun (path : String) => return (path, ← probe path)
    return fun path => (answers.lookup path).getD .absent
  read paths := do
    let answers ← paths.mapM fun (path : String) =>
      return (path, ← faultless (IO.FS.readBinFile path))
    return fun path => (answers.lookup path).getD (.error .notFound)
  createDirAll path := createDirs (Paths.ancestors path)
  write path content := faultless (IO.FS.writeBinFile path content)

end ResourceAssembler

open ResourceAssembler in
/-- Does what the arguments ask for and gives the exit code. -/
def main (arguments : List String) : IO UInt32 := do
  let home := (← IO.getEnv "HOME").filter (!·.isEmpty)
  let workingDir := toString (← IO.currentDir)
  let outcome ← CommandLine.run (m := BaseIO) { home, workingDir } arguments
  IO.eprint outcome.errors
  IO.print outcome.output
  return outcome.exitCode.toUInt32
