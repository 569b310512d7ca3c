import ResourceAssembler.Host.Fault

/-!
# Hosts

A host is what a run sees of the file system. Questions are asked for finitely many paths at a time
and answered by a function, so that everything decided on the answers is a plain function.
-/

namespace ResourceAssembler

/-- What a path leads to. -/
inductive Presence where
  | absent
  | file
  | dir
deriving DecidableEq, Repr

/-- Answers about what paths lead to. -/
abbrev Look := String → Presence

/-- Answers about the contents of files. -/
abbrev Read := String → Except HostFault ByteArray

/-- The file operations of a run. -/
class Host (m : Type → Type) where
  /-- What these paths lead to. The answer is meant for these paths only. -/
  look : List String → m Look
  /-- What these files hold. The answer is meant for these paths only. -/
  read : List String → m Read
  /-- Creates a directory and the directories above it. -/
  createDirAll : String → m (Except HostFault Unit)
  /-- Writes a file, replacing what it held. -/
  write : String → ByteArray → m (Except HostFault Unit)

/-- A file's content as text. -/
def Read.text (read : Read) (path : String) : Except HostFault String :=
  match read path with
  | .ok bytes =>
    match String.fromUTF8? bytes with
    | some text => .ok text
    | none => .error .notText
  | .error fault => .error fault

end ResourceAssembler
