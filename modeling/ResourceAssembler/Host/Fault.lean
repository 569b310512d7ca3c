/-!
# Faults of file operations

The faults that a Linux host reports for the paths and files of a build, with its own wording and
error numbers. Any other fault is kept as the message it came with.
-/

namespace ResourceAssembler

/-- Why a file operation failed. -/
inductive HostFault where
  | notFound
  | alreadyExists
  | notADirectory
  | isADirectory
  | nameTooLong
  | zeroInName
  /-- A file that should be text is not UTF-8. -/
  | notText
  | other (message : String)
deriving DecidableEq, Repr

/-- The wording of a fault. -/
def HostFault.message : HostFault → String
  | notFound => "No such file or directory (os error 2)"
  | alreadyExists => "File exists (os error 17)"
  | notADirectory => "Not a directory (os error 20)"
  | isADirectory => "Is a directory (os error 21)"
  | nameTooLong => "File name too long (os error 36)"
  | zeroInName => "file name contained an unexpected NUL byte"
  | notText => "stream did not contain valid UTF-8"
  | other message => message

end ResourceAssembler
