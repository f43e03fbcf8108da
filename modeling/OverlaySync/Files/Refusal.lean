/-! # Refusals of the file system -/

namespace OverlaySync

/-- Why a file operation is refused, or a program cannot be started. -/
inductive Refusal where
  /-- There is nothing at the path, or no directory above it. -/
  | notFound
  /-- Something above the path is a file. -/
  | notDirectory
  /-- The path is a directory. -/
  | isDirectory
  /-- There is something at the path already. -/
  | alreadyExists
  /-- The path cannot be replaced. -/
  | busy
  /-- The path is not permitted. -/
  | notPermitted
  /-- A name or a path is longer than the system takes. -/
  | nameTooLong
  /-- A path holds the zero character. -/
  | zeroInPath
  /-- An argument of a program holds the zero character. -/
  | zeroInArgument
  /-- An argument of a program is longer than the system takes. -/
  | argumentTooLong
  /-- The content is not UTF-8. -/
  | invalidText
  /-- Any other refusal, in the words of the system. -/
  | other (text : String)
  deriving DecidableEq, Repr

/-- How the system words a refusal. -/
def Refusal.message : Refusal → String
  | notFound => "No such file or directory (os error 2)"
  | notDirectory => "Not a directory (os error 20)"
  | isDirectory => "Is a directory (os error 21)"
  | alreadyExists => "File exists (os error 17)"
  | busy => "Device or resource busy (os error 16)"
  | notPermitted => "Permission denied (os error 13)"
  | nameTooLong => "File name too long (os error 36)"
  | zeroInPath => "file name contained an unexpected NUL byte"
  | zeroInArgument => "nul byte found in provided data"
  | argumentTooLong => "Argument list too long (os error 7)"
  | invalidText => "stream did not contain valid UTF-8"
  | other text => text

end OverlaySync
