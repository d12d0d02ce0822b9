import GoldenHarness.Path
import GoldenHarness.Text.Quoted

/-!
# Why an operation fails

The causes for which a file cannot be opened, read, written, created or removed, a program cannot be
started and a writer takes no more. Some failures name the path that they are about.
-/

namespace GoldenHarness

/-- A cause of failure. -/
inductive Failure where
  /-- There is nothing at the path. -/
  | notFound
  /-- The file may not be executed. -/
  | permissionDenied
  /-- The file is in no format that can be executed. -/
  | execFormat
  /-- There is something at the path already. -/
  | alreadyExists
  /-- Every name that was tried for a transient file is taken. -/
  | tooManyTransients
  /-- A file stands where a directory is needed. -/
  | notADirectory
  /-- A directory stands where a file is needed. -/
  | isADirectory
  /-- The path, or a name in it, is too long. -/
  | nameTooLong
  /-- The path has a zero byte in it. -/
  | nulInPath
  /-- A program or one of its arguments has a zero byte in it. -/
  | nulInArgument
  /-- The content is not UTF-8. -/
  | notUtf8
  /-- The writer takes no more. -/
  | writerFull
deriving DecidableEq, Repr

/-- The text of a cause. -/
def Failure.message : Failure → String
  | .notFound => "No such file or directory (os error 2)"
  | .permissionDenied => "Permission denied (os error 13)"
  | .execFormat => "Exec format error (os error 8)"
  | .alreadyExists => "File exists (os error 17)"
  | .tooManyTransients => "too many temporary files exist"
  | .notADirectory => "Not a directory (os error 20)"
  | .isADirectory => "Is a directory (os error 21)"
  | .nameTooLong => "File name too long (os error 36)"
  | .nulInPath => "file name contained an unexpected NUL byte"
  | .nulInArgument => "nul byte found in provided data"
  | .notUtf8 => "stream did not contain valid UTF-8"
  | .writerFull => "echo full"

/-- A failed operation: why it failed, and on which path if that is said. -/
structure IoError where
  /-- Why the operation failed. -/
  cause : Failure
  /-- The path that the operation was about. -/
  path : Option Path
deriving DecidableEq, Repr

namespace IoError

/-- A failure that names no path. -/
def ofFailure (cause : Failure) : IoError := ⟨cause, none⟩

/-- The text of a failure. -/
def message (e : IoError) : String :=
  match e.path with
  | none => e.cause.message
  | some p => s!"{e.cause.message} at path {Quoted.bytes p}"

end IoError

end GoldenHarness
