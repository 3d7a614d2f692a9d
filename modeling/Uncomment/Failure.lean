/-
# Failures

What the machine refuses to do, and what the program makes of it. A failure is about a
path: it does not exist, cannot be inspected, read or written. Except for the first, a
failure has a cause.

Key definitions: `IoError.message`, `Failure.message`, `Failure.describe`.
-/
import Uncomment.Text.Quoted

namespace Uncomment

/-- Why an operation on a file was refused. -/
inductive IoError where
  | noEntry
  | denied
  | alreadyExists
  | notDirectory
  | isDirectory
  | tooLarge
  | nameTooLong
  | linkLoop
  | nulByte
  | notUtf8
  /-- Any other reason, in words. -/
  | other (reason : String)
  /-- A reason that concerns a file other than the one asked for. -/
  | concerning (error : IoError) (path : String)
deriving DecidableEq, Repr

/-- A reason in words. -/
def IoError.message : IoError → String
  | noEntry => "No such file or directory (os error 2)"
  | denied => "Permission denied (os error 13)"
  | alreadyExists => "File exists (os error 17)"
  | notDirectory => "Not a directory (os error 20)"
  | isDirectory => "Is a directory (os error 21)"
  | tooLarge => "File too large (os error 27)"
  | nameTooLong => "File name too long (os error 36)"
  | linkLoop => "Too many levels of symbolic links (os error 40)"
  | nulByte => "file name contained an unexpected NUL byte"
  | notUtf8 => "stream did not contain valid UTF-8"
  | other reason => reason
  | concerning error path => error.message ++ " at path " ++ Text.quoted path

/-- A path that could not be processed. -/
inductive Failure where
  | notFound (path : String)
  | access (path : String) (cause : IoError)
  | read (path : String) (cause : IoError)
  | write (path : String) (cause : IoError)
deriving DecidableEq, Repr

namespace Failure

/-- The path that a failure is about. -/
def path : Failure → String
  | notFound path => path
  | access path _ => path
  | read path _ => path
  | write path _ => path

/-- The cause of a failure, if it has one of its own. -/
def cause? : Failure → Option IoError
  | notFound _ => none
  | access _ cause => some cause
  | read _ cause => some cause
  | write _ cause => some cause

/-- A failure in words, without its cause. -/
def message : Failure → String
  | notFound path => "path does not exist: " ++ path
  | access path _ => "cannot access " ++ path
  | read path _ => "failed to read " ++ path
  | write path _ => "failed to write " ++ path

/-- A failure and its cause, each in words. -/
def chain (f : Failure) : List String := f.message :: (f.cause?.map IoError.message).toList

/-- A failure in words, with its cause. -/
def describe (f : Failure) : String := ": ".intercalate f.chain

end Failure

end Uncomment
