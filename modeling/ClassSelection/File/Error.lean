/-!
# File errors

Why a file could not be read or written, with the wording and number the system gives.
-/

namespace ClassSelection

inductive FileError where
  /-- No file has the name, or part of the path to it is missing. -/
  | notFound
  | isDirectory
  | notDirectory
  | nameTooLong
  /-- The path holds a NUL character, which ends a name for the system. -/
  | nulInName
  | notUtf8
  /-- Any other cause, in the system's words. -/
  | other (description : String)
  deriving DecidableEq, Repr

namespace FileError

def message : FileError → String
  | notFound => "No such file or directory (os error 2)"
  | isDirectory => "Is a directory (os error 21)"
  | notDirectory => "Not a directory (os error 20)"
  | nameTooLong => "File name too long (os error 36)"
  | nulInName => "file name contained an unexpected NUL byte"
  | notUtf8 => "stream did not contain valid UTF-8"
  | other description => description

end FileError

end ClassSelection
