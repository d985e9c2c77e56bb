/-!
# Why a file cannot be read

The causes, and the text that reports each.
-/

namespace Ls8

inductive ReadError where
  | notFound
  | isDirectory
  /-- A file is used as a directory. -/
  | notDirectory
  | nameTooLong
  | nulInName
  | notUtf8
  /-- Any other reason, in the words of the system. -/
  | other (reason : String)
  deriving DecidableEq, Repr

def ReadError.message : ReadError → String
  | .notFound => "No such file or directory (os error 2)"
  | .isDirectory => "Is a directory (os error 21)"
  | .notDirectory => "Not a directory (os error 20)"
  | .nameTooLong => "File name too long (os error 36)"
  | .nulInName => "file name contained an unexpected NUL byte"
  | .notUtf8 => "stream did not contain valid UTF-8"
  | .other reason => reason

/-- Something that gives the text of the file with a name, or says why it cannot. -/
abbrev Reader := String → Except ReadError String

end Ls8
