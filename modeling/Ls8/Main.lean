import Ls8.CommandLine.Arguments
import Ls8.CommandLine.Run

/-!
# The command line program

Runs the listing in a file, printing as the program prints. Everything that is decided is decided by
the library; here files are read and text is written.
-/

namespace Ls8.CommandLine

/-- The reason that the system gives. -/
def reasonOf : IO.Error → ReadError
  | .noFileOrDirectory .. => .notFound
  | .inappropriateType _ 21 _ => .isDirectory
  | error => .other (toString error)

def readText (path : String) : IO (Except ReadError String) := do
  if path.toList.contains (Char.ofNat 0) then return .error .nulInName
  try
    let content ← IO.FS.readBinFile path
    match String.fromUTF8? content with
    | some text => return .ok text
    | none => return .error .notUtf8
  catch error => return .error (reasonOf error)

/-- Reports a problem and gives the exit status of a run that failed. -/
def complain (problem : Problem) : IO UInt32 := do
  IO.eprintln problem.message
  return 1

/-- Runs a machine to its end, handing on what it prints after each step. -/
partial def drive (m : Machine) : IO UInt32 := do
  if m.halted then return 0
  match m.step with
  | .error failure => complain (.machine failure.error)
  | .ok next =>
    if next.out.taken.isEmpty then drive next
    else
      try
        IO.print next.out.text
        (← IO.getStdout).flush
      catch _ => return ← complain (.machine (.output .full))
      drive { next with out := Sink.unlimited }

/-- Runs the listing in a file. -/
def runFile (file : Option String) : IO UInt32 := do
  let content ← match file with
    | none => pure (.error .notFound)
    | some path => readText path
  match prepare (fun _ => content) file Sink.unlimited with
  | .error problem => complain problem
  | .ok loaded => drive loaded

def usage : String :=
  "Run an LS-8 program listing\n\nUsage: ls8 [FILE]\n\nArguments:\n"
    ++ "  [FILE]  Listing of binary literals to load and run\n\nOptions:\n"
    ++ "  -h, --help     Print help\n  -V, --version  Print version"

/-- Writes what the program says instead of a run. -/
def explain : Arguments.Stop → IO Unit
  | .help => IO.println usage
  | .version => IO.println "ls8 0.1.0"
  | .unknownArgument => IO.eprintln "error: unexpected argument found"
  | .tooManyValues => IO.eprintln "error: unexpected value for an option that takes none"
  | .emptyFile => IO.eprintln "error: a value is required for [FILE] but none was supplied"

end Ls8.CommandLine

/-- Runs the file that the arguments name. -/
def main (arguments : List String) : IO UInt32 := do
  match Ls8.CommandLine.Arguments.parse arguments with
  | .error stop =>
    Ls8.CommandLine.explain stop
    return stop.status.toUInt32
  | .ok file => Ls8.CommandLine.runFile file
