/-!
# Arguments

The command line takes at most one file. `-h`, `--help`, `-V` and `--version` ask for a text
instead, `--` ends the options, and a lone dash is a file name.
-/

namespace Ls8.CommandLine.Arguments

/-- Why the arguments do not lead to a run. -/
inductive Stop where
  | help
  | version
  /-- There is an option that is not known, or a second file. -/
  | unknownArgument
  /-- An option has a value that takes none. -/
  | tooManyValues
  | emptyFile
  deriving DecidableEq, Repr

def Stop.status : Stop → UInt8
  | .help | .version => 0
  | .unknownArgument | .tooManyValues | .emptyFile => 2

/-- What an argument is, as long as options have not ended. -/
inductive Kind where
  | file
  | endOfOptions
  | help
  | version
  /-- One of the options, with a value that it does not take. -/
  | withValue
  | unknown
  deriving DecidableEq, Repr

def longKind (name : String) (hasValue : Bool) : Kind :=
  if name = "help" then if hasValue then .withValue else .help
  else if name = "version" then if hasValue then .withValue else .version
  else .unknown

/-- What an argument is. After a single dash the first letter decides. -/
def kind (argument : String) : Kind :=
  match argument.toList with
  | ['-', '-'] => .endOfOptions
  | '-' :: '-' :: long =>
    longKind (String.ofList (long.takeWhile (· ≠ '='))) (long.contains '=')
  | '-' :: 'h' :: _ => .help
  | '-' :: 'V' :: _ => .version
  | '-' :: _ :: _ => .unknown
  | _ => .file

def takeFile (file : Option String) (argument : String) : Except Stop (Option String) :=
  if file.isSome then .error .unknownArgument else .ok (some argument)

/-- Looks at the file named so far before something is made of it. -/
def checkFile (file : Option String) : Except Stop (Option String) :=
  if file = some "" then .error .emptyFile else .ok file

def readFiles (file : Option String) : List String → Except Stop (Option String)
  | [] => checkFile file
  | argument :: rest => do readFiles (← takeFile file argument) rest

/-- Reads arguments, given the file named before them. An argument that asks for a text is followed
only if the file named so far is in order. -/
def read (file : Option String) : List String → Except Stop (Option String)
  | [] => checkFile file
  | argument :: rest =>
    match kind argument with
    | .file => do read (← takeFile file argument) rest
    | .endOfOptions => readFiles file rest
    | .help => do
      let _ ← checkFile file
      .error .help
    | .version => do
      let _ ← checkFile file
      .error .version
    | .withValue => .error .tooManyValues
    | .unknown => .error .unknownArgument

/-- The file to run, if the arguments name one. -/
def parse (arguments : List String) : Except Stop (Option String) :=
  read none arguments

end Ls8.CommandLine.Arguments
