import Ls8.Machine.Log
import Ls8.Program

/-!
# Running a file

Reads the listing in a file, runs it, and reports what goes wrong on a second sink.
-/

namespace Ls8.CommandLine

structure Report where
  /-- The exit status, unless a problem could not be reported. -/
  status : Except WriteError UInt8
  /-- Where the program printed. -/
  out : Sink
  /-- Where problems were reported. -/
  diag : Sink

inductive Problem where
  | missingFile
  /-- The file gives no program. -/
  | load (cause : LoadError)
  /-- The machine refuses the program or one of its instructions. -/
  | machine (cause : Error)
  deriving DecidableEq, Repr

def Problem.message : Problem → String
  | .missingFile => "You must specify the file to run."
  | .load (.unreadable path .notFound) => "File not found: " ++ path
  | .load cause => cause.message
  | .machine cause => cause.message

/-- The line that reports a problem, in UTF-8. -/
def Problem.line (problem : Problem) : List UInt8 :=
  (problem.message ++ "\n").toUTF8.toList

def succeed (out diag : Sink) : Report where
  status := .ok 0
  out := out
  diag := diag

def fail (problem : Problem) (out diag : Sink) : Report where
  status := if diag.fits problem.line then .ok 1 else .error .full
  out := out
  diag := diag.put problem.line

/-- A machine just switched on, with the listing in a file in its memory; or the problem that keeps
it from running. -/
def prepare (read : Reader) (file : Option String) (out : Sink) : Except Problem Machine :=
  match file with
  | none => .error .missingFile
  | some path =>
    match Program.fromFile read path with
    | .error error => .error (.load error)
    | .ok p =>
      match (Machine.withOutput out).load p with
      | .error failure => .error (.machine failure.error)
      | .ok loaded => .ok loaded

def conclude (outcome : Outcome) (diag : Sink) : Report :=
  match outcome with
  | .ok last => succeed last.out diag
  | .error failure => fail (.machine failure.error) failure.machine.out diag

/-- Runs the listing in a file; `none` if it never ends. -/
def run (read : Reader) (file : Option String) (out diag : Sink) : Option Report :=
  match prepare read file out with
  | .error problem => some (fail problem out diag)
  | .ok loaded => loaded.run.map fun outcome => conclude outcome diag

end Ls8.CommandLine
