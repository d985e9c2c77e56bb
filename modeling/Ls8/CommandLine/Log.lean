import Ls8.CommandLine.Run

/-!
# What a run from the command line notes down

The file read, the image placed in memory, the records of the run, and the state of the processor if
the run failed. A run that fails before there is a program notes nothing down. From the program on,
these are the records of one action: it loads the program, runs it, and traces what a failure leaves.
-/

namespace Ls8.CommandLine

open Log (Record)

def failureLog : Outcome → List Record
  | .ok _ => []
  | .error failure => [.failed failure.machine.trace]

def runProgramLog (p : Program) (out : Sink) : List Record :=
  (Machine.withOutput out).loadLog p ++ match (Machine.withOutput out).load p with
    | .error failure => failureLog (.error failure)
    | .ok loaded => loaded.runLog ++ (loaded.run.map failureLog).getD []

def runLog (read : Reader) (file : Option String) (out : Sink) : List Record :=
  match file with
  | none => []
  | some path =>
    Program.fromFileLog read path ++ match Program.fromFile read path with
      | .error _ => []
      | .ok p => runProgramLog p out

end Ls8.CommandLine
