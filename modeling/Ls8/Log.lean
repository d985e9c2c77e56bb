import Ls8.Numeral
import Ls8.Trace

/-!
# The log

What the machine and its loader note down, most of it for tracing a run step by step.
-/

namespace Ls8.Log

inductive Level where
  | error
  | debug
  | trace
  deriving DecidableEq, Repr

def Level.name : Level → String
  | .error => "ERROR"
  | .debug => "DEBUG"
  | .trace => "TRACE"

/-- Something noted down. -/
inductive Record where
  /-- A program was read from a file. -/
  | readFile (size : Nat) (path : String)
  /-- An image was placed in memory. -/
  | loaded (size : Nat)
  /-- An instruction is about to execute. -/
  | attempted (before : Trace)
  /-- The machine halted at an address. -/
  | halted (address : Nat)
  /-- Loading or running failed. -/
  | failed (last : Trace)
  deriving DecidableEq, Repr

namespace Record

def level : Record → Level
  | readFile _ _ | loaded _ | halted _ => .debug
  | attempted _ => .trace
  | failed _ => .error

def message : Record → String
  | readFile size path => "loaded " ++ toString size ++ " bytes from " ++ path
  | loaded size => "loaded " ++ toString size ++ " bytes into memory"
  | attempted trace | failed trace => trace.line
  | halted address => "halted at 0x" ++ Numeral.hexLower address

end Record

end Ls8.Log
