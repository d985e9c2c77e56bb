import Ls8.Numeral
import Ls8.Register

/-!
# Traces

A one-line summary of the processor. All numbers are hexadecimal; the program counter has two digits
as long as it is inside memory.
-/

namespace Ls8

structure Trace where
  pc : Nat
  /-- The three bytes at the program counter, zero past the end of memory. -/
  window : Vector UInt8 3
  registers : Registers
  deriving DecidableEq, Repr

namespace Trace

def field (byte : UInt8) : String :=
  " " ++ Numeral.hexUpper byte.toNat

def fields (bytes : List UInt8) : String :=
  String.join (bytes.map field)

/-- The line that writes a trace. -/
def line (t : Trace) : String :=
  "TRACE: " ++ Numeral.hexUpper t.pc ++ " |" ++ fields t.window.toList ++ " |"
    ++ fields t.registers.toList

end Trace

end Ls8
