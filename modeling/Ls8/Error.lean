import Ls8.Memory
import Ls8.Numeral

/-!
# Errors of the machine

Why an operation on the machine is refused, and the text that reports it.
-/

namespace Ls8

inductive WriteError where
  /-- The sink holds as much as it takes. -/
  | full
  deriving DecidableEq, Repr

def WriteError.message : WriteError → String
  | .full => "sink is full"

inductive Error where
  /-- The byte at the program counter names no operation. -/
  | illegalInstruction (opcode : UInt8) (address : Nat)
  /-- An instruction reaches past the end of memory. -/
  | addressOutOfRange (address : Nat)
  /-- An operand byte names no register. -/
  | invalidRegister (byte : UInt8)
  /-- Something is pushed while the stack pointer is at the first byte of memory. -/
  | stackOverflow
  /-- Something is popped while the stack pointer is at the last byte of memory. -/
  | stackUnderflow
  | programTooLarge (size : Nat)
  | machineHalted
  /-- The sink does not take the text that an instruction prints. -/
  | output (cause : WriteError)
  deriving DecidableEq, Repr

def Error.message : Error → String
  | .illegalInstruction opcode address =>
    "illegal instruction 0b" ++ Numeral.bits opcode ++ " at address 0x" ++ Numeral.hexLower address
  | .addressOutOfRange address =>
    "address 0x" ++ Numeral.hexLower address ++ " is outside of memory"
  | .invalidRegister byte => "register R" ++ toString byte.toNat ++ " does not exist"
  | .stackOverflow => "stack overflow: stack pointer cannot move below 0x00"
  | .stackUnderflow => "stack underflow: stack pointer cannot move above 0xff"
  | .programTooLarge size =>
    "program is " ++ toString size ++ " bytes but memory only holds " ++ toString Memory.size
  | .machineHalted => "machine is halted"
  | .output _ => "could not write program output"

end Ls8
