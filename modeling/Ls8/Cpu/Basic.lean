import Ls8.Error
import Ls8.Flags
import Ls8.Memory
import Ls8.Opcode
import Ls8.Register
import Ls8.Trace

/-!
# The processor

What the machine is apart from where it prints: program counter, memory, registers, flags, and
whether it has halted. The stack grows down in memory; the stack pointer is the last register.
-/

namespace Ls8

structure Cpu where
  /-- Position of the instruction about to execute; just past memory after its last byte. -/
  pc : Nat := 0
  memory : Memory := Memory.zero
  registers : Registers := Registers.powerOn
  flags : Flags := Flags.clear
  halted : Bool := false
  deriving DecidableEq, Repr

namespace Cpu

def powerOn : Cpu := {}

/-- The processor just after a program has been placed at the start of its memory. -/
def booted (image : List UInt8) : Cpu := { memory := Memory.ofImage image }

def register (c : Cpu) (r : Register) : UInt8 :=
  c.registers.read r

def sp (c : Cpu) : UInt8 :=
  c.register Register.sp

def setRegister (c : Cpu) (r : Register) (value : UInt8) : Cpu :=
  { c with registers := c.registers.write r value }

def store (c : Cpu) (address value : UInt8) : Cpu :=
  { c with memory := c.memory.write address value }

/-- The byte that the stack pointer points at. -/
def top (c : Cpu) : UInt8 :=
  c.memory.read c.sp

def lowerStack (c : Cpu) : Except Error Cpu :=
  if c.sp = 0 then .error .stackOverflow else .ok (c.setRegister Register.sp (c.sp - 1))

def raiseStack (c : Cpu) : Except Error Cpu :=
  if c.sp = 255 then .error .stackUnderflow else .ok (c.setRegister Register.sp (c.sp + 1))

/-- The position just after an instruction of an operation at the program counter. -/
def after (c : Cpu) (op : Opcode) : Nat :=
  c.pc + op.width

/-- Goes on after an instruction of an operation. -/
def advance (c : Cpu) (op : Opcode) : Cpu :=
  { c with pc := c.after op }

/-- Goes on at an address. -/
def jump (c : Cpu) (target : UInt8) : Cpu :=
  { c with pc := target.toNat }

/-- The byte at a position, zero past the end of memory. -/
def byteAt (c : Cpu) (position : Nat) : UInt8 :=
  (c.memory.fetch? position).getD 0

/-- The summary of the processor: program counter, the three bytes there, and every register. -/
def trace (c : Cpu) : Trace where
  pc := c.pc
  window := #v[c.byteAt c.pc, c.byteAt (c.pc + 1), c.byteAt (c.pc + 2)]
  registers := c.registers

end Cpu

end Ls8
