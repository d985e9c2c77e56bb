import Ls8.Opcode
import Ls8.Register

/-!
# Instructions

An operation together with its operands, and the bytes that write it in memory.
-/

namespace Ls8

/-- An instruction: every register operand is one of the eight registers. -/
inductive Instruction where
  | hlt
  | ret
  | push (a : Register)
  | pop (a : Register)
  | prn (a : Register)
  | call (a : Register)
  | jmp (a : Register)
  | jeq (a : Register)
  | jne (a : Register)
  | ldi (a : Register) (value : UInt8)
  | add (a b : Register)
  | mul (a b : Register)
  | cmp (a b : Register)
  deriving DecidableEq, Repr

namespace Instruction

def opcode : Instruction → Opcode
  | hlt => .hlt
  | ret => .ret
  | push _ => .push
  | pop _ => .pop
  | prn _ => .prn
  | call _ => .call
  | jmp _ => .jmp
  | jeq _ => .jeq
  | jne _ => .jne
  | ldi _ _ => .ldi
  | add _ _ => .add
  | mul _ _ => .mul
  | cmp _ _ => .cmp

/-- The operand bytes of an instruction, in the order they are stored. -/
def operands : Instruction → List UInt8
  | hlt | ret => []
  | push a | pop a | prn a | call a | jmp a | jeq a | jne a => [a.toByte]
  | ldi a value => [a.toByte, value]
  | add a b | mul a b | cmp a b => [a.toByte, b.toByte]

def encode (i : Instruction) : List UInt8 :=
  i.opcode.byte :: i.operands

/-- Size of an instruction in memory. -/
def width (i : Instruction) : Nat :=
  i.opcode.width

/-- The value that an instruction prints, if it prints, when the registers are as given. -/
def printed (registers : Registers) : Instruction → Option UInt8
  | prn a => some (registers.read a)
  | _ => none

/-- An instruction takes as many bytes as its opcode byte announces. -/
theorem length_encode (i : Instruction) : i.encode.length = i.width := by
  cases i <;> simp [encode, operands, width, opcode, Opcode.width_eq]

end Instruction

end Ls8
