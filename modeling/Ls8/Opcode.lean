import Ls8.Numeral

/-!
# Opcodes

The thirteen operations of the LS-8 and the bytes that name them. The top two bits of every opcode
byte hold the number of operand bytes that follow it in memory.
-/

namespace Ls8

/-- Number of operand bytes after `byte`, whether or not it names an operation. -/
def operandCount (byte : UInt8) : Nat :=
  (byte >>> 6).toNat

inductive Opcode where
  /-- Halt the machine. -/
  | hlt
  /-- Return from a subroutine. -/
  | ret
  /-- Push a register on the stack. -/
  | push
  /-- Pop the stack into a register. -/
  | pop
  /-- Print a register in decimal. -/
  | prn
  /-- Call the subroutine whose address a register holds. -/
  | call
  /-- Jump to the address that a register holds. -/
  | jmp
  /-- Jump if the last comparison found equal values. -/
  | jeq
  /-- Jump unless the last comparison found equal values. -/
  | jne
  /-- Load an immediate value into a register. -/
  | ldi
  /-- Add one register to another. -/
  | add
  /-- Multiply a register by another. -/
  | mul
  /-- Compare two registers. -/
  | cmp
  deriving DecidableEq, Repr

/-- A byte that names no operation. -/
structure UnknownOpcode where
  byte : UInt8
  deriving DecidableEq, Repr

def UnknownOpcode.message (unknown : UnknownOpcode) : String :=
  "unknown opcode 0b" ++ Numeral.bits unknown.byte

namespace Opcode

/-- All operations, in the order of their bytes. -/
def all : List Opcode :=
  [hlt, ret, push, pop, prn, call, jmp, jeq, jne, ldi, add, mul, cmp]

/-- The byte that names an operation in memory. -/
def byte : Opcode → UInt8
  | hlt => 0b00000001
  | ret => 0b00010001
  | push => 0b01000101
  | pop => 0b01000110
  | prn => 0b01000111
  | call => 0b01010000
  | jmp => 0b01010100
  | jeq => 0b01010101
  | jne => 0b01010110
  | ldi => 0b10000010
  | add => 0b10100000
  | mul => 0b10100010
  | cmp => 0b10100111

def ofByte (b : UInt8) : Except UnknownOpcode Opcode :=
  match all.find? (fun op => op.byte == b) with
  | some op => .ok op
  | none => .error ⟨b⟩

/-- Number of operand bytes of an operation, as its byte encodes it. -/
def operandCount (op : Opcode) : Nat :=
  Ls8.operandCount op.byte

/-- Size of a whole instruction in memory, the opcode byte included. -/
def width (op : Opcode) : Nat :=
  1 + op.operandCount

def mnemonic : Opcode → String
  | hlt => "HLT"
  | ret => "RET"
  | push => "PUSH"
  | pop => "POP"
  | prn => "PRN"
  | call => "CALL"
  | jmp => "JMP"
  | jeq => "JEQ"
  | jne => "JNE"
  | ldi => "LDI"
  | add => "ADD"
  | mul => "MUL"
  | cmp => "CMP"

instance : ToString Opcode := ⟨mnemonic⟩

theorem mem_all (op : Opcode) : op ∈ all := by
  cases op <;> decide

/-- What is said of every operation can be checked on the list of them. -/
instance decidableForall (p : Opcode → Prop) [DecidablePred p] : Decidable (∀ op, p op) :=
  decidable_of_iff (∀ op ∈ all, p op) ⟨fun h op => h op op.mem_all, fun h op _ => h op⟩

/-- The sizes of the instructions: alone, with one operand byte, with two. -/
theorem width_eq (op : Opcode) :
    op.width = match op with
      | hlt | ret => 1
      | ldi | add | mul | cmp => 3
      | _ => 2 := by
  cases op <;> rfl

/-- Every operation is read back from its own byte. -/
@[simp] theorem ofByte_byte (op : Opcode) : ofByte op.byte = .ok op := by
  cases op <;> rfl

theorem byte_of_ofByte {b : UInt8} {op : Opcode} (h : ofByte b = .ok op) : op.byte = b := by
  unfold ofByte at h
  split at h
  · next found hfound =>
    cases h
    simpa using List.find?_some hfound
  · cases h

/-- The operation that a byte names is the one whose byte it is. -/
theorem ofByte_eq_ok_iff {b : UInt8} {op : Opcode} : ofByte b = .ok op ↔ op.byte = b :=
  ⟨byte_of_ofByte, fun h => h ▸ ofByte_byte op⟩

/-- A byte is refused, and reported as it is, when no operation has it. -/
theorem ofByte_eq_error_iff {b : UInt8} {unknown : UnknownOpcode} :
    ofByte b = .error unknown ↔ unknown.byte = b ∧ ∀ op : Opcode, op.byte ≠ b := by
  constructor
  · intro h
    refine ⟨?_, fun op hop => ?_⟩
    · unfold ofByte at h
      split at h <;> cases h
      rfl
    · rw [ofByte_eq_ok_iff.2 hop] at h
      cases h
  · rintro ⟨rfl, hnone⟩
    cases hop : ofByte unknown.byte with
    | ok op => exact absurd (byte_of_ofByte hop) (hnone op)
    | error other =>
      unfold ofByte at hop
      split at hop <;> cases hop
      rfl

end Opcode

end Ls8
