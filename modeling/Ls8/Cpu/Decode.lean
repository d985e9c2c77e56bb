import Ls8.Cpu.Basic
import Ls8.Instruction

/-!
# Decoding

Reads the instruction at the program counter. The opcode byte is read first, then the operands from
left to right; each is looked up in memory before it is checked to name a register, and the first
fault found is the one reported.
-/

namespace Ls8.Cpu

/-- The byte at a position that has to be inside memory. -/
def fetch (c : Cpu) (position : Nat) : Except Error UInt8 :=
  match c.memory.fetch? position with
  | some byte => .ok byte
  | none => .error (.addressOutOfRange position)

def opcode (c : Cpu) : Except Error Opcode := do
  let byte ← c.fetch c.pc
  match Opcode.ofByte byte with
  | .ok op => .ok op
  | .error unknown => .error (.illegalInstruction unknown.byte c.pc)

/-- Operand byte number `n`, counted from zero. -/
def operand (c : Cpu) (n : Nat) : Except Error UInt8 :=
  c.fetch (c.pc + 1 + n)

/-- Operand byte number `n`, which has to name a register. -/
def registerOperand (c : Cpu) (n : Nat) : Except Error Register := do
  let byte ← c.operand n
  match Register.ofByte? byte with
  | some r => .ok r
  | none => .error (.invalidRegister byte)

def withOperands (c : Cpu) : Opcode → Except Error Instruction
  | .hlt => .ok .hlt
  | .ret => .ok .ret
  | .push => .push <$> c.registerOperand 0
  | .pop => .pop <$> c.registerOperand 0
  | .prn => .prn <$> c.registerOperand 0
  | .call => .call <$> c.registerOperand 0
  | .jmp => .jmp <$> c.registerOperand 0
  | .jeq => .jeq <$> c.registerOperand 0
  | .jne => .jne <$> c.registerOperand 0
  | .ldi => do return .ldi (← c.registerOperand 0) (← c.operand 1)
  | .add => do return .add (← c.registerOperand 0) (← c.registerOperand 1)
  | .mul => do return .mul (← c.registerOperand 0) (← c.registerOperand 1)
  | .cmp => do return .cmp (← c.registerOperand 0) (← c.registerOperand 1)

def decode (c : Cpu) : Except Error Instruction := do
  c.withOperands (← c.opcode)

theorem fetch_eq_ok_iff {c : Cpu} {position : Nat} {byte : UInt8} :
    c.fetch position = .ok byte ↔ c.memory.fetch? position = some byte := by
  unfold fetch
  split <;> simp_all

/-- A position past the end of memory is the only one that cannot be read. -/
theorem fetch_eq_error_iff {c : Cpu} {position : Nat} {error : Error} :
    c.fetch position = .error error ↔ 256 ≤ position ∧ error = .addressOutOfRange position := by
  unfold fetch
  split
  · next byte h =>
    have : ¬ 256 ≤ position := fun hle => by simp [Memory.fetch?_eq_none_iff.2 hle] at h
    simp [this]
  · next h =>
    have := Memory.fetch?_eq_none_iff.1 h
    simp [this, eq_comm]

theorem lt_of_fetch_eq_ok {c : Cpu} {position : Nat} {byte : UInt8}
    (h : c.fetch position = .ok byte) : position < 256 := by
  apply Nat.lt_of_not_le
  intro hle
  rw [fetch_eq_error_iff.2 ⟨hle, rfl⟩] at h
  cases h

end Ls8.Cpu
