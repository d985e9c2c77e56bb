/-!
# Registers

The eight registers of the machine and the file that holds their values. The last register is the
stack pointer.
-/

namespace Ls8

abbrev Register := Fin 8

namespace Register

/-- The register that holds the stack pointer. -/
def sp : Register := Fin.last 7

/-- The register that an operand byte names. -/
def ofByte? (byte : UInt8) : Option Register :=
  if h : byte.toNat < 8 then some ⟨byte.toNat, h⟩ else none

/-- The operand byte that names a register. -/
def toByte (r : Register) : UInt8 :=
  UInt8.ofNat r.val

@[simp] theorem ofByte?_toByte (r : Register) : ofByte? r.toByte = some r := by
  revert r
  decide

@[simp] theorem toNat_toByte (r : Register) : r.toByte.toNat = r.val := by
  revert r
  decide

theorem ofByte?_eq_none_iff {byte : UInt8} : ofByte? byte = none ↔ 8 ≤ byte.toNat := by
  simp [ofByte?]

theorem ofByte?_eq_some_iff {byte : UInt8} {r : Register} :
    ofByte? byte = some r ↔ byte.toNat = r.val := by
  unfold ofByte?
  split
  · next h => simp [Fin.ext_iff]
  · next h =>
    have := r.isLt
    simp only [reduceCtorEq, false_iff]
    omega

end Register

abbrev Registers := Vector UInt8 8

namespace Registers

/-- Where the stack pointer stands when the machine is switched on: the stack grows down from
here. -/
def stackStart : UInt8 := 0xF3

def read (registers : Registers) (r : Register) : UInt8 :=
  registers[r]

def write (registers : Registers) (r : Register) (value : UInt8) : Registers :=
  registers.set r.val value r.isLt

def powerOn : Registers :=
  write (Vector.replicate 8 0) Register.sp stackStart

@[simp] theorem read_write_self (registers : Registers) (r : Register) (value : UInt8) :
    (registers.write r value).read r = value := by
  simp [read, write]

theorem read_write_of_ne (registers : Registers) {r s : Register} (h : s ≠ r) (value : UInt8) :
    (registers.write r value).read s = registers.read s := by
  have hval : ¬ r.val = s.val := fun e => h (Fin.ext e.symm)
  simp [read, write, hval]

/-- After a write, the register written holds the value and the others what they held. -/
theorem read_write (registers : Registers) (r s : Register) (value : UInt8) :
    (registers.write r value).read s = if s = r then value else registers.read s := by
  split
  · next h => rw [h, read_write_self]
  · next h => exact read_write_of_ne registers h value

/-- When the machine is switched on, only the stack pointer is not zero. -/
theorem read_powerOn (r : Register) :
    powerOn.read r = if r = Register.sp then stackStart else 0 := by
  rw [powerOn, read_write]
  simp [read]

end Registers

end Ls8
