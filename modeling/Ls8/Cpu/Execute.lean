import Ls8.Cpu.Decode

/-!
# Execution

What each instruction does to the processor. A refused instruction gives no new processor at all, so
nothing of it can be half done.
-/

namespace Ls8.Cpu

/-- Puts a byte on the stack. The byte may depend on the processor after the stack pointer has
moved, so that pushing the stack pointer stores its new value. -/
def pushed (c : Cpu) (value : Cpu → UInt8) : Except Error Cpu := do
  let lowered ← c.lowerStack
  return lowered.store lowered.sp (value lowered)

/-- The address after a call, which has to be one that a byte can hold. -/
def returnAddress (c : Cpu) : Except Error UInt8 :=
  if c.after .call < Memory.size then .ok (UInt8.ofNat (c.after .call))
  else .error (.addressOutOfRange (c.after .call))

/-- The processor after an instruction at its program counter. -/
def execute (c : Cpu) : Instruction → Except Error Cpu
  | .hlt => .ok { c with halted := true }
  | .ret => do
    let raised ← c.raiseStack
    return raised.jump c.top
  | .push a => do
    let saved ← c.pushed (·.register a)
    return saved.advance .push
  | .pop a => do
    let raised ← (c.setRegister a c.top).raiseStack
    return raised.advance .pop
  | .prn _ => .ok (c.advance .prn)
  | .call a => do
    let next ← c.returnAddress
    let saved ← c.pushed fun _ => next
    return saved.jump (saved.register a)
  | .jmp a => .ok (c.jump (c.register a))
  | .jeq a => .ok (if c.flags.equal then c.jump (c.register a) else c.advance .jeq)
  | .jne a => .ok (if c.flags.equal then c.advance .jne else c.jump (c.register a))
  | .ldi a value => .ok ((c.setRegister a value).advance .ldi)
  | .add a b => .ok ((c.setRegister a (c.register a + c.register b)).advance .add)
  | .mul a b => .ok ((c.setRegister a (c.register a * c.register b)).advance .mul)
  | .cmp a b =>
    .ok ({ c with flags := .ofComparison (c.register a) (c.register b) }.advance .cmp)

/-- One instruction: the processor after it, and the value that it prints, if it prints. -/
def step (c : Cpu) : Except Error (Cpu × Option UInt8) :=
  if c.halted then .error .machineHalted
  else do
    let instruction ← c.decode
    let next ← c.execute instruction
    return (next, instruction.printed c.registers)

theorem step_of_halted {c : Cpu} (h : c.halted = true) : c.step = .error .machineHalted := by
  simp [step, h]

end Ls8.Cpu
