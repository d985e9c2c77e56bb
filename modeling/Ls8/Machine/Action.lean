import Ls8.Log
import Ls8.Machine.Basic

/-!
# Actions

The operations of the machine as they go about their work: reads, checks, writes and notes on one
machine, in the order in which they happen. An action that stops before its end leaves whatever it
has changed and noted down until then. Places in memory and registers are counted here, and each
count is looked at when it is used: one that is off would crash the action, which is something else
than being refused.
-/

namespace Ls8

/-- A mistake that no check of the machine answers for. -/
inductive Crash where
  /-- An element at `index` is looked for among `size` elements. -/
  | indexOutOfRange (index size : Nat)
  /-- A sum or a difference does not fit where it belongs. -/
  | overflow
  /-- Bytes are copied over a number of bytes that is not theirs. -/
  | lengthMismatch (source target : Nat)
  deriving DecidableEq, Repr

/-- Why an action stops before its end. -/
inductive Stop where
  | refused (error : Error)
  | crashed (cause : Crash)
  deriving DecidableEq, Repr

/-- A machine that is watched at work. -/
structure Watched extends Machine where
  /-- What has been noted down of it, in order. -/
  records : List Log.Record := []
  deriving DecidableEq, Repr

abbrev Action := EStateM Stop Watched

/-- The three things that the arithmetic unit does with two registers. -/
inductive Alu where
  | add
  | mul
  | cmp
  deriving DecidableEq, Repr

namespace Action

def refuse {α : Type} (error : Error) : Action α :=
  throw (.refused error)

def crash {α : Type} (cause : Crash) : Action α :=
  throw (.crashed cause)

def note (record : Log.Record) : Action Unit :=
  modify fun m => { m with records := m.records ++ [record] }

/-! ## Elements and words -/

def element {size : Nat} (values : Vector UInt8 size) (index : Nat) : Action UInt8 :=
  match values[index]? with
  | some value => pure value
  | none => crash (.indexOutOfRange index size)

def replaced {size : Nat} (values : Vector UInt8 size) (index : Nat) (value : UInt8) :
    Action (Vector UInt8 size) :=
  if h : index < size then pure (values.set index value h)
  else crash (.indexOutOfRange index size)

/-- The sum of two counts, which has to fit a word of 64 bits. -/
def sum (a b : Nat) : Action Nat :=
  if a + b < UInt64.size then pure (a + b) else crash .overflow

def increment (value : UInt8) : Action UInt8 :=
  if value.toNat + 1 < 256 then pure (value + 1) else crash .overflow

def decrement (value : UInt8) : Action UInt8 :=
  if 0 < value.toNat then pure (value - 1) else crash .overflow

def readRegister (index : Nat) : Action UInt8 := do
  element (← get).registers index

def writeRegister (index : Nat) (value : UInt8) : Action Unit := do
  let registers ← replaced (← get).registers index value
  modify fun m => { m with registers := registers }

def readMemory (index : Nat) : Action UInt8 := do
  element (← get).memory index

def writeMemory (index : Nat) (value : UInt8) : Action Unit := do
  let memory ← replaced (← get).memory index value
  modify fun m => { m with memory := memory }

/-! ## The parts that instructions share -/

/-- The byte at a position that has to be inside memory; being outside is an answer, not a crash. -/
def fetch (position : Nat) : Action UInt8 := do
  match (← get).memory.fetch? position with
  | some byte => pure byte
  | none => refuse (.addressOutOfRange position)

def operand (n : Nat) : Action UInt8 := do
  let first ← sum (← get).pc 1
  fetch (← sum first n)

def registerOperand (n : Nat) : Action Nat := do
  let byte ← operand n
  if byte.toNat < 8 then pure byte.toNat else refuse (.invalidRegister byte)

def advance (op : Opcode) : Action Unit := do
  let next ← sum (← get).pc op.width
  modify fun m => { m with pc := next }

def jump (target : UInt8) : Action Unit :=
  modify fun m => { m with pc := target.toNat }

/-- Moves the stack pointer down and stores a byte where it then points. The byte is worked out in
between, from the registers with the new stack pointer. -/
def push (value : Registers → Action UInt8) : Action Unit := do
  let top ← readRegister Register.sp
  if top = 0 then refuse .stackOverflow
  let lowered ← decrement top
  writeRegister Register.sp lowered
  let byte ← value (← get).registers
  writeMemory lowered.toNat byte

/-- Takes a byte off the stack into a register. The stack pointer is moved after the register is
written, on a copy of the registers that becomes theirs only at the end. -/
def popInto (a : Nat) : Action Unit := do
  let registers := (← get).registers
  let byte ← element (← get).memory (← element registers Register.sp).toNat
  let registers ← replaced registers a byte
  let top ← element registers Register.sp
  if top = 255 then refuse .stackUnderflow
  let registers ← replaced registers Register.sp (← increment top)
  modify fun m => { m with registers := registers }

def pop : Action UInt8 := do
  let top ← readRegister Register.sp
  if top = 255 then refuse .stackUnderflow
  writeRegister Register.sp (← increment top)
  readMemory top.toNat

def alu (op : Alu) (a b : Nat) : Action Unit := do
  let left ← readRegister a
  let right ← readRegister b
  match op with
  | .add => writeRegister a (left + right)
  | .mul => writeRegister a (left * right)
  | .cmp => modify fun m => { m with flags := .ofComparison left right }

/-- Offers text to the sink. The sink keeps what it takes of it even if that is not all. -/
def print (text : List UInt8) : Action Unit := do
  let out := (← get).out
  modify fun m => { m with out := out.put text }
  if out.fits text then pure () else refuse (.output .full)

/-! ## The instructions -/

def jumpIf (op : Opcode) (taken : Bool) : Action Unit := do
  let a ← registerOperand 0
  if taken then jump (← readRegister a) else advance op

def aluInstruction (op : Opcode) (alu' : Alu) : Action Unit := do
  let a ← registerOperand 0
  let b ← registerOperand 1
  alu alu' a b
  advance op

def instruction : Opcode → Action Unit
  | .hlt => do
    modify fun m => { m with halted := true }
    note (.halted (← get).pc)
  | .ret => do jump (← pop)
  | .push => do
    let a ← registerOperand 0
    push fun registers => element registers a
    advance .push
  | .pop => do
    let a ← registerOperand 0
    popInto a
    advance .pop
  | .prn => do
    let a ← registerOperand 0
    print (Numeral.decimalLine (← readRegister a))
    advance .prn
  | .call => do
    let a ← registerOperand 0
    let next ← sum (← get).pc Opcode.call.width
    if next < Memory.size then
      push fun _ => pure (UInt8.ofNat next)
      jump (← readRegister a)
    else refuse (.addressOutOfRange next)
  | .jmp => do
    let a ← registerOperand 0
    jump (← readRegister a)
  | .jeq => do jumpIf .jeq (← get).flags.equal
  | .jne => do jumpIf .jne (!(← get).flags.equal)
  | .ldi => do
    let a ← registerOperand 0
    let value ← operand 1
    writeRegister a value
    advance .ldi
  | .add => aluInstruction .add .add
  | .mul => aluInstruction .mul .mul
  | .cmp => aluInstruction .cmp .cmp

/-! ## The operations -/

def windowByte (offset : Nat) : Action UInt8 := do
  let position ← sum (← get).pc offset
  return ((← get).memory.fetch? position).getD 0

def trace : Action Trace := do
  let window := #v[← windowByte 0, ← windowByte 1, ← windowByte 2]
  return { pc := (← get).pc, window := window, registers := (← get).registers }

/-- Executes the instruction at the program counter. -/
def execute : Action Unit := do
  let address := (← get).pc
  match Opcode.ofByte (← fetch address) with
  | .ok op => instruction op
  | .error unknown => refuse (.illegalInstruction unknown.byte address)

/-- One instruction. When the step is `logged`, a trace of the machine is noted down before it. -/
def step (logged : Bool) : Action Unit := do
  if (← get).halted then refuse .machineHalted
  if logged then note (.attempted (← trace))
  execute

/-- Steps until the machine halts or a step fails, but no more than a number of them. -/
def stepUpTo (logged : Bool) : Nat → Action Unit
  | 0 => pure ()
  | n + 1 => do
    if (← get).halted then pure ()
    else
      step logged
      stepUpTo logged n

/-- Copies bytes over the first `count` bytes of memory, which have to be as many. -/
def copyToStart (count : Nat) (bytes : List UInt8) : Action Unit := do
  if Memory.size < count then crash (.indexOutOfRange count Memory.size)
  if bytes.length ≠ count then crash (.lengthMismatch bytes.length count)
  let memory := (← get).memory
  modify fun m => { m with memory := Vector.ofFn fun i => bytes.getD i.val memory[i] }

def load (bytes : List UInt8) : Action Unit := do
  if Memory.size < bytes.length then refuse (.programTooLarge bytes.length)
  modify fun m => { m with pc := 0 }
  modify fun m => { m with memory := Memory.zero }
  modify fun m => { m with registers := Vector.replicate 8 0 }
  writeRegister Register.sp Registers.stackStart
  modify fun m => { m with flags := Flags.clear }
  modify fun m => { m with halted := false }
  copyToStart bytes.length bytes
  note (.loaded bytes.length)

end Action

end Ls8
