import Ls8.Cpu.Refusal
import Ls8.Machine.Action

/-!
# Loading and stepping

What each action comes to, said without the order in which it changes the machine. Main statements:
an instruction goes on exactly as its processor does and never crashes (`Action.run_step`), and an
image is placed in memory as a whole or not at all (`Action.run_load`). The two operations of the
machine are these actions.
-/

namespace Ls8

open Log (Record)

/-- What an operation comes to, as the result of an action that leaves these records. -/
def Outcome.result (outcome : Outcome) (records : List Record) :
    EStateM.Result Stop Watched Unit :=
  match outcome with
  | .ok m => .ok () ⟨m, records⟩
  | .error failure => .error (.refused failure.error) ⟨failure.machine, records⟩

/-- The records once an instruction at an address is done. -/
def Opcode.noted (address : Nat) (records : List Record) : Opcode → List Record
  | .hlt => records ++ [.halted address]
  | _ => records

/-- What the arithmetic unit makes of a processor. -/
def Alu.apply (op : Alu) (c : Cpu) (a b : Register) : Cpu :=
  match op with
  | .add => c.setRegister a (c.register a + c.register b)
  | .mul => c.setRegister a (c.register a * c.register b)
  | .cmp => { c with flags := .ofComparison (c.register a) (c.register b) }

namespace Machine

/-- Offers text to the sink, and goes on as `next` if the sink takes all of it. -/
def print (m : Machine) (text : List UInt8) (next : Cpu) : Outcome :=
  if m.out.fits text then .ok { toCpu := next, out := m.out.put text }
  else .error ⟨.output .full, { m with out := m.out.put text }⟩

/-- The text that shows what an instruction prints: decimal digits and a newline, if it prints. -/
def text : Option UInt8 → List UInt8
  | none => []
  | some value => Numeral.decimalLine value

/-- Goes on as the processor does. -/
def follow (m : Machine) : Except Error (Cpu × Option UInt8) → Outcome
  | .error error => .error ⟨error, m⟩
  | .ok (next, none) => .ok { m with toCpu := next }
  | .ok (next, some value) => m.print (Numeral.decimalLine value) next

/-- What an instruction comes to once it has been read. -/
def carriedOut (m : Machine) (i : Instruction) : Outcome :=
  m.follow (do
    let next ← m.toCpu.execute i
    return (next, i.printed m.registers))

/-- The records once the instruction at the program counter is done. -/
def executionNoted (m : Machine) (records : List Record) : List Record :=
  match m.toCpu.opcode with
  | .ok op => op.noted m.pc records
  | .error _ => records

/-- The records once a step is done: it may be logged, and it may halt the machine. -/
def stepNoted (m : Machine) (logged : Bool) (records : List Record) : List Record :=
  if m.halted then records
  else m.executionNoted (if logged then records ++ [.attempted m.trace] else records)

/-- A processor that prints nothing offers nothing to the sink. -/
theorem follow_ok (m : Machine) (next : Cpu) (printed : Option UInt8) :
    m.follow (.ok (next, printed)) = m.print (text printed) next := by
  cases printed with
  | none => simp [follow, print, text]
  | some value => rfl

end Machine

namespace Action

/-- What a processor's answer is as the result of an action that keeps the machine. -/
def answer {α : Type} : Except Error α → Action α
  | .ok value => pure value
  | .error error => refuse error

def settle (m : Watched) : Except Error Cpu → EStateM.Result Stop Watched Unit
  | .ok next => .ok () { m with toCpu := next }
  | .error error => .error (.refused error) m

section Run

variable {α : Type} {size : Nat} {m : Watched}

@[simp] theorem run_note (record : Record) :
    (note record).run m = .ok () { m with records := m.records ++ [record] } := rfl

@[simp] theorem run_refuse (error : Error) :
    (refuse error : Action α).run m = .error (.refused error) m := rfl

@[simp] theorem run_map {β : Type} (f : α → β) (x : Action α) :
    (f <$> x).run m = match x.run m with
      | .ok a s => .ok (f a) s
      | .error stop s => .error stop s := by
  show EStateM.map f x m = _
  unfold EStateM.map EStateM.run
  cases x m <;> rfl

@[simp] theorem run_answer_ok (value : α) : (answer (.ok value)).run m = .ok value m := rfl

@[simp] theorem run_answer_error (error : Error) :
    (answer (.error error) : Action α).run m = .error (.refused error) m := rfl

/-! ## Elements and words -/

theorem run_element (values : Vector UInt8 size) {index : Nat} (h : index < size) :
    (element values index).run m = .ok values[index] m := by
  simp [element, h]

theorem run_replaced (values : Vector UInt8 size) {index : Nat} (h : index < size)
    (value : UInt8) : (replaced values index value).run m = .ok (values.set index value h) m := by
  simp [replaced, h]

/-- Places in memory are far from the end of a word. -/
theorem lt_word_of_le {n : Nat} (h : n ≤ 512) : n < UInt64.size :=
  Nat.lt_of_le_of_lt h (by decide)

theorem run_sum {a b : Nat} (h : a + b < UInt64.size) : (sum a b).run m = .ok (a + b) m := by
  rw [sum, if_pos h]
  rfl

theorem run_increment {value : UInt8} (h : value ≠ 255) :
    (increment value).run m = .ok (value + 1) m := by
  have hlt := value.toNat_lt
  have hne : value.toNat ≠ 255 := fun e => h (UInt8.toNat_inj.1 e)
  have hroom : value.toNat + 1 < 256 := by omega
  simp [increment, hroom]

theorem run_decrement {value : UInt8} (h : value ≠ 0) :
    (decrement value).run m = .ok (value - 1) m := by
  have hne : value.toNat ≠ 0 := fun e => h (UInt8.toNat_inj.1 e)
  simp [decrement, Nat.pos_of_ne_zero hne]

@[simp] theorem run_element_register (registers : Registers) (r : Register) :
    (element registers r).run m = .ok (registers.read r) m :=
  run_element registers r.isLt

@[simp] theorem run_element_memory (memory : Memory) (address : UInt8) :
    (element memory address.toNat).run m = .ok (memory.read address) m :=
  run_element memory address.toNat_lt

@[simp] theorem run_replaced_register (registers : Registers) (r : Register) (value : UInt8) :
    (replaced registers r value).run m = .ok (registers.write r value) m :=
  run_replaced registers r.isLt value

@[simp] theorem run_replaced_memory (memory : Memory) (address value : UInt8) :
    (replaced memory address.toNat value).run m = .ok (memory.write address value) m :=
  run_replaced memory address.toNat_lt value

@[simp] theorem run_readRegister (r : Register) :
    (readRegister r).run m = .ok (m.register r) m := by
  simp [readRegister, Cpu.register]

@[simp] theorem run_writeRegister (r : Register) (value : UInt8) :
    (writeRegister r value).run m = .ok () { m with toCpu := m.toCpu.setRegister r value } := by
  simp [writeRegister, Cpu.setRegister]

@[simp] theorem run_readMemory (address : UInt8) :
    (readMemory address.toNat).run m = .ok (m.memory.read address) m := by
  simp [readMemory]

@[simp] theorem run_writeMemory (address value : UInt8) :
    (writeMemory address.toNat value).run m =
      .ok () { m with toCpu := m.toCpu.store address value } := by
  simp [writeMemory, Cpu.store]

/-! ## The parts that instructions share -/

@[simp] theorem run_fetch (position : Nat) :
    (fetch position).run m = (answer (m.toCpu.fetch position)).run m := by
  unfold fetch Cpu.fetch
  simp only [EStateM.run_bind, EStateM.run_get]
  cases m.memory.fetch? position <;> rfl

theorem run_operand {n : Nat} (hpc : m.pc < 256) (hn : n ≤ 1) :
    (operand n).run m = (answer (m.toCpu.operand n)).run m := by
  have hfirst : m.pc + 1 < UInt64.size := lt_word_of_le (by omega)
  have hsecond : m.pc + 1 + n < UInt64.size := lt_word_of_le (by omega)
  simp only [operand, EStateM.run_bind, EStateM.run_get, run_sum hfirst, run_sum hsecond,
    run_fetch, Cpu.operand]

theorem run_registerOperand {n : Nat} (hpc : m.pc < 256) (hn : n ≤ 1) :
    (registerOperand n).run m = (answer (Fin.val <$> m.toCpu.registerOperand n)).run m := by
  simp only [registerOperand, EStateM.run_bind, run_operand hpc hn, Cpu.registerOperand]
  cases m.toCpu.operand n with
  | error error => rfl
  | ok byte =>
    by_cases hlt : byte.toNat < 8
    · simp [Register.ofByte?, hlt]
    · simp [Register.ofByte?, hlt]

@[simp] theorem run_jump (target : UInt8) :
    (jump target).run m = .ok () { m with toCpu := m.toCpu.jump target } := rfl

theorem run_advance {op : Opcode} (hpc : m.pc < 256) :
    (advance op).run m = .ok () { m with toCpu := m.toCpu.advance op } := by
  have hwidth : op.width ≤ 3 := by cases op <;> decide
  have hsum : m.pc + op.width < UInt64.size := lt_word_of_le (by omega)
  simp [advance, run_sum hsum, Cpu.advance, Cpu.after]

theorem run_push {value : Registers → Action UInt8} {byte : Cpu → UInt8}
    (hvalue : ∀ s : Watched, (value s.registers).run s = .ok (byte s.toCpu) s) :
    (push value).run m = settle m (m.toCpu.pushed byte) := by
  have hread : m.register Register.sp = m.sp := rfl
  simp only [push, Cpu.pushed, Cpu.lowerStack, EStateM.run_bind, run_readRegister, hread]
  by_cases htop : m.sp = 0
  · simp [htop, settle]
  · have hbyte := hvalue { m with toCpu := m.toCpu.setRegister Register.sp (m.sp - 1) }
    simp [htop, settle, run_decrement htop, hbyte]

theorem run_popInto (a : Register) :
    (popInto a).run m = settle m (m.toCpu.setRegister a m.top).raiseStack := by
  have hread : m.registers.read Register.sp = m.sp := rfl
  have hwritten : (m.registers.write a (m.memory.read m.sp)).read Register.sp =
      (m.toCpu.setRegister a m.top).sp := rfl
  simp only [popInto, Cpu.raiseStack, EStateM.run_bind, EStateM.run_get, run_element_register,
    run_element_memory, run_replaced_register, hread, hwritten]
  by_cases htop : (m.toCpu.setRegister a m.top).sp = 255
  · simp only [htop, if_true, EStateM.run_bind, run_refuse, settle]
  · simp only [htop, if_false, EStateM.run_bind, EStateM.run_modify, run_increment htop,
      run_replaced_register, settle]
    rfl

theorem run_pop : pop.run m = match m.toCpu.raiseStack with
    | .ok raised => .ok m.top { m with toCpu := raised }
    | .error error => .error (.refused error) m := by
  have hread : m.register Register.sp = m.sp := rfl
  simp only [pop, Cpu.raiseStack, EStateM.run_bind, run_readRegister, hread]
  by_cases htop : m.sp = 255
  · simp only [htop, if_true, EStateM.run_bind, run_refuse]
  · simp only [htop, if_false, EStateM.run_bind, run_increment htop, run_writeRegister,
      run_readMemory]
    rfl

theorem run_print (text : List UInt8) : (print text).run m =
    if m.out.fits text then .ok () { m with out := m.out.put text }
    else .error (.refused (.output .full)) { m with out := m.out.put text } := by
  simp only [print, EStateM.run_bind, EStateM.run_get, EStateM.run_modify]
  split <;> simp

/-! ## The instructions -/

@[simp] theorem result_follow_error (error : Error) :
    (m.follow (.error error)).result m.records = .error (.refused error) m := rfl

@[simp] theorem result_follow_silent (next : Cpu) :
    (m.follow (.ok (next, none))).result m.records = .ok () { m with toCpu := next } := rfl

theorem run_jumpIf (hpc : m.pc < 256) (op : Opcode) (taken : Bool) :
    (jumpIf op taken).run m = settle m (do
      let a ← m.toCpu.registerOperand 0
      return if taken then m.toCpu.jump (m.register a) else m.toCpu.advance op) := by
  simp only [jumpIf, EStateM.run_bind, run_registerOperand hpc (Nat.zero_le 1)]
  cases m.toCpu.registerOperand 0 with
  | error error => simp [settle]
  | ok a => cases taken <;> simp [settle, run_advance hpc]

theorem run_alu (op : Alu) (a b : Register) :
    (alu op a b).run m = .ok () { m with toCpu := op.apply m.toCpu a b } := by
  simp only [alu, EStateM.run_bind, run_readRegister]
  cases op <;> simp [Alu.apply]

theorem run_aluInstruction (hpc : m.pc < 256) (op : Opcode) (alu' : Alu) :
    (aluInstruction op alu').run m = settle m (do
      let a ← m.toCpu.registerOperand 0
      let b ← m.toCpu.registerOperand 1
      return (alu'.apply m.toCpu a b).advance op) := by
  have hsecond := run_registerOperand hpc (Nat.le_refl 1)
  simp only [aluInstruction, EStateM.run_bind, run_registerOperand hpc (Nat.zero_le 1)]
  cases m.toCpu.registerOperand 0 with
  | error error => rfl
  | ok a =>
    simp only [Cpu.map_ok, Cpu.ok_bind, run_answer_ok, hsecond]
    cases m.toCpu.registerOperand 1 with
    | error error => rfl
    | ok b =>
      have hafter : (alu'.apply m.toCpu a b).pc < 256 := by cases alu' <;> exact hpc
      simp only [Cpu.map_ok, Cpu.ok_bind, run_answer_ok, run_alu]
      exact run_advance (m := { m with toCpu := alu'.apply m.toCpu a b }) hafter

/-- An instruction with one operand starts by reading the register that it names. -/
theorem run_withRegister (hpc : m.pc < 256) {body : Nat → Action Unit}
    {make : Register → Instruction}
    (hbody : ∀ a : Register, (body a).run m = (m.carriedOut (make a)).result m.records) :
    (registerOperand 0 >>= body).run m = (m.follow (do
      let i ← make <$> m.toCpu.registerOperand 0
      let next ← m.toCpu.execute i
      return (next, i.printed m.registers))).result m.records := by
  rw [EStateM.run_bind, run_registerOperand hpc (Nat.zero_le 1)]
  cases m.toCpu.registerOperand 0 with
  | error error => rfl
  | ok a => exact hbody a

theorem run_pushInstruction (hpc : m.pc < 256) (a : Register) :
    (do push fun registers => element registers a; advance .push : Action Unit).run m =
      (m.carriedOut (.push a)).result m.records := by
  have hpush : (push fun registers => element registers a).run m =
      settle m (m.toCpu.pushed fun c => c.register a) :=
    run_push fun s => run_element_register s.registers a
  simp only [EStateM.run_bind, hpush, Machine.carriedOut, Cpu.execute]
  cases hsaved : m.toCpu.pushed fun c => c.register a with
  | error error => rfl
  | ok saved =>
    have hafter : saved.pc < 256 := by
      rw [(Cpu.pushed_eq_ok hsaved).2]
      exact hpc
    exact run_advance (m := { m with toCpu := saved }) hafter

theorem run_popInstruction (hpc : m.pc < 256) (a : Register) :
    (do popInto a; advance .pop : Action Unit).run m = (m.carriedOut (.pop a)).result m.records := by
  simp only [EStateM.run_bind, run_popInto, Machine.carriedOut, Cpu.execute]
  cases hraised : (m.toCpu.setRegister a m.top).raiseStack with
  | error error => rfl
  | ok raised =>
    have hafter : raised.pc < 256 := by
      rw [(Cpu.raiseStack_eq_ok hraised).2]
      exact hpc
    exact run_advance (m := { m with toCpu := raised }) hafter

theorem run_prnInstruction (hpc : m.pc < 256) (a : Register) :
    (do print (Numeral.decimalLine (← readRegister a)); advance .prn : Action Unit).run m =
      (m.carriedOut (.prn a)).result m.records := by
  have hprinted : m.carriedOut (.prn a) =
      m.print (Numeral.decimalLine (m.register a)) (m.toCpu.advance .prn) := rfl
  simp only [EStateM.run_bind, run_readRegister, run_print, hprinted, Machine.print]
  by_cases hfits : m.out.fits (Numeral.decimalLine (m.register a)) = true
  · simp only [hfits, if_true]
    exact run_advance (m := { m with out := m.out.put _ }) hpc
  · simp only [hfits]
    rfl

theorem run_callInstruction (hpc : m.pc < 256) (a : Register) :
    (do
      let next ← sum (← get).pc Opcode.call.width
      if next < Memory.size then
        push fun _ => pure (UInt8.ofNat next)
        jump (← readRegister a)
      else refuse (.addressOutOfRange next) : Action Unit).run m =
      (m.carriedOut (.call a)).result m.records := by
  have hwidth : Opcode.call.width = 2 := rfl
  have hsum : m.pc + Opcode.call.width < UInt64.size := lt_word_of_le (by omega)
  simp only [EStateM.run_bind, EStateM.run_get, run_sum hsum, Machine.carriedOut, Cpu.execute,
    Cpu.returnAddress, Cpu.after]
  by_cases hnext : m.pc + Opcode.call.width < Memory.size
  · have hpush (next : UInt8) : (push fun _ => pure next).run m =
        settle m (m.toCpu.pushed fun _ => next) := run_push fun _ => rfl
    simp only [hnext, if_true, EStateM.run_bind, Cpu.ok_bind, hpush]
    cases m.toCpu.pushed _ with
    | error error => rfl
    | ok saved => simp [settle, Instruction.printed]
  · simp only [hnext, if_false]
    rfl

/-- Once its opcode is read, an instruction goes on exactly as the processor does. -/
theorem run_instruction (hpc : m.pc < 256) (op : Opcode) :
    (instruction op).run m = (m.follow (do
      let i ← m.toCpu.withOperands op
      let next ← m.toCpu.execute i
      return (next, i.printed m.registers))).result (op.noted m.pc m.records) := by
  cases op with
  | hlt => rfl
  | ret =>
    simp only [instruction, EStateM.run_bind, run_pop, Cpu.withOperands, Cpu.ok_bind, Cpu.execute]
    cases m.toCpu.raiseStack <;> rfl
  | push => exact run_withRegister hpc (run_pushInstruction hpc)
  | pop => exact run_withRegister hpc (run_popInstruction hpc)
  | prn => exact run_withRegister hpc (run_prnInstruction hpc)
  | call => exact run_withRegister hpc (run_callInstruction hpc)
  | jmp =>
    refine run_withRegister hpc fun a => ?_
    rw [EStateM.run_bind, run_readRegister]
    rfl
  | jeq =>
    simp only [instruction, EStateM.run_bind, EStateM.run_get, run_jumpIf hpc, Cpu.withOperands]
    cases m.toCpu.registerOperand 0 <;> rfl
  | jne =>
    simp only [instruction, EStateM.run_bind, EStateM.run_get, run_jumpIf hpc, Cpu.withOperands]
    cases m.toCpu.registerOperand 0 with
    | error error => rfl
    | ok a => cases hequal : m.flags.equal <;>
        simp [Cpu.execute, Instruction.printed, settle, hequal, Opcode.noted]
  | ldi =>
    have hfirst := run_registerOperand hpc (Nat.zero_le 1)
    have hsecond := run_operand hpc (Nat.le_refl 1)
    simp only [instruction, EStateM.run_bind, hfirst, Cpu.withOperands]
    cases m.toCpu.registerOperand 0 with
    | error error => rfl
    | ok a =>
      simp only [Cpu.map_ok, Cpu.ok_bind, run_answer_ok, hsecond]
      cases m.toCpu.operand 1 with
      | error error => rfl
      | ok value =>
        simp only [run_answer_ok, run_writeRegister]
        exact run_advance (m := { m with toCpu := m.toCpu.setRegister a value }) hpc
  | add | mul | cmp =>
    simp only [instruction, run_aluInstruction hpc, Cpu.withOperands]
    cases m.toCpu.registerOperand 0 with
    | error error => rfl
    | ok a => cases m.toCpu.registerOperand 1 <;> rfl

/-! ## The operations -/

theorem run_windowByte {offset : Nat} (h : m.pc + offset < UInt64.size) :
    (windowByte offset).run m = .ok (m.byteAt (m.pc + offset)) m := by
  simp [windowByte, run_sum h, Cpu.byteAt]

theorem run_trace (hpc : m.pc + 2 < UInt64.size) : trace.run m = .ok m.trace m := by
  have hfirst : m.pc + 0 < UInt64.size := by omega
  have hsecond : m.pc + 1 < UInt64.size := by omega
  simp [trace, run_windowByte hfirst, run_windowByte hsecond, run_windowByte hpc, Cpu.trace]

theorem run_execute : execute.run m = (m.follow (do
    let i ← m.toCpu.decode
    let next ← m.toCpu.execute i
    return (next, i.printed m.registers))).result (m.executionNoted m.records) := by
  simp only [execute, EStateM.run_bind, EStateM.run_get, run_fetch, Cpu.decode,
    Machine.executionNoted, Cpu.opcode]
  cases hbyte : m.toCpu.fetch m.pc with
  | error error => rfl
  | ok byte =>
    have hpc : m.pc < 256 := Cpu.lt_of_fetch_eq_ok hbyte
    simp only [run_answer_ok, Cpu.ok_bind]
    cases Opcode.ofByte byte with
    | error unknown => rfl
    | ok op => simp only [Cpu.ok_bind, run_instruction hpc]

/-- A step goes on exactly as the processor does, and notes down what it attempts. -/
theorem run_step {logged : Bool} (hpc : logged = true → m.pc + 2 < UInt64.size) :
    (step logged).run m = (m.follow m.toCpu.step).result (m.stepNoted logged m.records) := by
  simp only [step, Cpu.step, Machine.stepNoted, EStateM.run_bind, EStateM.run_get]
  by_cases hhalted : m.halted = true
  · simp [hhalted]
  · cases logged with
    | false => simp [hhalted, run_execute]
    | true =>
      have hexecute := run_execute (m := { m with records := m.records ++ [.attempted m.trace] })
      simp [hhalted, run_trace (hpc rfl), hexecute]

theorem run_copyToStart (bytes : List UInt8) (hsize : bytes.length ≤ Memory.size)
    (hzero : m.memory = Memory.zero) : (copyToStart bytes.length bytes).run m =
      .ok () { m with memory := Memory.ofImage bytes } := by
  have hcopied : (Vector.ofFn fun i : Fin 256 => bytes.getD i.val m.memory[i]) =
      Memory.ofImage bytes := by
    rw [hzero, Memory.ofImage]
    simp [Memory.zero]
  simp [copyToStart, Nat.not_lt.2 hsize, ← hcopied]

theorem run_load (bytes : List UInt8) : (load bytes).run m =
    if bytes.length ≤ Memory.size then
      .ok () ⟨{ toCpu := Cpu.booted bytes, out := m.out }, m.records ++ [.loaded bytes.length]⟩
    else .error (.refused (.programTooLarge bytes.length)) m := by
  by_cases hsize : bytes.length ≤ Memory.size
  · simp only [load, Nat.not_lt.2 hsize, hsize, if_true, if_false, EStateM.run_bind,
      EStateM.run_modify, run_writeRegister]
    rw [run_copyToStart bytes hsize rfl]
    rfl
  · simp [load, hsize, Nat.lt_of_not_le hsize]

end Run

/-! ## Actions that never crash -/

/-- An action does not crash on a machine, whatever has been noted down of it. -/
def CrashFree {α : Type} (action : Action α) (m : Machine) : Prop :=
  ∀ records cause left, action.run ⟨m, records⟩ ≠ .error (.crashed cause) left

/-- What an action that does not crash comes to when nobody watches. -/
def outcome (action : Action Unit) (m : Machine) (safe : CrashFree action m) : Outcome :=
  match h : action.run ⟨m, []⟩ with
  | .ok () next => .ok next.toMachine
  | .error (.refused error) left => .error ⟨error, left.toMachine⟩
  | .error (.crashed cause) left => absurd h (safe [] cause left)

section Outcome

variable {action : Action Unit} {m : Machine} {o : Outcome} {noted : List Record → List Record}

theorem crashFree_of_run (h : ∀ records, action.run ⟨m, records⟩ = o.result (noted records)) :
    CrashFree action m := by
  intro records cause left
  rw [h]
  cases o <;> simp [Outcome.result]

theorem outcome_of_run (h : ∀ records, action.run ⟨m, records⟩ = o.result (noted records)) :
    outcome action m (crashFree_of_run h) = o := by
  unfold outcome
  split
  · next after hrun =>
    rw [h] at hrun
    cases o <;> cases hrun
    rfl
  · next error left hrun =>
    rw [h] at hrun
    cases o <;> cases hrun
    rfl
  · next cause left hrun => exact absurd hrun (crashFree_of_run h [] cause left)

end Outcome

end Action

namespace Machine

/-- What placing bytes in memory comes to. -/
def placed (m : Machine) (bytes : List UInt8) : Outcome :=
  if bytes.length ≤ Memory.size then .ok { toCpu := Cpu.booted bytes, out := m.out }
  else .error ⟨.programTooLarge bytes.length, m⟩

/-- The records once bytes are placed in memory, if they are. -/
def placedNoted (bytes : List UInt8) (records : List Record) : List Record :=
  if bytes.length ≤ Memory.size then records ++ [.loaded bytes.length] else records

theorem run_load_eq_result (m : Machine) (bytes : List UInt8) (records : List Record) :
    (Action.load bytes).run ⟨m, records⟩ = (m.placed bytes).result (placedNoted bytes records) := by
  rw [Action.run_load, placed, placedNoted]
  split <;> rfl

theorem run_step_eq_result (m : Machine) (logged : Bool)
    (hpc : logged = true → m.pc + 2 < UInt64.size) (records : List Record) :
    (Action.step logged).run ⟨m, records⟩ =
      (m.follow m.toCpu.step).result (m.stepNoted logged records) :=
  Action.run_step hpc

/-- Switches the machine off and on and places an image at the start of its memory. Only what has
been printed stays. An image larger than memory is refused, and the machine goes on as it was. -/
def load {α : Type} [Image α] (m : Machine) (image : α) : Outcome :=
  Action.outcome (Action.load (Image.bytes image)) m
    (Action.crashFree_of_run (run_load_eq_result m _))

/-- Executes one instruction. -/
def step (m : Machine) : Outcome :=
  Action.outcome (Action.step false) m (Action.crashFree_of_run (run_step_eq_result m false nofun))

theorem load_eq {α : Type} [Image α] (m : Machine) (image : α) :
    m.load image = m.placed (Image.bytes image) :=
  Action.outcome_of_run (run_load_eq_result m _)

theorem step_eq (m : Machine) : m.step = m.follow m.toCpu.step :=
  Action.outcome_of_run (run_step_eq_result m false nofun)

/-- An image that fits starts the machine afresh, whatever it did before. -/
theorem load_of_fits {α : Type} [Image α] (m : Machine) {image : α}
    (h : (Image.bytes image).length ≤ Memory.size) :
    m.load image = .ok { toCpu := Cpu.booted (Image.bytes image), out := m.out } := by
  rw [load_eq, placed, if_pos h]

/-- An image that does not fit changes nothing. -/
theorem load_of_too_large {α : Type} [Image α] (m : Machine) {image : α}
    (h : Memory.size < (Image.bytes image).length) :
    m.load image = .error ⟨.programTooLarge (Image.bytes image).length, m⟩ := by
  rw [load_eq, placed, if_neg (Nat.not_le.2 h)]

theorem load_eq_ok {α : Type} [Image α] {m next : Machine} {image : α}
    (h : m.load image = .ok next) : (Image.bytes image).length ≤ Memory.size ∧
      next = { toCpu := Cpu.booted (Image.bytes image), out := m.out } := by
  rw [load_eq, placed] at h
  split at h
  · next hfits =>
    cases h
    exact ⟨hfits, rfl⟩
  · cases h

/-- What a step that succeeds did: the instruction at the program counter was executed, and the sink
took all that it prints. -/
theorem step_eq_ok_iff {m next : Machine} : m.step = .ok next ↔ m.halted = false ∧
    ∃ i, m.toCpu.decode = .ok i ∧ m.toCpu.execute i = .ok next.toCpu ∧
      m.out.fits (text (i.printed m.registers)) = true ∧
      next.out = m.out.put (text (i.printed m.registers)) := by
  rw [step_eq]
  constructor
  · intro h
    cases hcpu : m.toCpu.step with
    | error error => rw [hcpu] at h; cases h
    | ok done =>
      obtain ⟨after, printed⟩ := done
      obtain ⟨hactive, i, hdecode, hexecute, rfl⟩ := Cpu.step_eq_ok_iff.1 hcpu
      rw [hcpu, follow_ok, print] at h
      split at h
      · next hfits => cases h; exact ⟨hactive, i, hdecode, hexecute, hfits, rfl⟩
      · cases h
  · rintro ⟨hactive, i, hdecode, hexecute, hfits, hout⟩
    rw [Cpu.step_eq_ok_iff.2 ⟨hactive, i, hdecode, hexecute, rfl⟩, follow_ok, print, if_pos hfits,
      ← hout]

/-- A step executes the instruction whose bytes stand at the program counter. -/
theorem step_of_holdsAt {m : Machine} {i : Instruction} (hactive : m.halted = false)
    (hi : m.memory.HoldsAt m.pc i.encode) : m.step = m.carriedOut i := by
  have hcpu : m.toCpu.step = (do
      let next ← m.toCpu.execute i
      return (next, i.printed m.registers)) := by
    rw [Cpu.step, hactive, if_neg Bool.false_ne_true, Cpu.decode_eq_ok_iff.2 hi]
    rfl
  rw [step_eq, hcpu, carriedOut]

theorem execute_and_out_of_step {m next : Machine} {i : Instruction} (h : m.step = .ok next)
    (hi : m.memory.HoldsAt m.pc i.encode) :
    m.toCpu.execute i = .ok next.toCpu ∧ next.out = m.out.put (text (i.printed m.registers)) := by
  obtain ⟨_, j, hdecode, hexecute, _, hout⟩ := step_eq_ok_iff.1 h
  rw [Cpu.decode_eq_ok_iff.2 hi] at hdecode
  cases hdecode
  exact ⟨hexecute, hout⟩

theorem execute_of_step {m next : Machine} {i : Instruction} (h : m.step = .ok next)
    (hi : m.memory.HoldsAt m.pc i.encode) : m.toCpu.execute i = .ok next.toCpu :=
  (execute_and_out_of_step h hi).1

theorem out_of_step {m next : Machine} {i : Instruction} (h : m.step = .ok next)
    (hi : m.memory.HoldsAt m.pc i.encode) :
    next.out = m.out.put (text (i.printed m.registers)) :=
  (execute_and_out_of_step h hi).2

/-- An instruction that prints nothing takes the machine to where it takes the processor. -/
theorem step_of_execute {m : Machine} {c : Cpu} {i : Instruction} (hactive : m.halted = false)
    (hi : m.memory.HoldsAt m.pc i.encode) (hexecute : m.toCpu.execute i = .ok c)
    (hsilent : i.printed m.registers = none) : m.step = .ok { m with toCpu := c } := by
  rw [step_of_holdsAt hactive hi, carriedOut, hexecute, hsilent]
  rfl

/-- A step fails because the machine has halted, because its processor refuses it, or because the
sink does not take all that it prints. -/
theorem step_eq_error {m : Machine} {failure : Failure} (h : m.step = .error failure) :
    m.halted = true ∧ failure = ⟨.machineHalted, m⟩ ∨
    m.halted = false ∧ (m.toCpu.Refusal failure.error ∧ failure.machine = m ∨
      ∃ i, m.toCpu.decode = .ok i ∧ m.out.fits (text (i.printed m.registers)) = false ∧
        failure = ⟨.output .full, { m with out := m.out.put (text (i.printed m.registers)) }⟩) := by
  rw [step_eq] at h
  by_cases hhalted : m.halted = true
  · rw [Cpu.step_of_halted hhalted] at h
    cases h
    exact .inl ⟨hhalted, rfl⟩
  · have hactive : m.halted = false := Bool.not_eq_true _ ▸ hhalted
    refine .inr ⟨hactive, ?_⟩
    cases hcpu : m.toCpu.step with
    | error error =>
      rw [hcpu] at h
      cases h
      exact .inl ⟨Cpu.refusal_of_step hactive hcpu, rfl⟩
    | ok done =>
      obtain ⟨next, printed⟩ := done
      obtain ⟨_, i, hdecode, _, rfl⟩ := Cpu.step_eq_ok_iff.1 hcpu
      rw [hcpu, follow_ok, print] at h
      split at h
      · cases h
      · next hfull =>
        cases h
        exact .inr ⟨i, hdecode, Bool.not_eq_true _ ▸ hfull, rfl⟩

/-- A halted machine is refused every step. -/
theorem step_of_halted {m : Machine} (h : m.halted = true) :
    m.step = .error ⟨.machineHalted, m⟩ := by
  rw [step_eq, Cpu.step_of_halted h, follow]

/-- A refused step leaves the processor as it was. -/
theorem toCpu_of_step_error {m : Machine} {failure : Failure} (h : m.step = .error failure) :
    failure.machine.toCpu = m.toCpu := by
  rcases step_eq_error h with ⟨_, rfl⟩ | ⟨_, ⟨_, hm⟩ | ⟨i, _, _, rfl⟩⟩
  · rfl
  · rw [hm]
  · rfl

/-- No other step fails for having halted than that of a halted machine. -/
theorem halted_iff_of_step_error {m : Machine} {failure : Failure} (h : m.step = .error failure) :
    m.halted = true ↔ failure.error = .machineHalted := by
  rcases step_eq_error h with ⟨hhalted, rfl⟩ | ⟨hactive, ⟨hrefusal, _⟩ | ⟨i, _, _, rfl⟩⟩
  · exact ⟨fun _ => rfl, fun _ => hhalted⟩
  · constructor
    · intro hhalted
      rw [hactive] at hhalted
      cases hhalted
    · intro herror
      rw [herror] at hrefusal
      cases hrefusal
  · simp [hactive]

theorem toCpu_of_step_hlt {m next : Machine} (h : m.step = .ok next)
    (hi : m.memory.HoldsAt m.pc Instruction.hlt.encode) :
    next.toCpu = { m.toCpu with halted := true } :=
  (Except.ok.inj (execute_of_step h hi)).symm

/-- Of the steps that succeed, only that of a halt leaves the machine halted. -/
theorem halted_iff_of_step_ok {m next : Machine} {i : Instruction} (h : m.step = .ok next)
    (hi : m.memory.HoldsAt m.pc i.encode) : next.halted = true ↔ i = .hlt := by
  constructor
  · intro hhalted
    apply Decidable.byContradiction
    intro hne
    have hsame := Cpu.halted_of_execute (execute_of_step h hi) hne
    rw [hhalted, (step_eq_ok_iff.1 h).1] at hsame
    cases hsame
  · rintro rfl
    exact congrArg Cpu.halted (toCpu_of_step_hlt h hi)

/-- No step leaves the program counter further than just past the end of memory. -/
theorem pc_le_of_step_ok {m next : Machine} (h : m.step = .ok next) : next.pc ≤ 256 := by
  obtain ⟨_, i, hdecode, hexecute, _⟩ := step_eq_ok_iff.1 h
  exact Cpu.pc_le_of_execute (Cpu.pc_add_width_le hdecode) hexecute

/-- A refused step leaves it where it was. -/
theorem pc_step_le {m : Machine} (h : m.pc ≤ 256) : m.step.machine.pc ≤ 256 := by
  cases hstep : m.step with
  | error failure =>
    rw [Outcome.machine, toCpu_of_step_error hstep]
    exact h
  | ok next => exact pc_le_of_step_ok hstep

/-- Whether a step succeeds or not, the sink keeps what it holds. -/
theorem taken_isPrefix_step (m : Machine) :
    m.out.taken.toList <+: m.step.machine.out.taken.toList := by
  rw [step_eq]
  unfold follow print
  split
  · exact List.prefix_rfl
  · exact List.prefix_rfl
  · split <;> exact m.out.toList_taken_put _ ▸ List.prefix_append _ _

end Machine

end Ls8
