import Ls8.Proofs.Reachable

/-!
# Which error a step gives

The checks of a step in the order in which they decide, read off the machine alone. Main statement:
the error of a step is the first of them that fails, and a step succeeds when none does
(`error?_step_eq_verdict`).
-/

namespace Ls8

/-- The error of an answer, if it is one. -/
def errorOf {α : Type} : Except Error α → Option Error
  | .ok _ => none
  | .error error => some error

@[simp] theorem errorOf_ok {α : Type} (value : α) : errorOf (.ok value) = none := rfl

@[simp] theorem errorOf_error {α : Type} (error : Error) :
    errorOf (.error error : Except Error α) = some error := rfl

theorem errorOf_map {α β : Type} (f : α → β) (answer : Except Error α) :
    errorOf (f <$> answer) = errorOf answer := by
  cases answer <;> rfl

/-- What goes wrong first goes wrong. -/
theorem errorOf_bind {α β : Type} (answer : Except Error α) (next : α → Except Error β) :
    errorOf (answer >>= next) = match answer with
      | .ok value => errorOf (next value)
      | .error error => some error := by
  cases answer <;> rfl

theorem errorOf_bind_ok {α β : Type} (answer : Except Error α) (f : α → β) :
    errorOf (answer >>= fun value => .ok (f value)) = errorOf answer := by
  cases answer <;> rfl

namespace Cpu

/-! ## The checks -/

/-- The operand byte `n` places after the opcode has to be in memory. -/
def valueFault (c : Cpu) (n : Nat) : Option Error :=
  if 256 ≤ c.pc + n then some (.addressOutOfRange 256) else none

/-- The operand byte `n` places after the opcode has to be in memory and to be at most seven. -/
def registerFault (c : Cpu) (n : Nat) : Option Error :=
  if 256 ≤ c.pc + n then some (.addressOutOfRange 256)
  else if 7 < (c.byteAt (c.pc + n)).toNat then some (.invalidRegister (c.byteAt (c.pc + n)))
  else none

/-- The operands are checked from left to right. -/
def operandFault (c : Cpu) : Opcode → Option Error
  | .hlt | .ret => none
  | .push | .pop | .prn | .call | .jmp | .jeq | .jne => c.registerFault 1
  | .ldi => c.registerFault 1 <|> c.valueFault 2
  | .add | .mul | .cmp => c.registerFault 1 <|> c.registerFault 2

/-- The stack pointer as a pop has to move it up: the popped byte may be the new one. -/
def poppedSp (c : Cpu) : UInt8 :=
  if c.byteAt (c.pc + 1) = 7 then c.top else c.sp

/-- What stands in the way of an instruction whose operands are in order. -/
def stackFault (c : Cpu) : Opcode → Option Error
  | .call =>
    if c.pc = 254 then some (.addressOutOfRange 256)
    else if c.sp = 0 then some .stackOverflow
    else none
  | .push => if c.sp = 0 then some .stackOverflow else none
  | .ret => if c.sp = 255 then some .stackUnderflow else none
  | .pop => if c.poppedSp = 255 then some .stackUnderflow else none
  | _ => none

/-- The value of the register that the first operand byte names. -/
def operandValue (c : Cpu) : UInt8 :=
  c.registers.toList.getD (c.byteAt (c.pc + 1)).toNat 0

end Cpu

namespace Machine

/-- The sink has to take the whole text of what is printed: decimal digits and a newline. -/
def sinkFault (m : Machine) : Opcode → Option Error
  | .prn =>
    match m.out.limit with
    | none => none
    | some limit =>
      if m.out.taken.size + ((toString m.operandValue.toNat).length + 1) ≤ limit then none
      else some (.output .full)
  | _ => none

/-- The first check that fails of an operation. -/
def fault (m : Machine) (op : Opcode) : Option Error :=
  m.operandFault op <|> m.stackFault op <|> m.sinkFault op

/-- The first check of a step that fails. -/
def verdict (m : Machine) : Option Error :=
  if m.halted then some .machineHalted
  else if m.pc = 256 then some (.addressOutOfRange 256)
  else if ∀ op : Opcode, op.byte ≠ m.byteAt m.pc
    then some (.illegalInstruction (m.byteAt m.pc) m.pc)
  else Opcode.all.findSome? fun op => if op.byte = m.byteAt m.pc then m.fault op else none

end Machine

/-- Among the operations, the one with a certain byte is the only one that is looked at. -/
theorem Opcode.findSome?_byte (op : Opcode) (fault : Opcode → Option Error) :
    (all.findSome? fun other => if other.byte = op.byte then fault other else none) = fault op := by
  have hsame : (fun other : Opcode => if other.byte = op.byte then fault other else none) =
      fun other => if other.byte = op.byte then fault op else none := by
    funext other
    split
    · next hbyte =>
      have hother := ofByte_byte other
      rw [hbyte, ofByte_byte] at hother
      rw [Except.ok.inj hother]
    · rfl
  rw [hsame]
  cases fault op <;> cases op <;> rfl

namespace Cpu

variable {c : Cpu}

/-! ## Reading an instruction -/

theorem fetch_of_lt {position : Nat} (h : position < 256) :
    c.fetch position = .ok (c.byteAt position) := by
  unfold fetch byteAt
  cases hbyte : c.memory.fetch? position with
  | none => exact absurd (Memory.fetch?_eq_none_iff.1 hbyte) (Nat.not_le.2 h)
  | some byte => rfl

theorem fetch_end : c.fetch 256 = .error (.addressOutOfRange 256) :=
  fetch_eq_error_iff.2 ⟨Nat.le_refl 256, rfl⟩

theorem opcode_of_known (hpc : c.pc < 256) {op : Opcode} (h : op.byte = c.byteAt c.pc) :
    c.opcode = .ok op := by
  rw [opcode, fetch_of_lt hpc, ok_bind, Opcode.ofByte_eq_ok_iff.2 h]

theorem opcode_of_unknown (hpc : c.pc < 256) (h : ∀ op : Opcode, op.byte ≠ c.byteAt c.pc) :
    c.opcode = .error (.illegalInstruction (c.byteAt c.pc) c.pc) := by
  have hunknown : Opcode.ofByte (c.byteAt c.pc) = .error ⟨c.byteAt c.pc⟩ :=
    Opcode.ofByte_eq_error_iff.2 ⟨rfl, h⟩
  rw [opcode, fetch_of_lt hpc, ok_bind, hunknown]

theorem errorOf_operand {n : Nat} (hpc : c.pc + 1 + n ≤ 256) :
    errorOf (c.operand n) = c.valueFault (n + 1) := by
  have hposition : c.pc + (n + 1) = c.pc + 1 + n := by omega
  rw [operand, valueFault, hposition]
  by_cases hlt : c.pc + 1 + n < 256
  · rw [fetch_of_lt hlt, if_neg (Nat.not_le.2 hlt), errorOf_ok]
  · have hend : c.pc + 1 + n = 256 := by omega
    rw [hend, fetch_end, if_pos (Nat.le_refl 256), errorOf_error]

theorem errorOf_registerOperand {n : Nat} (hpc : c.pc + 1 + n ≤ 256) :
    errorOf (c.registerOperand n) = c.registerFault (n + 1) := by
  have hposition : c.pc + (n + 1) = c.pc + 1 + n := by omega
  rw [registerOperand, operand, registerFault, hposition]
  by_cases hlt : c.pc + 1 + n < 256
  · rw [fetch_of_lt hlt, if_neg (Nat.not_le.2 hlt), ok_bind]
    by_cases hregister : 7 < (c.byteAt (c.pc + 1 + n)).toNat
    · rw [if_pos hregister, Register.ofByte?_eq_none_iff.2 hregister, errorOf_error]
    · have hsmall : (c.byteAt (c.pc + 1 + n)).toNat < 8 := by omega
      rw [if_neg hregister, Register.ofByte?, dif_pos hsmall, errorOf_ok]
  · have hend : c.pc + 1 + n = 256 := by omega
    rw [hend, fetch_end, if_pos (Nat.le_refl 256), error_bind, errorOf_error]

theorem errorOf_withOperands (hpc : c.pc < 256) (op : Opcode) :
    errorOf (c.withOperands op) = c.operandFault op := by
  have hfirst := errorOf_registerOperand (n := 0) (Nat.succ_le_of_lt hpc)
  cases op with
  | hlt | ret => rfl
  | push | pop | prn | call | jmp | jeq | jne =>
    rw [withOperands, errorOf_map, hfirst, operandFault]
  | ldi =>
    rw [withOperands, errorOf_bind, operandFault, ← hfirst]
    cases ha : c.registerOperand 0 with
    | error error => rfl
    | ok a =>
      have hroom : c.pc + 1 + 1 ≤ 256 := lt_of_registerOperand ha
      exact (errorOf_bind_ok _ _).trans (errorOf_operand hroom)
  | add | mul | cmp =>
    rw [withOperands, errorOf_bind, operandFault, ← hfirst]
    cases ha : c.registerOperand 0 with
    | error error => rfl
    | ok a =>
      have hroom : c.pc + 1 + 1 ≤ 256 := lt_of_registerOperand ha
      exact (errorOf_bind_ok _ _).trans (errorOf_registerOperand hroom)

/-! ## Executing it -/

theorem errorOf_raiseStack :
    errorOf c.raiseStack = if c.sp = 255 then some .stackUnderflow else none := by
  unfold raiseStack
  split <;> rfl

theorem errorOf_pushed (value : Cpu → UInt8) :
    errorOf (c.pushed value) = if c.sp = 0 then some .stackOverflow else none := by
  unfold pushed lowerStack
  split <;> rfl

theorem byteAt_of_fetch? {position : Nat} {byte : UInt8}
    (h : c.memory.fetch? position = some byte) : c.byteAt position = byte := by
  rw [byteAt, h, Option.getD_some]

/-- The register that a pop writes is the stack pointer just when its operand byte is seven. -/
theorem sp_popped {a : Register} (h : c.byteAt (c.pc + 1) = a.toByte) :
    (c.setRegister a c.top).sp = c.poppedSp := by
  have hseven : ∀ r : Register, Register.sp = r ↔ r.toByte = 7 := by decide
  rw [sp_setRegister, poppedSp, h]
  by_cases hsp : Register.sp = a
  · rw [if_pos hsp, if_pos ((hseven a).1 hsp)]
  · rw [if_neg hsp, if_neg (mt (hseven a).2 hsp)]

theorem errorOf_execute {i : Instruction} (h : c.memory.HoldsAt c.pc i.encode) :
    errorOf (c.execute i) = c.stackFault i.opcode := by
  have hinside : c.pc + i.width ≤ 256 := pc_add_width_le (decode_eq_ok_iff.2 h)
  cases i with
  | hlt | prn | jmp | jeq | jne | ldi | add | mul | cmp => rfl
  | ret => exact (errorOf_bind_ok _ _).trans errorOf_raiseStack
  | push a => exact (errorOf_bind_ok _ _).trans (errorOf_pushed _)
  | pop a =>
    -- the stack pointer that is checked is the one after the popped byte is written
    have hbyte : c.byteAt (c.pc + 1) = a.toByte := byteAt_of_fetch? h.2.1
    rw [execute, Instruction.opcode, stackFault, ← sp_popped hbyte, ← errorOf_raiseStack]
    exact errorOf_bind_ok _ _
  | call a =>
    have hafter : c.after .call = c.pc + 2 := rfl
    have hwidth : (Instruction.call a).width = 2 := Opcode.width_eq .call
    rw [hwidth] at hinside
    rw [execute, returnAddress, Instruction.opcode, stackFault, hafter]
    by_cases hlast : c.pc = 254
    · have hnext : ¬ c.pc + 2 < Memory.size := by
        rw [hlast]
        decide
      rw [if_pos hlast, if_neg hnext, error_bind, errorOf_error, hlast]
    · have hnext : c.pc + 2 < 256 := by omega
      rw [if_neg hlast, if_pos hnext, ok_bind]
      exact (errorOf_bind_ok _ _).trans (errorOf_pushed _)

theorem operandValue_of_holdsAt {a : Register} (h : c.byteAt (c.pc + 1) = a.toByte) :
    c.operandValue = c.register a := by
  have hvalue : c.registers.toList[a.val]? = some (c.registers.read a) := by
    simp [Registers.read]
  rw [operandValue, h, Register.toNat_toByte, List.getD_eq_getElem?_getD, hvalue, Option.getD_some,
    register]

end Cpu

namespace Machine

variable {m : Machine}

/-- A line fits if it ends before the limit, if there is one. -/
theorem fits_decimalLine (out : Sink) (value : UInt8) :
    out.fits (Numeral.decimalLine value) = match out.limit with
      | none => true
      | some limit => decide (out.taken.size + ((toString value.toNat).length + 1) ≤ limit) := by
  have hlength : (Numeral.decimalLine value).length = (toString value.toNat).length + 1 := by
    rw [Numeral.decimalLine_eq, List.length_map, List.length_append, String.length_toList]
    rfl
  unfold Sink.fits Sink.room
  cases out.limit with
  | none => rfl
  | some limit =>
    have hroom : (toString value.toNat).length + 1 ≤ limit - out.taken.size ↔
        out.taken.size + ((toString value.toNat).length + 1) ≤ limit := by omega
    simp only [Option.map_some, hlength, hroom]

theorem sinkFault_of_holdsAt {i : Instruction} (h : m.memory.HoldsAt m.pc i.encode) :
    m.sinkFault i.opcode =
      if m.out.fits (text (i.printed m.registers)) then none else some (.output .full) := by
  cases i with
  | prn a =>
    have hvalue : m.operandValue = m.registers.read a :=
      Cpu.operandValue_of_holdsAt (Cpu.byteAt_of_fetch? h.2.1)
    rw [Instruction.opcode, sinkFault, hvalue, Instruction.printed, text, fits_decimalLine]
    cases m.out.limit with
    | none => rfl
    | some limit => simp
  | _ => simp [Instruction.opcode, sinkFault, Instruction.printed, text]

theorem error?_print (text : List UInt8) (next : Cpu) :
    (m.print text next).error? = if m.out.fits text then none else some (.output .full) := by
  unfold print
  split <;> rfl

/-- The error of a step is the first check that fails, and there is none when no check does. -/
theorem error?_step_eq_verdict (h : Reachable m) : m.step.error? = m.verdict := by
  rw [verdict]
  by_cases hhalted : m.halted = true
  · rw [if_pos hhalted, step_of_halted hhalted]
    rfl
  · rw [if_neg hhalted, step_eq, Cpu.step, if_neg hhalted, Cpu.decode]
    by_cases hend : m.pc = 256
    · rw [if_pos hend, Cpu.opcode, hend, Cpu.fetch_end]
      rfl
    · have hpc : m.pc < 256 := Nat.lt_of_le_of_ne h.pc_le hend
      rw [if_neg hend]
      by_cases hnone : ∀ op : Opcode, op.byte ≠ m.byteAt m.pc
      · rw [if_pos hnone, Cpu.opcode_of_unknown hpc hnone]
        rfl
      · obtain ⟨op, hop⟩ : ∃ op : Opcode, op.byte = m.byteAt m.pc := by
          simpa using hnone
        have hoperands := Cpu.errorOf_withOperands hpc op
        rw [if_neg hnone, Cpu.opcode_of_known hpc hop, Cpu.ok_bind, ← hop,
          Opcode.findSome?_byte, fault]
        cases hread : m.toCpu.withOperands op with
        | error error =>
          rw [hread, errorOf_error] at hoperands
          rw [← hoperands]
          rfl
        | ok i =>
          have hdecode : m.toCpu.decode = .ok i := by
            rw [Cpu.decode, Cpu.opcode_of_known hpc hop, Cpu.ok_bind, hread]
          have hholds := Cpu.decode_eq_ok_iff.1 hdecode
          have hexecute := Cpu.errorOf_execute hholds
          have hsink := sinkFault_of_holdsAt hholds
          rw [Cpu.opcode_of_withOperands hread] at hexecute hsink
          rw [hread, errorOf_ok] at hoperands
          rw [← hoperands, ← hexecute, hsink, Cpu.ok_bind]
          cases m.toCpu.execute i with
          | error error => rfl
          | ok next =>
            rw [Cpu.ok_bind, Cpu.pure_eq_ok, follow_ok, error?_print]
            rfl

/-- A machine about to execute a call in the last two bytes of memory, with no room left on the
stack either. -/
def corneredCall : Machine :=
  let setUp := (new.load [0b10000010, 7, 0, 0b10000010, 0, 254, 0b01010100, (0 : UInt8)]).machine
  (setUp.write 254 0b01010000).step.machine.step.machine.step.machine

theorem reachable_corneredCall : Reachable corneredCall := by
  have hloaded : Reachable (new.load [0b10000010, 7, 0, 0b10000010, 0, 254, 0b01010100,
      (0 : UInt8)]).machine := (Reachable.start Sink.unlimited).load _
  exact (hloaded.write 254 0b01010000).step.step.step

/-- Of the two checks that fail for a cornered call, that of the return address decides. -/
theorem error?_step_corneredCall :
    Reachable corneredCall ∧ corneredCall.pc = 254 ∧ corneredCall.sp = 0 ∧
      corneredCall.step.error? = some (.addressOutOfRange 256) := by
  have hverdict : corneredCall.verdict = some (.addressOutOfRange 256) := by decide +kernel
  have hstep := error?_step_eq_verdict reachable_corneredCall
  exact ⟨reachable_corneredCall, by decide +kernel, by decide +kernel, hstep.trans hverdict⟩

end Machine

end Ls8
