import Ls8.Proofs.ErrorDecision

/-!
# The bounds of the stack

The stack pointer moves down to the first byte of memory and up to the last, and an instruction that
would move it further is refused. A pop into the stack pointer is judged by the byte that it pops, and
not by where that stood. Main statement: which instructions give the two errors of the stack, and when
(`error?_of_stack_bounds`).
-/

namespace Ls8

/-- The errors that say that the stack pointer has come to an end of memory. -/
def Error.ofStack : Error → Bool
  | .stackOverflow | .stackUnderflow => true
  | .illegalInstruction _ _ | .addressOutOfRange _ | .invalidRegister _ | .programTooLarge _
  | .machineHalted | .output _ => false

namespace Cpu

variable {c : Cpu} {error : Error}

/-! ## Reading an instruction takes no stack -/

theorem ofStack_of_opcode (h : c.opcode = .error error) : error.ofStack = false := by
  rcases bind_eq_error h with hfetch | ⟨byte, _, hname⟩
  · obtain ⟨_, rfl⟩ := fetch_eq_error_iff.1 hfetch
    rfl
  · split at hname <;> cases hname
    rfl

theorem ofStack_of_valueFault {n : Nat} (h : c.valueFault n = some error) :
    error.ofStack = false := by
  unfold valueFault at h
  split at h <;> cases h
  rfl

theorem ofStack_of_registerFault {n : Nat} (h : c.registerFault n = some error) :
    error.ofStack = false := by
  unfold registerFault at h
  split at h
  · cases h
    rfl
  · split at h <;> cases h
    rfl

theorem ofStack_of_operandFault {op : Opcode} (h : c.operandFault op = some error) :
    error.ofStack = false := by
  cases op with
  | hlt | ret => cases h
  | push | pop | prn | call | jmp | jeq | jne => exact ofStack_of_registerFault h
  | ldi =>
    rw [operandFault, Option.orElse_eq_orElse, Option.orElse_eq_or, Option.or_eq_some_iff] at h
    exact h.elim ofStack_of_registerFault fun hsecond => ofStack_of_valueFault hsecond.2
  | add | mul | cmp =>
    rw [operandFault, Option.orElse_eq_orElse, Option.orElse_eq_or, Option.or_eq_some_iff] at h
    exact h.elim ofStack_of_registerFault fun hsecond => ofStack_of_registerFault hsecond.2

theorem ofStack_of_decode (h : c.decode = .error error) : error.ofStack = false := by
  rcases bind_eq_error h with hopcode | ⟨op, hop, hoperands⟩
  · exact ofStack_of_opcode hopcode
  · obtain ⟨byte, hbyte, _⟩ := bind_eq_ok_iff.1 hop
    have hfault := errorOf_withOperands (lt_of_fetch_eq_ok hbyte) op
    rw [hoperands, errorOf_error] at hfault
    exact ofStack_of_operandFault hfault.symm

/-! ## The instructions that take stack -/

theorem stackFault_push : c.stackFault .push = some .stackOverflow ↔ c.sp = 0 := by
  simp [stackFault]

theorem stackFault_call :
    c.stackFault .call = some .stackOverflow ↔ c.pc ≠ 254 ∧ c.sp = 0 := by
  by_cases hlast : c.pc = 254 <;> simp [stackFault, hlast]

theorem stackFault_ret : c.stackFault .ret = some .stackUnderflow ↔ c.sp = 255 := by
  simp [stackFault]

/-- A pop is judged by the stack pointer that the popped byte has left. -/
theorem stackFault_pop {a : Register} (h : c.memory.HoldsAt c.pc (Instruction.pop a).encode) :
    c.stackFault .pop = some .stackUnderflow ↔
      (if a = Register.sp then c.memory.read c.sp else c.sp) = 255 := by
  have hsp : (c.setRegister a c.top).sp =
      if a = Register.sp then c.memory.read c.sp else c.sp := by
    simp only [sp_setRegister, top, eq_comm]
  rw [← hsp, sp_popped (byteAt_of_fetch? h.2.1)]
  simp [stackFault]

/-- What overflows the stack pushes a byte; a call whose return address is outside memory is refused
for that first. -/
theorem exists_of_stackOverflow {i : Instruction} (hinside : c.pc + i.width ≤ 256)
    (h : c.stackFault i.opcode = some .stackOverflow) :
    (∃ a, i = .push a) ∨ (∃ a, i = .call a) ∧ c.pc < 254 := by
  cases i with
  | push a => exact .inl ⟨a, rfl⟩
  | call a =>
    have hwidth : (Instruction.call a).width = 2 := Opcode.width_eq .call
    have hlast : c.pc ≠ 254 := (stackFault_call.1 h).1
    rw [hwidth] at hinside
    exact .inr ⟨⟨a, rfl⟩, by omega⟩
  | ret | pop a =>
    simp only [Instruction.opcode, stackFault] at h
    split at h <;> cases h
  | hlt | prn _ | jmp _ | jeq _ | jne _ | ldi _ _ | add _ _ | mul _ _ | cmp _ _ => cases h

theorem exists_of_stackUnderflow {i : Instruction}
    (h : c.stackFault i.opcode = some .stackUnderflow) : i = .ret ∨ ∃ a, i = .pop a := by
  cases i with
  | ret => exact .inl rfl
  | pop a => exact .inr ⟨a, rfl⟩
  | push a =>
    simp only [Instruction.opcode, stackFault] at h
    split at h <;> cases h
  | call a =>
    simp only [Instruction.opcode, stackFault] at h
    split at h
    · cases h
    · split at h <;> cases h
  | hlt | prn _ | jmp _ | jeq _ | jne _ | ldi _ _ | add _ _ | mul _ _ | cmp _ _ => cases h

end Cpu

namespace Machine

variable {m : Machine}

/-- A step gives an error of the stack just when its instruction takes more stack than there is. -/
theorem error?_step_iff_stackFault {error : Error} (hstack : error.ofStack = true)
    (hactive : m.halted = false) {i : Instruction} (hi : m.memory.HoldsAt m.pc i.encode) :
    m.step.error? = some error ↔ m.stackFault i.opcode = some error := by
  rw [step_eq, Cpu.step, hactive, if_neg Bool.false_ne_true, Cpu.decode_eq_ok_iff.2 hi,
    Cpu.ok_bind, ← Cpu.errorOf_execute hi]
  cases m.toCpu.execute i with
  | error found => rfl
  | ok next =>
    -- what can still fail is the sink, with an error of its own
    rw [Cpu.ok_bind, Cpu.pure_eq_ok, follow_ok, error?_print, errorOf_ok]
    split
    · rfl
    · constructor
      · intro h
        cases h
        cases hstack
      · intro h
        cases h

/-- An error of the stack comes from an instruction, which was read whole. -/
theorem exists_of_error?_step {error : Error} (hstack : error.ofStack = true)
    (h : m.step.error? = some error) : ∃ i : Instruction,
      m.memory.HoldsAt m.pc i.encode ∧ m.stackFault i.opcode = some error := by
  by_cases hhalted : m.halted = true
  · rw [step_of_halted hhalted] at h
    cases h
    cases hstack
  · cases hdecode : m.toCpu.decode with
    | error found =>
      rw [step_eq, Cpu.step, if_neg hhalted, hdecode] at h
      cases h
      rw [Cpu.ofStack_of_decode hdecode] at hstack
      cases hstack
    | ok i =>
      have hi := Cpu.decode_eq_ok_iff.1 hdecode
      exact ⟨i, hi, (error?_step_iff_stackFault hstack (Bool.not_eq_true _ ▸ hhalted) hi).1 h⟩

/-- A push, or a call with a return address in memory, overflows the stack just when the stack pointer
is zero. A return underflows it just when the stack pointer is 255, and so does a pop, but for a pop
into the stack pointer itself: that underflows just when the byte that it pops is 255, wherever the
stack pointer is. Nothing else gives either error. -/
theorem error?_of_stack_bounds (hactive : m.halted = false) :
    (∀ a : Register,
      (m.memory.HoldsAt m.pc (Instruction.push a).encode →
        (m.step.error? = some .stackOverflow ↔ m.sp = 0)) ∧
      (m.memory.HoldsAt m.pc (Instruction.call a).encode → m.pc < 254 →
        (m.step.error? = some .stackOverflow ↔ m.sp = 0)) ∧
      (m.memory.HoldsAt m.pc (Instruction.pop a).encode →
        (m.step.error? = some .stackUnderflow ↔
          (if a = Register.sp then m.read m.sp else m.sp) = 255))) ∧
    (m.memory.HoldsAt m.pc Instruction.ret.encode →
      (m.step.error? = some .stackUnderflow ↔ m.sp = 255)) ∧
    (m.step.error? = some .stackOverflow → ∃ a : Register,
      m.memory.HoldsAt m.pc (Instruction.push a).encode ∨
      m.memory.HoldsAt m.pc (Instruction.call a).encode ∧ m.pc < 254) ∧
    (m.step.error? = some .stackUnderflow →
      m.memory.HoldsAt m.pc Instruction.ret.encode ∨
      ∃ a : Register, m.memory.HoldsAt m.pc (Instruction.pop a).encode) := by
  refine ⟨fun a => ⟨?_, ?_, ?_⟩, ?_, ?_, ?_⟩
  · intro hpush
    exact (error?_step_iff_stackFault rfl hactive hpush).trans Cpu.stackFault_push
  · intro hcall hpc
    refine (error?_step_iff_stackFault rfl hactive hcall).trans (Cpu.stackFault_call.trans ?_)
    exact and_iff_right (Nat.ne_of_lt hpc)
  · intro hpop
    exact (error?_step_iff_stackFault rfl hactive hpop).trans (Cpu.stackFault_pop hpop)
  · intro hret
    exact (error?_step_iff_stackFault rfl hactive hret).trans Cpu.stackFault_ret
  · intro h
    obtain ⟨i, hi, hfault⟩ := exists_of_error?_step rfl h
    have hinside := Cpu.pc_add_width_le (Cpu.decode_eq_ok_iff.2 hi)
    rcases Cpu.exists_of_stackOverflow hinside hfault with ⟨a, rfl⟩ | ⟨⟨a, rfl⟩, hpc⟩
    · exact ⟨a, .inl hi⟩
    · exact ⟨a, .inr ⟨hi, hpc⟩⟩
  · intro h
    obtain ⟨i, hi, hfault⟩ := exists_of_error?_step rfl h
    rcases Cpu.exists_of_stackUnderflow hfault with rfl | ⟨a, rfl⟩
    · exact .inl hi
    · exact .inr ⟨a, hi⟩

/-- A machine about to pop the last byte of memory, which is zero, into its stack pointer. -/
def poppingLast : Machine :=
  (new.load [0b10000010, 7, 255, 0b01000110, (7 : UInt8)]).machine.step.machine

/-- A machine about to pop the byte 255, which stands behind its program, into its stack pointer. -/
def poppingHighest : Machine :=
  (new.load [0b10000010, 7, 5, 0b01000110, 7, (255 : UInt8)]).machine.step.machine

theorem error?_of_stack_bounds_poppingHighest :
    poppingHighest.halted = false ∧ poppingHighest.read poppingHighest.sp = 255 ∧
      poppingHighest.step.error? = some .stackUnderflow := by
  have hactive : poppingHighest.halted = false := by decide +kernel
  have hpop : poppingHighest.memory.HoldsAt poppingHighest.pc
      (Instruction.pop Register.sp).encode := by decide +kernel
  have hbyte : poppingHighest.read poppingHighest.sp = 255 := by decide +kernel
  have hiff := ((error?_of_stack_bounds hactive).1 Register.sp).2.2 hpop
  exact ⟨hactive, hbyte, hiff.2 (by rw [if_pos rfl, hbyte])⟩

/-- The stack pointer alone does not decide about a pop into it: at the end of memory that may
succeed, and below it may fail. -/
theorem pop_sp_not_decided_by_sp :
    (Reachable poppingLast ∧ poppingLast.halted = false ∧
      poppingLast.memory.HoldsAt poppingLast.pc (Instruction.pop Register.sp).encode ∧
      poppingLast.sp = 255 ∧ poppingLast.step.error? = none) ∧
    (Reachable poppingHighest ∧ poppingHighest.halted = false ∧
      poppingHighest.memory.HoldsAt poppingHighest.pc (Instruction.pop Register.sp).encode ∧
      poppingHighest.sp = 5 ∧ poppingHighest.step.error? = some .stackUnderflow) := by
  have hlast : Reachable poppingLast := ((Reachable.start Sink.unlimited).load _).step
  have hhighest : Reachable poppingHighest := ((Reachable.start Sink.unlimited).load _).step
  exact ⟨⟨hlast, by decide +kernel⟩, ⟨hhighest, by decide +kernel⟩⟩

end Machine

end Ls8
