import Ls8.Cpu.Lemmas

/-!
# Refusals of the processor

The errors that the processor itself gives and what they carry. Main statement: a step that is
refused while the processor is running gives one of these (`refusal_of_step`).
-/

namespace Ls8.Cpu

/-- Why a running processor refuses a step. No address is ever given but that of the program counter
and that of the first byte outside memory. -/
inductive Refusal (c : Cpu) : Error → Prop
  | illegalInstruction (opcode : UInt8) :
      c.memory.fetch? c.pc = some opcode → (∀ op : Opcode, op.byte ≠ opcode) →
      Refusal c (.illegalInstruction opcode c.pc)
  | addressOutOfRange : Refusal c (.addressOutOfRange (max c.pc 256))
  | invalidRegister (byte : UInt8) : 8 ≤ byte.toNat → Refusal c (.invalidRegister byte)
  | stackOverflow : c.sp = 0 → Refusal c .stackOverflow
  | stackUnderflow : Refusal c .stackUnderflow

theorem bind_eq_error {α β : Type} {x : Except Error α} {f : α → Except Error β} {error : Error}
    (h : x >>= f = .error error) : x = .error error ∨ ∃ a, x = .ok a ∧ f a = .error error := by
  cases x with
  | error found =>
    cases h
    exact .inl rfl
  | ok a => exact .inr ⟨a, rfl, h⟩

theorem map_eq_error {α β : Type} {x : Except Error α} {f : α → β} {error : Error}
    (h : f <$> x = .error error) : x = .error error := by
  cases x with
  | error found =>
    cases h
    rfl
  | ok a => cases h

variable {c : Cpu} {error : Error}

/-! ## Reading an instruction -/

theorem refusal_of_opcode (h : c.opcode = .error error) : c.Refusal error := by
  rcases bind_eq_error h with hfetch | ⟨byte, hbyte, hname⟩
  · obtain ⟨hout, rfl⟩ := fetch_eq_error_iff.1 hfetch
    have haddress : c.pc = max c.pc 256 := (Nat.max_eq_left hout).symm
    rw [haddress]
    exact .addressOutOfRange
  · cases hop : Opcode.ofByte byte with
    | ok op =>
      rw [hop] at hname
      cases hname
    | error unknown =>
      obtain ⟨rfl, hnone⟩ := Opcode.ofByte_eq_error_iff.1 hop
      rw [hop] at hname
      cases hname
      exact .illegalInstruction _ (fetch_eq_ok_iff.1 hbyte) hnone

/-- An operand that is missing is missing at the end of memory, as the byte before it was there. -/
theorem refusal_of_operand {n : Nat} (hbefore : c.pc + n < 256)
    (h : c.operand n = .error error) : c.Refusal error := by
  obtain ⟨hout, rfl⟩ := fetch_eq_error_iff.1 h
  have haddress : c.pc + 1 + n = max c.pc 256 := by
    have hpc : c.pc ≤ 256 := by omega
    rw [Nat.max_eq_right hpc]
    omega
  rw [haddress]
  exact .addressOutOfRange

theorem refusal_of_registerOperand {n : Nat} (hbefore : c.pc + n < 256)
    (h : c.registerOperand n = .error error) : c.Refusal error := by
  rcases bind_eq_error h with hoperand | ⟨byte, _, hname⟩
  · exact refusal_of_operand hbefore hoperand
  · cases hregister : Register.ofByte? byte with
    | some r =>
      rw [hregister] at hname
      cases hname
    | none =>
      rw [hregister] at hname
      cases hname
      exact .invalidRegister byte (Register.ofByte?_eq_none_iff.1 hregister)

theorem refusal_of_withOperands {op : Opcode} (hpc : c.pc < 256)
    (h : c.withOperands op = .error error) : c.Refusal error := by
  cases op with
  | hlt | ret => cases h
  | push | pop | prn | call | jmp | jeq | jne =>
    exact refusal_of_registerOperand hpc (map_eq_error h)
  | ldi =>
    rcases bind_eq_error h with hfirst | ⟨a, ha, hrest⟩
    · exact refusal_of_registerOperand hpc hfirst
    · rcases bind_eq_error hrest with hsecond | ⟨value, _, hlast⟩
      · exact refusal_of_operand (lt_of_registerOperand ha) hsecond
      · cases hlast
  | add | mul | cmp =>
    rcases bind_eq_error h with hfirst | ⟨a, ha, hrest⟩
    · exact refusal_of_registerOperand hpc hfirst
    · rcases bind_eq_error hrest with hsecond | ⟨b, _, hlast⟩
      · exact refusal_of_registerOperand (lt_of_registerOperand ha) hsecond
      · cases hlast

theorem refusal_of_decode (h : c.decode = .error error) : c.Refusal error := by
  rcases bind_eq_error h with hopcode | ⟨op, hop, hoperands⟩
  · exact refusal_of_opcode hopcode
  · obtain ⟨byte, hbyte, _⟩ := bind_eq_ok_iff.1 hop
    exact refusal_of_withOperands (lt_of_fetch_eq_ok hbyte) hoperands

/-! ## Executing it -/

theorem refusal_of_pushed {value : Cpu → UInt8} (h : c.pushed value = .error error) :
    c.Refusal error := by
  rcases bind_eq_error h with hlower | ⟨lowered, _, hstored⟩
  · unfold lowerStack at hlower
    split at hlower
    · next hsp =>
      cases hlower
      exact .stackOverflow hsp
    · cases hlower
  · cases hstored

/-- A processor that cannot raise its stack pointer underflows, as does the one it was made of. -/
theorem refusal_of_raiseStack {popped : Cpu} (h : popped.raiseStack = .error error) :
    c.Refusal error := by
  unfold raiseStack at h
  split at h
  · cases h
    exact .stackUnderflow
  · cases h

theorem refusal_of_returnAddress (hinside : c.after .call ≤ 256)
    (h : c.returnAddress = .error error) : c.Refusal error := by
  unfold returnAddress at h
  split at h
  · cases h
  · next hout =>
    cases h
    have haddress : c.after .call = max c.pc 256 := by
      have hpc : c.pc ≤ 256 := Nat.le_trans (Nat.le_add_right _ _) hinside
      rw [Nat.max_eq_right hpc]
      exact Nat.le_antisymm hinside (Nat.not_lt.1 hout)
    rw [haddress]
    exact .addressOutOfRange

theorem refusal_of_execute {i : Instruction} (hinside : c.pc + i.width ≤ 256)
    (h : c.execute i = .error error) : c.Refusal error := by
  cases i with
  | hlt | prn _ | jmp _ | jeq _ | jne _ | ldi _ _ | add _ _ | mul _ _ | cmp _ _ => cases h
  | ret =>
    rcases bind_eq_error h with hraise | ⟨raised, _, hlast⟩
    · exact refusal_of_raiseStack hraise
    · cases hlast
  | push a =>
    rcases bind_eq_error h with hpush | ⟨saved, _, hlast⟩
    · exact refusal_of_pushed hpush
    · cases hlast
  | pop a =>
    rcases bind_eq_error h with hraise | ⟨raised, _, hlast⟩
    · exact refusal_of_raiseStack hraise
    · cases hlast
  | call a =>
    rcases bind_eq_error h with hnext | ⟨next, _, hrest⟩
    · exact refusal_of_returnAddress hinside hnext
    · rcases bind_eq_error hrest with hpush | ⟨saved, _, hlast⟩
      · exact refusal_of_pushed hpush
      · cases hlast

/-- A step that is refused while the processor is running. -/
theorem refusal_of_step (hactive : c.halted = false) (h : c.step = .error error) :
    c.Refusal error := by
  rw [step, hactive, if_neg Bool.false_ne_true] at h
  rcases bind_eq_error h with hdecode | ⟨i, hdecode, hrest⟩
  · exact refusal_of_decode hdecode
  · rcases bind_eq_error hrest with hexecute | ⟨next, _, hlast⟩
    · exact refusal_of_execute (pc_add_width_le hdecode) hexecute
    · cases hlast

end Ls8.Cpu
