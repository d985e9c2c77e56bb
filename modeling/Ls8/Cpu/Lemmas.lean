import Ls8.Cpu.Execute

/-!
# Facts about the processor

What the instructions that move the stack pointer do when they succeed, and what reading an
instruction and executing it say about where the instruction lies in memory. Main statements: an
instruction is decoded exactly where its bytes stand (`decode_eq_ok_iff`), and one that is executed
leaves the program counter no further than just past the end of memory (`pc_le_of_step`).
-/

namespace Ls8.Cpu

@[simp] theorem register_setRegister (c : Cpu) (r s : Register) (value : UInt8) :
    (c.setRegister r value).register s = if s = r then value else c.register s :=
  Registers.read_write c.registers r s value

@[simp] theorem register_store (c : Cpu) (address value : UInt8) (r : Register) :
    (c.store address value).register r = c.register r := rfl

@[simp] theorem sp_setRegister (c : Cpu) (r : Register) (value : UInt8) :
    (c.setRegister r value).sp = if Register.sp = r then value else c.sp :=
  register_setRegister c r Register.sp value

theorem toNat_add_one {value : UInt8} (h : value ≠ 255) : (value + 1).toNat = value.toNat + 1 := by
  have hlt := value.toNat_lt
  have hne : value.toNat ≠ 255 := fun e => h (UInt8.toNat_inj.1 e)
  have hone : (1 : UInt8).toNat = 1 := rfl
  rw [UInt8.toNat_add]
  omega

theorem toNat_sub_one {value : UInt8} (h : value ≠ 0) : (value - 1).toNat = value.toNat - 1 := by
  have hne : value.toNat ≠ 0 := fun e => h (UInt8.toNat_inj.1 e)
  have hle : (1 : UInt8) ≤ value := UInt8.le_iff_toNat_le.2 (Nat.one_le_iff_ne_zero.2 hne)
  exact UInt8.toNat_sub_of_le value 1 hle

theorem lowerStack_eq_ok {c lowered : Cpu} (h : c.lowerStack = .ok lowered) :
    c.sp ≠ 0 ∧ lowered = c.setRegister Register.sp (c.sp - 1) := by
  unfold lowerStack at h
  split at h
  · cases h
  · next hne =>
    cases h
    exact ⟨hne, rfl⟩

theorem raiseStack_eq_ok {c raised : Cpu} (h : c.raiseStack = .ok raised) :
    c.sp ≠ 255 ∧ raised = c.setRegister Register.sp (c.sp + 1) := by
  unfold raiseStack at h
  split at h
  · cases h
  · next hne =>
    cases h
    exact ⟨hne, rfl⟩

theorem opcode_eq_ok_iff {c : Cpu} {op : Opcode} :
    c.opcode = .ok op ↔ c.memory.fetch? c.pc = some op.byte := by
  unfold opcode
  cases hfetch : c.fetch c.pc with
  | error e =>
    have hnone := fetch_eq_error_iff.1 hfetch
    simp [bind, Except.bind, Memory.fetch?_eq_none_iff.2 hnone.1]
  | ok byte =>
    have hsome := fetch_eq_ok_iff.1 hfetch
    cases hop : Opcode.ofByte byte with
    | ok found =>
      have := Opcode.ofByte_eq_ok_iff.1 hop
      subst this
      simp only [bind, Except.bind, hop, Except.ok.injEq, hsome, Option.some.injEq]
      exact ⟨fun h => h ▸ rfl, fun h => by
        have := congrArg Opcode.ofByte h
        simpa using this⟩
    | error unknown =>
      have hnone := (Opcode.ofByte_eq_error_iff.1 hop).2
      simp only [bind, Except.bind, hop, reduceCtorEq, hsome, Option.some.injEq, false_iff]
      exact fun h => hnone op h.symm

theorem operand_eq_ok_iff {c : Cpu} {n : Nat} {byte : UInt8} :
    c.operand n = .ok byte ↔ c.memory.fetch? (c.pc + 1 + n) = some byte :=
  fetch_eq_ok_iff

theorem registerOperand_eq_ok_iff {c : Cpu} {n : Nat} {r : Register} :
    c.registerOperand n = .ok r ↔ c.memory.fetch? (c.pc + 1 + n) = some r.toByte := by
  unfold registerOperand
  cases hfetch : c.operand n with
  | error e =>
    have hnone := fetch_eq_error_iff.1 hfetch
    simp [bind, Except.bind, Memory.fetch?_eq_none_iff.2 hnone.1]
  | ok byte =>
    rw [operand_eq_ok_iff.1 hfetch]
    cases hr : Register.ofByte? byte with
    | none =>
      simp only [bind, Except.bind, hr, reduceCtorEq, Option.some.injEq, false_iff]
      intro h
      rw [h, Register.ofByte?_toByte] at hr
      cases hr
    | some found =>
      simp only [bind, Except.bind, hr, Except.ok.injEq, Option.some.injEq]
      have hval := Register.ofByte?_eq_some_iff.1 hr
      constructor
      · intro h
        subst h
        apply UInt8.toNat_inj.1
        rw [hval, Register.toNat_toByte]
      · intro h
        rw [h, Register.ofByte?_toByte] at hr
        exact (Option.some.inj hr).symm

@[simp] theorem ok_bind {α β : Type} (a : α) (f : α → Except Error β) :
    (Except.ok a >>= f) = f a := rfl

@[simp] theorem error_bind {α β : Type} (error : Error) (f : α → Except Error β) :
    (Except.error error >>= f) = .error error := rfl

@[simp] theorem map_ok {α β : Type} (f : α → β) (a : α) :
    (f <$> (.ok a : Except Error α)) = .ok (f a) := rfl

@[simp] theorem map_error {α β : Type} (f : α → β) (error : Error) :
    (f <$> (.error error : Except Error α)) = .error error := rfl

@[simp] theorem pure_eq_ok {α : Type} (a : α) : (pure a : Except Error α) = .ok a := rfl

theorem bind_eq_ok_iff {α β : Type} {x : Except Error α} {f : α → Except Error β} {b : β} :
    x >>= f = .ok b ↔ ∃ a, x = .ok a ∧ f a = .ok b := by
  cases x <;> simp [bind, Except.bind]

theorem map_eq_ok_iff {α β : Type} {x : Except Error α} {f : α → β} {b : β} :
    f <$> x = .ok b ↔ ∃ a, x = .ok a ∧ f a = b := by
  cases x <;> simp [Functor.map, Except.map]

theorem lt_of_registerOperand {c : Cpu} {n : Nat} {r : Register} (h : c.registerOperand n = .ok r) :
    c.pc + 1 + n < 256 := by
  obtain ⟨byte, hbyte, _⟩ := bind_eq_ok_iff.1 h
  exact lt_of_fetch_eq_ok hbyte

theorem pushed_eq_ok {c saved : Cpu} {value : Cpu → UInt8} (h : c.pushed value = .ok saved) :
    c.sp ≠ 0 ∧ saved = (c.setRegister Register.sp (c.sp - 1)).store (c.sp - 1)
      (value (c.setRegister Register.sp (c.sp - 1))) := by
  obtain ⟨lowered, hlowered, hstored⟩ := bind_eq_ok_iff.1 h
  obtain ⟨hne, rfl⟩ := lowerStack_eq_ok hlowered
  cases hstored
  refine ⟨hne, ?_⟩
  simp

/-- A return address is the position after the call, unless that is past the last byte. -/
theorem toNat_returnAddress {c : Cpu} {address : UInt8} (h : c.returnAddress = .ok address) :
    address.toNat = c.pc + 2 := by
  unfold returnAddress at h
  split at h
  · next hlt =>
    cases h
    exact UInt8.toNat_ofNat_of_lt hlt
  · cases h

/-! ## The instructions that move the stack pointer -/

theorem execute_push_eq_ok {c next : Cpu} {a : Register} (h : c.execute (.push a) = .ok next) :
    c.sp ≠ 0 ∧ next = ((c.setRegister Register.sp (c.sp - 1)).store (c.sp - 1)
      ((c.setRegister Register.sp (c.sp - 1)).register a)).advance .push := by
  obtain ⟨saved, hsaved, hlast⟩ := bind_eq_ok_iff.1 h
  obtain ⟨hsp, rfl⟩ := pushed_eq_ok hsaved
  cases hlast
  exact ⟨hsp, rfl⟩

/-- A call reads its register after the stack pointer has moved, and what it leaves on the stack is
the position after it. -/
theorem execute_call_eq_ok {c next : Cpu} {a : Register} (h : c.execute (.call a) = .ok next) :
    c.sp ≠ 0 ∧ ∃ back : UInt8, back.toNat = c.pc + 2 ∧
      next = ((c.setRegister Register.sp (c.sp - 1)).store (c.sp - 1) back).jump
        ((c.setRegister Register.sp (c.sp - 1)).register a) := by
  obtain ⟨back, hback, hrest⟩ := bind_eq_ok_iff.1 h
  obtain ⟨saved, hsaved, hlast⟩ := bind_eq_ok_iff.1 hrest
  obtain ⟨hsp, rfl⟩ := pushed_eq_ok hsaved
  cases hlast
  exact ⟨hsp, back, toNat_returnAddress hback, rfl⟩

/-- The stack pointer that a pop moves up is the one that the popped byte may just have become. -/
theorem execute_pop_eq_ok {c next : Cpu} {a : Register} (h : c.execute (.pop a) = .ok next) :
    (c.setRegister a c.top).sp ≠ 255 ∧ next = ((c.setRegister a c.top).setRegister Register.sp
      ((c.setRegister a c.top).sp + 1)).advance .pop := by
  obtain ⟨raised, hraised, hlast⟩ := bind_eq_ok_iff.1 h
  obtain ⟨hsp, rfl⟩ := raiseStack_eq_ok hraised
  cases hlast
  exact ⟨hsp, rfl⟩

theorem execute_ret_eq_ok {c next : Cpu} (h : c.execute .ret = .ok next) :
    c.sp ≠ 255 ∧ next = (c.setRegister Register.sp (c.sp + 1)).jump c.top := by
  obtain ⟨raised, hraised, hlast⟩ := bind_eq_ok_iff.1 h
  obtain ⟨hsp, rfl⟩ := raiseStack_eq_ok hraised
  cases hlast
  exact ⟨hsp, rfl⟩

/-! ## Where instructions lie and where they lead -/

/-- Reading operands gives an instruction of the operation they were read for. -/
theorem opcode_of_withOperands {c : Cpu} {op : Opcode} {i : Instruction}
    (h : c.withOperands op = .ok i) : i.opcode = op := by
  cases op with
  | hlt | ret =>
    cases h
    rfl
  | push | pop | prn | call | jmp | jeq | jne =>
    obtain ⟨a, _, rfl⟩ := map_eq_ok_iff.1 h
    rfl
  | ldi | add | mul | cmp =>
    obtain ⟨a, _, hrest⟩ := bind_eq_ok_iff.1 h
    obtain ⟨b, _, hlast⟩ := bind_eq_ok_iff.1 hrest
    cases hlast
    rfl

/-- Operands are read where their bytes stand, and nowhere else. -/
theorem withOperands_eq_ok_iff {c : Cpu} {i : Instruction} :
    c.withOperands i.opcode = .ok i ↔ c.memory.HoldsAt (c.pc + 1) i.operands := by
  cases i <;>
    simp [withOperands, Instruction.opcode, Instruction.operands, Memory.HoldsAt, map_eq_ok_iff,
      bind_eq_ok_iff, registerOperand_eq_ok_iff, operand_eq_ok_iff, pure, Except.pure]

/-- An instruction is decoded where its bytes stand, and nowhere else. -/
theorem decode_eq_ok_iff {c : Cpu} {i : Instruction} :
    c.decode = .ok i ↔ c.memory.HoldsAt c.pc i.encode := by
  rw [decode, bind_eq_ok_iff, Instruction.encode, Memory.HoldsAt]
  constructor
  · rintro ⟨op, hop, hoperands⟩
    have := opcode_of_withOperands hoperands
    subst this
    exact ⟨opcode_eq_ok_iff.1 hop, withOperands_eq_ok_iff.1 hoperands⟩
  · rintro ⟨hop, hoperands⟩
    exact ⟨i.opcode, opcode_eq_ok_iff.2 hop, withOperands_eq_ok_iff.2 hoperands⟩

/-- A decoded instruction lies inside memory as a whole. -/
theorem pc_add_width_le {c : Cpu} {i : Instruction} (h : c.decode = .ok i) :
    c.pc + i.width ≤ Memory.size := by
  rw [← i.length_encode]
  exact (decode_eq_ok_iff.1 h).add_length_le (List.cons_ne_nil _ _)

theorem pc_jump_lt (c : Cpu) (target : UInt8) : (c.jump target).pc < Memory.size :=
  target.toNat_lt

/-- Executing an instruction that lies inside memory leaves the program counter inside memory or
just past its end. -/
theorem pc_le_of_execute {c next : Cpu} {i : Instruction} (hinside : c.pc + i.width ≤ Memory.size)
    (h : c.execute i = .ok next) : next.pc ≤ Memory.size := by
  cases i with
  | hlt =>
    cases h
    exact Nat.le_trans (Nat.le_add_right _ _) hinside
  | ret =>
    obtain ⟨_, rfl⟩ := execute_ret_eq_ok h
    exact Nat.le_of_lt (pc_jump_lt _ _)
  | push a =>
    obtain ⟨_, rfl⟩ := execute_push_eq_ok h
    exact hinside
  | pop a =>
    obtain ⟨_, rfl⟩ := execute_pop_eq_ok h
    exact hinside
  | call a =>
    obtain ⟨_, back, _, rfl⟩ := execute_call_eq_ok h
    exact Nat.le_of_lt (pc_jump_lt _ _)
  | jmp a =>
    cases h
    exact Nat.le_of_lt (pc_jump_lt _ _)
  | jeq a =>
    cases h
    split
    · exact Nat.le_of_lt (pc_jump_lt _ _)
    · exact hinside
  | jne a =>
    cases h
    split
    · exact hinside
    · exact Nat.le_of_lt (pc_jump_lt _ _)
  | prn _ | ldi _ _ | add _ _ | mul _ _ | cmp _ _ =>
    cases h
    exact hinside

/-- Only one instruction halts the processor. -/
theorem halted_of_execute {c next : Cpu} {i : Instruction} (h : c.execute i = .ok next)
    (hi : i ≠ .hlt) : next.halted = c.halted := by
  cases i with
  | hlt => exact absurd rfl hi
  | ret =>
    obtain ⟨_, rfl⟩ := execute_ret_eq_ok h
    rfl
  | push a =>
    obtain ⟨_, rfl⟩ := execute_push_eq_ok h
    rfl
  | pop a =>
    obtain ⟨_, rfl⟩ := execute_pop_eq_ok h
    rfl
  | call a =>
    obtain ⟨_, back, _, rfl⟩ := execute_call_eq_ok h
    rfl
  | jeq _ | jne _ =>
    cases h
    split <;> rfl
  | prn _ | jmp _ | ldi _ _ | add _ _ | mul _ _ | cmp _ _ =>
    cases h
    rfl

/-- What a step that succeeds did: it decoded an instruction and executed it. -/
theorem step_eq_ok_iff {c next : Cpu} {printed : Option UInt8} :
    c.step = .ok (next, printed) ↔ c.halted = false ∧
      ∃ i, c.decode = .ok i ∧ c.execute i = .ok next ∧ printed = i.printed c.registers := by
  unfold step
  cases hhalted : c.halted with
  | true => simp
  | false =>
    simp only [Bool.false_eq_true, if_false, bind_eq_ok_iff, true_and]
    constructor
    · rintro ⟨i, hdecode, after, hexecute, hlast⟩
      cases hlast
      exact ⟨i, hdecode, hexecute, rfl⟩
    · rintro ⟨i, hdecode, hexecute, rfl⟩
      exact ⟨i, hdecode, next, hexecute, rfl⟩

end Ls8.Cpu
