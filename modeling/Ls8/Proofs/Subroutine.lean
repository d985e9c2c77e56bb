import Ls8.Proofs.ListStack

/-!
# Calls and returns

A call leaves the address after it in a slot of memory, just below where the stack pointer stood.
Main statement: as long as nothing else is put into that slot, a return that takes what is in it goes
back to the call, whatever was executed in between (`ret_resumes_after_call`).
-/

namespace Ls8

/-- Whether an instruction puts a byte on the stack. -/
def Instruction.stores : Instruction → Bool
  | push _ | call _ => true
  | _ => false

namespace Cpu

variable {c next : Cpu} {i : Instruction}

/-- Memory after a move of the stack: a byte is put just below the stack pointer. -/
def memoryAfter (c : Cpu) : StackMove → Memory
  | .put byte => c.memory.write (c.sp - 1) byte
  | .take | .stay => c.memory

/-- An instruction changes memory by its move of the stack, wherever the stack pointer is and
whatever becomes of it. -/
theorem memory_of_execute (h : c.execute i = .ok next) :
    next.memory = c.memoryAfter (c.stackMove i) := by
  cases i with
  | push a =>
    obtain ⟨_, rfl⟩ := execute_push_eq_ok h
    rfl
  | call a =>
    obtain ⟨_, back, hback, rfl⟩ := execute_call_eq_ok h
    rw [stackMove, ← hback, UInt8.ofNat_toNat]
    rfl
  | ret =>
    obtain ⟨_, rfl⟩ := execute_ret_eq_ok h
    rfl
  | pop a =>
    obtain ⟨_, rfl⟩ := execute_pop_eq_ok h
    rfl
  | jeq _ | jne _ =>
    cases h
    show (if _ then _ else _ : Cpu).memory = _
    split <;> rfl
  | hlt | prn _ | jmp _ | ldi _ _ | add _ _ | mul _ _ | cmp _ _ =>
    cases h
    rfl

theorem stores_of_stackMove {byte : UInt8} (h : c.stackMove i = .put byte) : i.stores = true := by
  cases i with
  | push _ | call _ => rfl
  | _ => cases h

/-- A byte is kept by every instruction but one that puts something in its place. -/
theorem read_of_execute (h : c.execute i = .ok next) {base : UInt8}
    (hbase : i.stores = true → c.sp ≠ base) :
    next.memory.read (base - 1) = c.memory.read (base - 1) := by
  rw [memory_of_execute h]
  cases hmove : c.stackMove i with
  | put byte =>
    have hne : base - 1 ≠ c.sp - 1 := by
      intro heq
      have hsame := congrArg (· + 1) heq
      simp only [UInt8.sub_add_cancel] at hsame
      exact hbase (stores_of_stackMove hmove) hsame.symm
    exact Memory.read_write_of_ne c.memory hne byte
  | take => rfl
  | stay => rfl

/-- A call that succeeds leaves the position after it, which is inside memory, below the stack. -/
theorem slot_of_call {a : Register} (h : c.execute (.call a) = .ok next) :
    c.sp ≠ 0 ∧ (next.memory.read (c.sp - 1)).toNat = c.pc + 2 := by
  obtain ⟨hsp, back, hback, rfl⟩ := execute_call_eq_ok h
  refine ⟨hsp, ?_⟩
  rw [← hback]
  exact congrArg UInt8.toNat (Memory.read_write_self _ _ _)

theorem execute_ret (h : c.sp ≠ 255) :
    c.execute .ret = .ok ((c.setRegister Register.sp (c.sp + 1)).jump c.top) := by
  have hraised : c.raiseStack = .ok (c.setRegister Register.sp (c.sp + 1)) := if_neg h
  rw [execute, hraised]
  rfl

end Cpu

namespace Machine

/-- Any number of successful steps lead here from `start`, and none of them puts a byte on the stack
while the stack pointer is at `base`. -/
inductive Undisturbed (base : UInt8) (start : Machine) : Machine → Prop
  | start : Undisturbed base start start
  | step {m next : Machine} {i : Instruction} : Undisturbed base start m →
      m.memory.HoldsAt m.pc i.encode → m.step = .ok next → (i.stores = true → m.sp ≠ base) →
      Undisturbed base start next

variable {m called later : Machine}

theorem Undisturbed.read_eq {base : UInt8} {start : Machine} (h : Undisturbed base start m) :
    m.memory.read (base - 1) = start.memory.read (base - 1) := by
  induction h with
  | start => rfl
  | step _ hi hstep hbase ih =>
    exact (Cpu.read_of_execute (execute_of_step hstep hi) hbase).trans ih

/-- A return goes back to right after the call, and the stack pointer to where it stood before it, if
it takes what the call has left and nothing was put in the place of that. -/
theorem ret_resumes_after_call {a : Register}
    (hcall : m.memory.HoldsAt m.pc (Instruction.call a).encode) (hstep : m.step = .ok called)
    (hbody : Undisturbed m.sp called later)
    (hret : later.memory.HoldsAt later.pc Instruction.ret.encode) (hactive : later.halted = false)
    (hsp : later.sp = m.sp - 1) :
    ∃ next, later.step = .ok next ∧ next.pc = m.pc + 2 ∧ next.sp = m.sp := by
  obtain ⟨hne, hslot⟩ := Cpu.slot_of_call (execute_of_step hstep hcall)
  have hroom : later.sp ≠ 255 := by
    intro hfull
    have htop : (m.sp - 1).toNat = 255 := congrArg UInt8.toNat (hsp.symm.trans hfull)
    have hlt := m.sp.toNat_lt
    rw [Cpu.toNat_sub_one hne] at htop
    omega
  have hexecute := Cpu.execute_ret hroom
  refine ⟨_, step_of_execute hactive hret hexecute rfl, ?_, ?_⟩
  · rw [Cpu.pc_of_ret hexecute, Cpu.top, hsp, hbody.read_eq, hslot]
  · show (later.toCpu.setRegister Register.sp (later.sp + 1)).sp = m.sp
    rw [Cpu.sp_setRegister, if_pos rfl, hsp, UInt8.sub_add_cancel]

/-- A machine that runs a routine. This calls another one, which sets the stack pointer back to where
it was in the first and returns for both. -/
def returningForBoth : Machine where
  toCpu := Cpu.booted [0b10000010, 0, 6, 0b01010000, 0, 1, 0b10000010, 1, 11, 0b01010000, 1,
    0b10000010, 7, 0xF2, 0b00010001]

/-- That machine after a number of steps. -/
def returningForBothAt : Nat → Machine
  | 0 => returningForBoth
  | n + 1 => (returningForBothAt n).step.machine

theorem step_returningForBothAt {n : Nat} (h : (returningForBothAt n).step.error? = none) :
    (returningForBothAt n).step = .ok (returningForBothAt (n + 1)) :=
  Outcome.eq_ok_of_error? h

/-- The inner routine returns to right after the call of the outer one. -/
theorem ret_resumes_after_call_returningForBoth :
    (returningForBothAt 1).memory.HoldsAt (returningForBothAt 1).pc
        (Instruction.call 0).encode ∧
      Undisturbed (returningForBothAt 1).sp (returningForBothAt 2) (returningForBothAt 5) ∧
      (returningForBothAt 5).memory.HoldsAt (returningForBothAt 5).pc Instruction.ret.encode ∧
      ∃ next, (returningForBothAt 5).step = .ok next ∧ next.pc = 5 ∧ next.sp = 0xF3 := by
  have hcall : (returningForBothAt 1).memory.HoldsAt (returningForBothAt 1).pc
      (Instruction.call 0).encode := by decide +kernel
  have hcalled : (returningForBothAt 1).step = .ok (returningForBothAt 2) :=
    step_returningForBothAt (by decide +kernel)
  have hstart : (returningForBothAt 1).pc = 3 ∧ (returningForBothAt 1).sp = 0xF3 := by
    decide +kernel
  have hldi : (returningForBothAt 2).step = .ok (returningForBothAt 3) :=
    step_returningForBothAt (by decide +kernel)
  have hinner : (returningForBothAt 3).step = .ok (returningForBothAt 4) :=
    step_returningForBothAt (by decide +kernel)
  have hback : (returningForBothAt 4).step = .ok (returningForBothAt 5) :=
    step_returningForBothAt (by decide +kernel)
  have hload : Undisturbed (returningForBothAt 1).sp (returningForBothAt 2)
      (returningForBothAt 3) := by
    refine .step (i := .ldi 1 11) .start (by decide +kernel) hldi ?_
    intro hstores
    cases hstores
  have hnested : Undisturbed (returningForBothAt 1).sp (returningForBothAt 2)
      (returningForBothAt 4) := by
    refine .step (i := .call 1) hload (by decide +kernel) hinner ?_
    intro _
    decide +kernel
  have hbody : Undisturbed (returningForBothAt 1).sp (returningForBothAt 2)
      (returningForBothAt 5) := by
    refine .step (i := .ldi 7 0xF2) hnested (by decide +kernel) hback ?_
    intro hstores
    cases hstores
  have hret : (returningForBothAt 5).memory.HoldsAt (returningForBothAt 5).pc
      Instruction.ret.encode := by decide +kernel
  obtain ⟨next, hnext, hresumed, hsp⟩ := ret_resumes_after_call hcall hcalled hbody hret
    (by decide +kernel) (by decide +kernel)
  rw [hstart.1] at hresumed
  rw [hstart.2] at hsp
  exact ⟨hcall, hbody, hret, next, hnext, hresumed, hsp⟩

end Machine

end Ls8
