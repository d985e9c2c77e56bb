import Ls8.Machine.Run

/-!
# The stack as a list

The stack is a part of memory like any other, and the stack pointer a register like any other.
Main statement: while no instruction is told to write the stack pointer, and it does not rise above
where it stood at first, what lies between is a list, and the stack instructions work at its front
(`stack_is_list`).
-/

namespace Ls8

/-- The register that an instruction is told to write. -/
def Instruction.destination : Instruction → Option Register
  | pop a | ldi a _ | add a _ | mul a _ => some a
  | _ => none

/-- What becomes of the stack. -/
inductive StackMove where
  | put (byte : UInt8)
  | take
  | stay
  deriving DecidableEq, Repr

/-- A move on a list that has the top of the stack at its front. -/
def StackMove.onList : StackMove → List UInt8 → List UInt8
  | put byte, stack => byte :: stack
  | take, stack => stack.tail
  | stay, stack => stack

namespace Cpu

/-- The move that an instruction makes. A push reads its register after the stack pointer has been
lowered. -/
def stackMove (c : Cpu) : Instruction → StackMove
  | .push a => .put ((c.setRegister Register.sp (c.sp - 1)).register a)
  | .call _ => .put (UInt8.ofNat (c.pc + 2))
  | .pop _ | .ret => .take
  | _ => .stay

/-- A move as the stack pointer and the memory show it. -/
inductive Moved (c next : Cpu) : StackMove → Prop
  | put {byte : UInt8} : next.sp.toNat + 1 = c.sp.toNat →
      next.memory = c.memory.write next.sp byte → Moved c next (.put byte)
  | take : next.sp.toNat = c.sp.toNat + 1 → next.memory = c.memory → Moved c next .take
  | stay : next.sp = c.sp → next.memory = c.memory → Moved c next .stay

variable {c next : Cpu}

/-- What the program counter and the other registers are after a move has no part in it. -/
theorem Moved.of_same {saved : Cpu} {move : StackMove} (h : Moved c saved move)
    (hsp : next.sp = saved.sp) (hmemory : next.memory = saved.memory) : Moved c next move := by
  cases h with
  | put hpointer hwritten =>
    rw [← hsp] at hpointer hwritten
    exact .put hpointer (hmemory.trans hwritten)
  | take hpointer hkept => exact .take (hsp ▸ hpointer) (hmemory.trans hkept)
  | stay hpointer hkept => exact .stay (hsp.trans hpointer) (hmemory.trans hkept)

theorem moved_of_pushed {value : Cpu → UInt8} (h : c.pushed value = .ok next) :
    Moved c next (.put (value (c.setRegister Register.sp (c.sp - 1)))) := by
  obtain ⟨hsp, rfl⟩ := pushed_eq_ok h
  have hlowered : ((c.setRegister Register.sp (c.sp - 1)).store (c.sp - 1)
      (value (c.setRegister Register.sp (c.sp - 1)))).sp = c.sp - 1 := by
    rw [sp, register_store, register_setRegister, if_pos rfl]
  have hpos : 0 < c.sp.toNat := Nat.pos_of_ne_zero fun e => hsp (UInt8.toNat_inj.1 e)
  refine .put ?_ ?_
  · rw [hlowered, toNat_sub_one hsp, Nat.sub_add_cancel hpos]
  · rw [hlowered]
    rfl

theorem moved_of_raiseStack (h : c.raiseStack = .ok next) : Moved c next .take := by
  obtain ⟨hsp, rfl⟩ := raiseStack_eq_ok h
  refine .take ?_ rfl
  rw [sp_setRegister, if_pos rfl, toNat_add_one hsp]

/-- An instruction that is not told to write the stack pointer makes its move, and no other. -/
theorem moved_of_execute {i : Instruction} (h : c.execute i = .ok next)
    (hdestination : i.destination ≠ some Register.sp) : Moved c next (c.stackMove i) := by
  have hsp : ∀ a value, i.destination = some a → (c.setRegister a value).sp = c.sp := by
    intro a value ha
    have hne : Register.sp ≠ a := fun e => hdestination (e ▸ ha)
    rw [sp_setRegister, if_neg hne]
  cases i with
  | push a =>
    obtain ⟨saved, hsaved, hlast⟩ := bind_eq_ok_iff.1 h
    cases hlast
    exact (moved_of_pushed hsaved).of_same rfl rfl
  | call a =>
    obtain ⟨target, htarget, hrest⟩ := bind_eq_ok_iff.1 h
    obtain ⟨saved, hsaved, hlast⟩ := bind_eq_ok_iff.1 hrest
    have hbyte : UInt8.ofNat (c.pc + 2) = target := by
      rw [← toNat_returnAddress htarget, UInt8.ofNat_toNat]
    cases hlast
    rw [stackMove, hbyte]
    exact (moved_of_pushed hsaved).of_same rfl rfl
  | ret =>
    obtain ⟨raised, hraised, hlast⟩ := bind_eq_ok_iff.1 h
    cases hlast
    exact (moved_of_raiseStack hraised).of_same rfl rfl
  | pop a =>
    obtain ⟨raised, hraised, hlast⟩ := bind_eq_ok_iff.1 h
    cases hlast
    -- what is raised is the pointer after the register is written, which is another register
    cases moved_of_raiseStack hraised with
    | take hpointer hmemory => exact .take (hsp a c.top rfl ▸ hpointer) hmemory
  | ldi a _ | add a _ | mul a _ =>
    cases h
    exact .stay (hsp a _ rfl) rfl
  | jeq _ | jne _ =>
    cases h
    refine .stay ?_ ?_ <;> split <;> rfl
  | hlt | prn _ | jmp _ | cmp _ _ =>
    cases h
    exact .stay rfl rfl

/-- A pop gives its register the top of the stack. -/
theorem register_of_pop {a : Register} (h : c.execute (.pop a) = .ok next) (ha : a ≠ Register.sp) :
    next.register a = c.top := by
  obtain ⟨_, rfl⟩ := execute_pop_eq_ok h
  show ((c.setRegister a c.top).setRegister Register.sp _).register a = c.top
  rw [register_setRegister, if_neg ha, register_setRegister, if_pos rfl]

/-- A return goes on at the top of the stack. -/
theorem pc_of_ret (h : c.execute .ret = .ok next) : next.pc = c.top.toNat := by
  obtain ⟨_, rfl⟩ := execute_ret_eq_ok h
  rfl

end Cpu

namespace Machine

/-- A step of an instruction that is not told to write the stack pointer, and does not bring it
above a base. -/
structure StackStep (base : UInt8) (m : Machine) (i : Instruction) (next : Machine) : Prop where
  step_eq : m.step = .ok next
  instruction : m.memory.HoldsAt m.pc i.encode
  destination_ne : i.destination ≠ some Register.sp
  sp_le : next.sp ≤ base

/-- Any number of such steps lead here from `start`. On the way a list is kept, which is empty at
the start, and how low the stack pointer has been. -/
inductive StackRun (start : Machine) : Machine → List UInt8 → Nat → Prop
  | start : StackRun start start [] start.sp.toNat
  | step {m next : Machine} {stack : List UInt8} {lowest : Nat} {i : Instruction} :
      StackRun start m stack lowest → StackStep start.sp m i next →
      StackRun start next ((m.toCpu.stackMove i).onList stack) (min lowest next.sp.toNat)

variable {start m next : Machine} {stack : List UInt8} {lowest : Nat} {i : Instruction}

theorem StackStep.execute_eq {base : UInt8} (h : StackStep base m i next) :
    m.toCpu.execute i = .ok next.toCpu :=
  execute_of_step h.step_eq h.instruction

theorem StackStep.moved {base : UInt8} (h : StackStep base m i next) :
    Cpu.Moved m.toCpu next.toCpu (m.toCpu.stackMove i) :=
  Cpu.moved_of_execute h.execute_eq h.destination_ne

/-- The list lies in memory from the stack pointer up to where that stood at the start, and nothing
has been written above, nor below the lowest place of the stack pointer. -/
structure Stacked (start m : Machine) (stack : List UInt8) (lowest : Nat) : Prop where
  sp_add_length : m.sp.toNat + stack.length = start.sp.toNat
  holds : m.memory.HoldsAt m.sp.toNat stack
  lowest_le : lowest ≤ m.sp.toNat
  kept : ∀ address, start.sp.toNat ≤ address ∨ address < lowest →
    m.memory.fetch? address = start.memory.fetch? address

namespace Stacked

theorem refl (start : Machine) : Stacked start start [] start.sp.toNat where
  sp_add_length := rfl
  holds := trivial
  lowest_le := Nat.le_refl _
  kept _ _ := rfl

/-- The pointer is raised from the base by no step, so the list has a front when a byte is taken. -/
theorem eq_cons_of_take (h : Stacked start m stack lowest)
    (hmove : Cpu.Moved m.toCpu next.toCpu .take) (hle : next.sp ≤ start.sp) :
    ∃ rest, stack = m.top :: rest := by
  have hlength := h.sp_add_length
  have hle := UInt8.le_iff_toNat_le.1 hle
  cases hmove with
  | take hpointer hmemory =>
    cases stack with
    | nil =>
      rw [List.length_nil] at hlength
      omega
    | cons front rest =>
      have htop := h.holds.1
      rw [Memory.fetch?_toNat] at htop
      cases htop
      exact ⟨rest, rfl⟩

theorem put (h : Stacked start m stack lowest) {byte : UInt8}
    (hmove : Cpu.Moved m.toCpu next.toCpu (.put byte)) :
    Stacked start next (byte :: stack) (min lowest next.sp.toNat) := by
  have hlength := h.sp_add_length
  cases hmove with
  | put hpointer hmemory =>
    refine ⟨?_, ⟨?_, ?_⟩, Nat.min_le_right _ _, ?_⟩
    · rw [List.length_cons]
      omega
    · rw [hmemory, Memory.fetch?_write, if_pos rfl]
    · -- the byte goes in front of the list, which the write does not reach
      rw [hmemory, hpointer]
      exact h.holds.write_of_lt (by omega) byte
    · intro address haddress
      have hne : address ≠ next.sp.toNat := by omega
      rw [hmemory, Memory.fetch?_write, if_neg hne]
      exact h.kept address (by omega)

theorem take (h : Stacked start m stack lowest) (hmove : Cpu.Moved m.toCpu next.toCpu .take)
    (hle : next.sp ≤ start.sp) : Stacked start next stack.tail (min lowest next.sp.toNat) := by
  obtain ⟨rest, rfl⟩ := h.eq_cons_of_take hmove hle
  have hlength := h.sp_add_length
  rw [List.length_cons] at hlength
  cases hmove with
  | take hpointer hmemory =>
    refine ⟨?_, ?_, Nat.min_le_right _ _, ?_⟩
    · rw [List.tail_cons]
      omega
    · rw [hmemory, hpointer]
      exact h.holds.2
    · intro address haddress
      rw [hmemory]
      exact h.kept address (by omega)

theorem stay (h : Stacked start m stack lowest) (hmove : Cpu.Moved m.toCpu next.toCpu .stay) :
    Stacked start next stack (min lowest next.sp.toNat) := by
  cases hmove with
  | stay hpointer hmemory =>
    rw [hpointer, Nat.min_eq_left h.lowest_le]
    refine ⟨?_, ?_, ?_, ?_⟩
    · rw [hpointer]
      exact h.sp_add_length
    · rw [hpointer, hmemory]
      exact h.holds
    · rw [hpointer]
      exact h.lowest_le
    · rw [hmemory]
      exact h.kept

theorem step (h : Stacked start m stack lowest) (hstep : StackStep start.sp m i next) :
    Stacked start next ((m.toCpu.stackMove i).onList stack) (min lowest next.sp.toNat) := by
  have hmove := hstep.moved
  cases hmoved : m.toCpu.stackMove i with
  | put byte => exact h.put (hmoved ▸ hmove)
  | take => exact h.take (hmoved ▸ hmove) hstep.sp_le
  | stay => exact h.stay (hmoved ▸ hmove)

end Stacked

theorem StackRun.stacked (h : StackRun start m stack lowest) : Stacked start m stack lowest := by
  induction h with
  | start => exact .refl start
  | step _ hstep ih => exact ih.step hstep

/-- The stack is a list. It reaches from the stack pointer up to where that stood at the start, its
front is what a pop or a return is given, and memory outside of it and of where it has been is as
it was. -/
theorem stack_is_list (h : StackRun start m stack lowest) :
    (stack.length ≤ start.sp.toNat ∧ m.sp.toNat = start.sp.toNat - stack.length) ∧
    (∀ (i : Nat) (hi : i < stack.length), m.memory.fetch? (m.sp.toNat + i) = some stack[i]) ∧
    (∀ (next : Machine) (a : Register), StackStep start.sp m (.pop a) next →
      ∃ rest, stack = next.register a :: rest) ∧
    (∀ next : Machine, StackStep start.sp m .ret next →
      ∃ front rest, stack = front :: rest ∧ next.pc = front.toNat) ∧
    ∀ address, start.sp.toNat ≤ address ∨ address < lowest →
      m.memory.fetch? address = start.memory.fetch? address := by
  have hstacked := h.stacked
  have hlength := hstacked.sp_add_length
  refine ⟨⟨?_, ?_⟩, hstacked.holds.fetch?_add, ?_, ?_, hstacked.kept⟩
  · omega
  · omega
  · intro next a hstep
    have ha : a ≠ Register.sp := fun e => hstep.destination_ne (congrArg some e)
    rw [Cpu.register_of_pop hstep.execute_eq ha]
    exact hstacked.eq_cons_of_take hstep.moved hstep.sp_le
  · intro next hstep
    obtain ⟨rest, hrest⟩ := hstacked.eq_cons_of_take hstep.moved hstep.sp_le
    exact ⟨m.top, rest, hrest, Cpu.pc_of_ret hstep.execute_eq⟩

/-- A step of a run when it has been worked out what it makes of the list and of the lowest place. -/
theorem StackRun.step_to {stack' : List UInt8} {lowest' : Nat} (h : StackRun start m stack lowest)
    (hstep : StackStep start.sp m i next) (hstack : (m.toCpu.stackMove i).onList stack = stack')
    (hlowest : min lowest next.sp.toNat = lowest') : StackRun start next stack' lowest' := by
  rw [← hstack, ← hlowest]
  exact h.step hstep

/-- A machine about to push its stack pointer and to call a routine, which returns to a pop. -/
def pushingAndCalling : Machine :=
  (new.load [0b01000101, 7, 0b10000010, 0, 9, 0b01010000, 0, 0b01000110, 1,
    (0b00010001 : UInt8)]).machine

/-- That machine after a number of steps. -/
def pushingAndCallingAt : Nat → Machine
  | 0 => pushingAndCalling
  | n + 1 => (pushingAndCallingAt n).step.machine

theorem stackStep_pushingAndCallingAt {n : Nat} {i : Instruction}
    (h : (pushingAndCallingAt n).step.error? = none ∧
      (pushingAndCallingAt n).memory.HoldsAt (pushingAndCallingAt n).pc i.encode ∧
      i.destination ≠ some Register.sp ∧
      (pushingAndCallingAt (n + 1)).sp ≤ pushingAndCalling.sp) :
    StackStep pushingAndCalling.sp (pushingAndCallingAt n) i (pushingAndCallingAt (n + 1)) :=
  ⟨Outcome.eq_ok_of_error? h.1, h.2.1, h.2.2.1, h.2.2.2⟩

/-- The routine returns to what the call put in front, and what was pushed before is popped. -/
theorem stack_is_list_pushingAndCalling :
    StackRun pushingAndCalling (pushingAndCallingAt 3) [7, 0xF2] 0xF1 ∧
      (pushingAndCallingAt 4).pc = 7 ∧
      StackRun pushingAndCalling (pushingAndCallingAt 4) [0xF2] 0xF1 ∧
      (pushingAndCallingAt 5).register 1 = 0xF2 := by
  have hpush : StackStep _ (pushingAndCallingAt 0) (.push 7) (pushingAndCallingAt 1) :=
    stackStep_pushingAndCallingAt (by decide +kernel)
  have hldi : StackStep _ (pushingAndCallingAt 1) (.ldi 0 9) (pushingAndCallingAt 2) :=
    stackStep_pushingAndCallingAt (by decide +kernel)
  have hcall : StackStep _ (pushingAndCallingAt 2) (.call 0) (pushingAndCallingAt 3) :=
    stackStep_pushingAndCallingAt (by decide +kernel)
  have hret : StackStep _ (pushingAndCallingAt 3) .ret (pushingAndCallingAt 4) :=
    stackStep_pushingAndCallingAt (by decide +kernel)
  have hpop : StackStep _ (pushingAndCallingAt 4) (.pop 1) (pushingAndCallingAt 5) :=
    stackStep_pushingAndCallingAt (by decide +kernel)
  have hpushed : StackRun pushingAndCalling (pushingAndCallingAt 1) [0xF2] 0xF2 :=
    StackRun.start.step_to hpush (by decide +kernel) (by decide +kernel)
  have hset : StackRun pushingAndCalling (pushingAndCallingAt 2) [0xF2] 0xF2 :=
    hpushed.step_to hldi (by decide +kernel) (by decide +kernel)
  have hcalled : StackRun pushingAndCalling (pushingAndCallingAt 3) [7, 0xF2] 0xF1 :=
    hset.step_to hcall (by decide +kernel) (by decide +kernel)
  have hreturned : StackRun pushingAndCalling (pushingAndCallingAt 4) [0xF2] 0xF1 :=
    hcalled.step_to hret (by decide +kernel) (by decide +kernel)
  obtain ⟨front, rest, hfront, hpc⟩ := (stack_is_list hcalled).2.2.2.1 _ hret
  obtain ⟨rest', hpopped⟩ := (stack_is_list hreturned).2.2.1 _ _ hpop
  rw [List.cons.injEq] at hfront hpopped
  rw [← hfront.1] at hpc
  exact ⟨hcalled, hpc, hreturned, hpopped.1.symm⟩

end Machine

end Ls8
