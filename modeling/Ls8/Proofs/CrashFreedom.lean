import Ls8.Proofs.Reachable

/-!
# Reachable machines do not crash

Every position in memory, register and sum that a machine uses is in range, whatever is loaded into
it, written to it or executed by it, and its errors carry only what they can. Main statement: all of
this holds of every reachable machine (`Reachable.confined`). The one thing about the machine that
it rests on is that the program counter is never further than just past the end of memory.
-/

namespace Ls8

open Log (Record)

/-- Whether the machine goes on with the next instruction after this one. -/
def Instruction.advances (flags : Flags) : Instruction → Bool
  | .hlt | .ret | .call _ | .jmp _ => false
  | .jeq _ => !flags.equal
  | .jne _ => flags.equal
  | .push _ | .pop _ | .prn _ | .ldi _ _ | .add _ _ | .mul _ _ | .cmp _ _ => true

/-- What the error of a failed step may carry, on the machine that it leaves. -/
def Failure.Confined (failure : Failure) : Prop :=
  match failure.error with
  | .addressOutOfRange address => address = 256
  | .illegalInstruction opcode address =>
    address = failure.machine.pc ∧ address ≤ 255 ∧
      failure.machine.memory.fetch? address = some opcode ∧ ∀ op : Opcode, op.byte ≠ opcode
  | .invalidRegister byte => 8 ≤ byte.toNat ∧ byte.toNat ≤ 255
  | .machineHalted => failure.machine.halted = true
  | .programTooLarge _ => False
  | .stackOverflow | .stackUnderflow | .output _ => True

/-- All that is known of a machine that can come about. -/
structure Machine.Confined (m : Machine) : Prop where
  pc_le : m.pc ≤ 256
  advance : ∀ next, m.step = .ok next → ∃ i : Instruction, m.memory.HoldsAt m.pc i.encode ∧
    m.pc + i.width ≤ 256 ∧ (i.advances m.flags = true → next.pc = m.pc + i.width)
  load : ∀ bytes, Action.CrashFree (Action.load bytes) m
  /-- Any step of a run, the first one included. -/
  step : ∀ n logged, Action.CrashFree (Action.step logged) (m.stepUpTo n).machine
  trace : Action.CrashFree Action.trace m
  push : ∀ value : Registers → Action UInt8,
    (∀ registers s, Action.CrashFree (value registers) s) → Action.CrashFree (Action.push value) m
  popInto : ∀ a < 8, Action.CrashFree (Action.popInto a) m
  pop : Action.CrashFree Action.pop m
  alu : ∀ op, ∀ a < 8, ∀ b < 8, Action.CrashFree (Action.alu op a b) m
  step_error : ∀ failure, m.step = .error failure → failure.Confined
  run_error : ∀ failure, m.run = some (.error failure) →
    failure.Confined ∧ failure.error ≠ .machineHalted

/-! ## Going on with the next instruction -/

theorem Cpu.pc_of_execute {c next : Cpu} {i : Instruction} (h : c.execute i = .ok next)
    (hadvances : i.advances c.flags = true) : next.pc = c.pc + i.width := by
  cases i with
  | hlt | ret | call _ | jmp _ => cases hadvances
  | push a =>
    obtain ⟨_, rfl⟩ := execute_push_eq_ok h
    rfl
  | pop a =>
    obtain ⟨_, rfl⟩ := execute_pop_eq_ok h
    rfl
  | jeq a =>
    have hunequal : c.flags.equal = false := by simpa [Instruction.advances] using hadvances
    cases h
    rw [hunequal]
    rfl
  | jne a =>
    have hequal : c.flags.equal = true := hadvances
    cases h
    rw [hequal]
    rfl
  | prn _ | ldi _ _ | add _ _ | mul _ _ | cmp _ _ =>
    cases h
    rfl

namespace Action

variable {m : Machine}

/-! ## Actions that do not crash -/

theorem CrashFree.of_ok {α : Type} {action : Action α} {value : α} {next : List Record → Watched}
    (h : ∀ records, action.run ⟨m, records⟩ = .ok value (next records)) : CrashFree action m := by
  intro records cause left hcrash
  rw [h] at hcrash
  cases hcrash

theorem crashFree_push {value : Registers → Action UInt8}
    (hvalue : ∀ registers s, CrashFree (value registers) s) : CrashFree (push value) m := by
  intro records cause left hcrash
  simp only [push, EStateM.run_bind, run_readRegister] at hcrash
  by_cases htop : m.register Register.sp = 0
  · simp [htop] at hcrash
  · simp only [htop, if_false, EStateM.run_bind, run_decrement htop, run_writeRegister,
      EStateM.run_get] at hcrash
    -- whatever the value did, the place it goes to is a byte, hence inside memory
    split at hcrash
    · rw [run_writeMemory] at hcrash
      cases hcrash
    · next stop left hstopped =>
      cases hcrash
      exact hvalue _ _ _ _ _ hstopped

theorem crashFree_popInto {a : Nat} (ha : a < 8) : CrashFree (popInto a) m := by
  intro records cause left hcrash
  have hrun := run_popInto (m := ⟨m, records⟩) ⟨a, ha⟩
  cases hraised : (m.toCpu.setRegister ⟨a, ha⟩ m.top).raiseStack with
  | ok raised =>
    rw [hrun, hraised] at hcrash
    cases hcrash
  | error error =>
    rw [hrun, hraised] at hcrash
    cases hcrash

theorem crashFree_pop : CrashFree pop m := by
  intro records cause left hcrash
  rw [run_pop] at hcrash
  split at hcrash <;> cases hcrash

theorem crashFree_step (hpc : m.pc ≤ 256) (logged : Bool) : CrashFree (step logged) m := by
  have hlogged : m.pc + 2 < UInt64.size := lt_word_of_le (by omega)
  exact crashFree_of_run (m.run_step_eq_result logged fun _ => hlogged)

end Action

namespace Machine

variable {m : Machine}

/-! ## Errors -/

theorem confined_of_refusal (hpc : m.pc ≤ 256) {error : Error} (h : m.toCpu.Refusal error) :
    Failure.Confined ⟨error, m⟩ := by
  rw [Failure.Confined]
  cases h with
  | illegalInstruction opcode hopcode hnone =>
    have hlt : m.pc < 256 := Cpu.lt_of_fetch_eq_ok (Cpu.fetch_eq_ok_iff.2 hopcode)
    exact ⟨rfl, Nat.le_of_lt_succ hlt, hopcode, hnone⟩
  | addressOutOfRange => exact Nat.max_eq_right hpc
  | invalidRegister byte hbyte => exact ⟨hbyte, Nat.le_of_lt_succ byte.toNat_lt⟩
  | stackOverflow _ => trivial
  | stackUnderflow => trivial

theorem confined_of_step_error (hpc : m.pc ≤ 256) {failure : Failure}
    (h : m.step = .error failure) : failure.Confined := by
  rcases step_eq_error h with ⟨hhalted, rfl⟩ | ⟨_, ⟨hrefusal, rfl⟩ | ⟨i, _, _, rfl⟩⟩
  · exact hhalted
  · exact confined_of_refusal hpc hrefusal
  · trivial

end Machine

/-- Nothing that can be asked of a machine that can come about crashes. -/
theorem Reachable.confined {m : Machine} (h : Reachable m) : m.Confined where
  pc_le := h.pc_le
  advance := by
    intro next hstep
    obtain ⟨_, i, hdecode, hexecute, _⟩ := Machine.step_eq_ok_iff.1 hstep
    have hholds := Cpu.decode_eq_ok_iff.1 hdecode
    exact ⟨i, hholds, Cpu.pc_add_width_le hdecode, Cpu.pc_of_execute hexecute⟩
  load := fun bytes => Action.crashFree_of_run (Machine.run_load_eq_result m bytes)
  step := by
    intro n logged
    have hlater := Machine.stepUpTo_preserves (fun _ => Reachable.step) n m h
    exact Action.crashFree_step hlater.pc_le logged
  trace := by
    have hpc := h.pc_le
    have hwindow : m.pc + 2 < UInt64.size := Action.lt_word_of_le (by omega)
    have htrace (records : List Record) :
        Action.trace.run ⟨m, records⟩ = .ok m.trace ⟨m, records⟩ := Action.run_trace hwindow
    exact .of_ok htrace
  push := by
    intro value hvalue
    exact Action.crashFree_push hvalue
  popInto := by
    intro a ha
    exact Action.crashFree_popInto ha
  pop := Action.crashFree_pop
  alu := by
    intro op a ha b hb
    exact .of_ok fun records => Action.run_alu (m := ⟨m, records⟩) op ⟨a, ha⟩ ⟨b, hb⟩
  step_error := fun _ => Machine.confined_of_step_error h.pc_le
  run_error := by
    intro failure hrun
    obtain ⟨before, hbefore, hactive, hstep⟩ := h.exists_step_of_run_error hrun
    refine ⟨Machine.confined_of_step_error hbefore.pc_le hstep, ?_⟩
    intro herror
    have hhalted := (Machine.halted_iff_of_step_error hstep).2 herror
    rw [hactive] at hhalted
    cases hhalted

/-- A machine that has printed with the last two bytes of memory and not halted. -/
def Machine.pastTheEnd : Machine :=
  let setUp := (new.load [0b10000010, 0, 254, 0b01010100, (0 : UInt8)]).machine
  (setUp.write 254 0b01000111).step.machine.step.machine.step.machine

theorem Reachable.pastTheEnd : Reachable Machine.pastTheEnd := by
  have hloaded := (Reachable.start Sink.unlimited).load [0b10000010, 0, 254, 0b01010100, 0]
  exact (hloaded.write 254 0b01000111).step.step.step

/-- Just past the end of memory, a machine is as safe as anywhere else. -/
theorem Reachable.confined_pastTheEnd : Reachable Machine.pastTheEnd ∧
    Machine.pastTheEnd.pc = 256 ∧ Machine.pastTheEnd.Confined := by
  have hpc : Machine.pastTheEnd.pc = 256 := by decide +kernel
  exact ⟨Reachable.pastTheEnd, hpc, Reachable.confined Reachable.pastTheEnd⟩

end Ls8
