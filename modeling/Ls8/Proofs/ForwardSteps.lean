import Ls8.Proofs.CrashFreedom
import Ls8.Proofs.RunSteps

/-!
# Going forward

Memory has an end, and whatever does not transfer control goes on behind itself. Main statement: a
machine that never goes back takes no more steps than there are addresses from the program counter
on, so a run that takes more has gone back on the way, and one that never goes back ends
(`forward_steps_within_memory`). What carries it is that each forward step leaves fewer addresses
ahead, a halt apart, after which there is no step.
-/

namespace Ls8

/-- Whether an instruction goes on at an address that is given to it: a return, a call, a jump, or a
conditional jump that is taken. -/
def Instruction.transfers (flags : Flags) : Instruction → Bool
  | .ret | .call _ | .jmp _ => true
  | .jeq _ => flags.equal
  | .jne _ => !flags.equal
  | .hlt | .push _ | .pop _ | .prn _ | .ldi _ _ | .add _ _ | .mul _ _ | .cmp _ _ => false

/-- What neither halts nor transfers control goes on with the next instruction. -/
theorem Instruction.advances_of_not_transfers {i : Instruction} {flags : Flags} (hi : i ≠ .hlt)
    (h : i.transfers flags = false) : i.advances flags = true := by
  cases i with
  | hlt => exact absurd rfl hi
  | ret | call _ | jmp _ => cases h
  | jeq _ =>
    have hunequal : flags.equal = false := h
    exact congrArg not hunequal
  | jne _ => simpa [transfers, advances] using h
  | push _ | pop _ | prn _ | ldi _ _ | add _ _ | mul _ _ | cmp _ _ => rfl

theorem Instruction.width_pos (i : Instruction) : 0 < i.width :=
  Nat.lt_of_lt_of_eq (Nat.succ_pos _) i.length_encode

namespace Machine

/-- The next step succeeds and transfers control to an address that is not above its own. -/
def TurnsBack (m : Machine) : Prop :=
  ∃ (i : Instruction) (next : Machine), m.memory.HoldsAt m.pc i.encode ∧ m.step = .ok next ∧
    i.transfers m.flags = true ∧ next.pc ≤ m.pc

/-- So many steps, none of which fails or turns back, lead from one machine to another. -/
inductive ForwardSteps : Nat → Machine → Machine → Prop
  | zero (m : Machine) : ForwardSteps 0 m m
  | succ {m next last : Machine} {n : Nat} : m.step = .ok next → ¬ m.TurnsBack →
      ForwardSteps n next last → ForwardSteps (n + 1) m last

variable {m next last : Machine} {n : Nat}

/-! ## One step -/

/-- A step that succeeds was taken inside memory. -/
theorem pc_lt_of_step_ok (h : m.step = .ok next) : m.pc < 256 := by
  obtain ⟨_, i, hdecode, _⟩ := step_eq_ok_iff.1 h
  have hinside : m.pc + i.width ≤ 256 := Cpu.pc_add_width_le hdecode
  have hwidth := i.width_pos
  omega

/-- A step that does not turn back either halts the machine where it is or brings it further. -/
theorem pc_of_step_forward (h : m.step = .ok next) (hforward : ¬ m.TurnsBack) :
    next.halted = true ∧ next.pc = m.pc ∨ m.pc < next.pc := by
  obtain ⟨_, i, hdecode, hexecute, _⟩ := step_eq_ok_iff.1 h
  have hi := Cpu.decode_eq_ok_iff.1 hdecode
  by_cases hhlt : i = .hlt
  · subst hhlt
    refine .inl ⟨(halted_iff_of_step_ok h hi).2 rfl, ?_⟩
    rw [toCpu_of_step_hlt h hi]
  · right
    cases htransfers : i.transfers m.flags with
    | true =>
      apply Nat.lt_of_not_le
      intro hle
      exact hforward ⟨i, next, hi, h, htransfers, hle⟩
    | false =>
      rw [Cpu.pc_of_execute hexecute (Instruction.advances_of_not_transfers hhlt htransfers)]
      exact Nat.lt_add_of_pos_right i.width_pos

theorem not_turnsBack_of_step (h : m.step = .ok next)
    (hpc : next.halted = true ∨ m.pc < next.pc) : ¬ m.TurnsBack := by
  rintro ⟨i, other, hi, hother, htransfers, hle⟩
  rw [h] at hother
  cases hother
  rcases hpc with hhalted | hlt
  · -- only a halt halts the machine, and it transfers nothing
    obtain rfl := (halted_iff_of_step_ok h hi).1 hhalted
    cases htransfers
  · exact Nat.not_lt.2 hle hlt

/-! ## Any number of steps -/

namespace ForwardSteps

theorem steps (h : ForwardSteps n m last) : Steps n m last := by
  induction h with
  | zero m => exact .zero m
  | succ hstep _ _ ih => exact .succ hstep ih

/-- Each address ahead is good for one step at most. -/
theorem le_sub_pc (h : ForwardSteps n m last) : n ≤ 256 - m.pc := by
  induction h with
  | zero m => exact Nat.zero_le _
  | @succ m next last n hstep hforward hrest ih =>
    have hinside := pc_lt_of_step_ok hstep
    rcases pc_of_step_forward hstep hforward with ⟨hhalted, _⟩ | hlt
    · cases hrest with
      | zero => omega
      | succ hnext _ _ =>
        rw [active_of_step hnext] at hhalted
        cases hhalted
    · have hle := pc_le_of_step_ok hstep
      omega

end ForwardSteps

/-- Steps go forward all the way, or one of them turns back. -/
theorem Steps.forward_or_turnsBack (h : Steps n m last) :
    ForwardSteps n m last ∨ ∃ k < n, ∃ before, Steps k m before ∧ before.TurnsBack := by
  induction h with
  | zero m => exact .inl (.zero m)
  | @succ m next last n hstep _ ih =>
    by_cases hback : m.TurnsBack
    · exact .inr ⟨0, Nat.succ_pos n, m, .zero m, hback⟩
    · rcases ih with hforward | ⟨k, hk, before, hsteps, hturn⟩
      · exact .inl (.succ hstep hback hforward)
      · exact .inr ⟨k + 1, Nat.succ_lt_succ hk, before, .succ hstep hsteps, hturn⟩

/-- More steps than there are addresses do not go forward all the way. -/
theorem exists_turnsBack (h : Steps 257 m last) :
    ∃ k < 257, ∃ before, Steps k m before ∧ before.TurnsBack := by
  rcases h.forward_or_turnsBack with hforward | hback
  · have hle := hforward.le_sub_pc
    omega
  · exact hback

/-- A machine that never turns back ends, in so many forward steps, by a halt or by a failure. -/
theorem run_of_forward (h : ∀ k before, Steps k m before → ¬ before.TurnsBack) :
    ∃ n last, ForwardSteps n m last ∧
      (last.halted = true ∧ m.run = some (.ok last) ∨
        ∃ failure, last.step = .error failure ∧ m.run = some (.error failure)) := by
  have hforward (n : Nat) (last : Machine) (hsteps : Steps n m last) : ForwardSteps n m last := by
    refine hsteps.forward_or_turnsBack.resolve_right ?_
    rintro ⟨k, _, before, hbefore, hback⟩
    exact h k before hbefore hback
  cases hrun : m.run with
  | none =>
    obtain ⟨last, hsteps, _⟩ := run_eq_none_iff_steps.1 hrun 257
    obtain ⟨k, _, before, hbefore, hback⟩ := exists_turnsBack hsteps
    exact absurd hback (h k before hbefore)
  | some o =>
    cases o with
    | ok last =>
      obtain ⟨n, hsteps⟩ := steps_of_run_ok hrun
      exact ⟨n, last, hforward n last hsteps, .inl ⟨halted_of_run_ok hrun, rfl⟩⟩
    | error failure =>
      obtain ⟨_, n, _, last, hsteps, _, hstep⟩ := last_step_of_run (active_of_run_error hrun) hrun
      exact ⟨n, last, hforward n last hsteps, .inr ⟨failure, hstep, rfl⟩⟩

/-- Steps that never turn back are no more than there are addresses from the program counter on:
each of them brings it further, up to the end of memory, unless it is a halt, which is the last. So a
run ends within as many steps, by a halt or by a failure, unless it turns back on the way, and of any
257 steps one turns back. -/
theorem forward_steps_within_memory (m : Machine) :
    (∀ n last, ForwardSteps n m last → n ≤ 256 - m.pc) ∧
    (∀ next, m.step = .ok next → ¬ m.TurnsBack →
      next.halted = true ∧ next.pc = m.pc ∧ next.pc < 256 ∨ m.pc < next.pc ∧ next.pc ≤ 256) ∧
    ((∃ n ≤ 256 - m.pc, ∃ last, ForwardSteps n m last ∧
        (last.halted = true ∧ m.run = some (.ok last) ∨
          ∃ failure, last.step = .error failure ∧ m.run = some (.error failure))) ∨
      ∃ k before, Steps k m before ∧ before.TurnsBack) ∧
    ∀ last, Steps 257 m last → ∃ k < 257, ∃ before, Steps k m before ∧ before.TurnsBack := by
  refine ⟨fun n last => ForwardSteps.le_sub_pc, ?_, ?_, fun last => exists_turnsBack⟩
  · intro next hstep hforward
    refine (pc_of_step_forward hstep hforward).imp ?_ fun hlt => ⟨hlt, pc_le_of_step_ok hstep⟩
    rintro ⟨hhalted, hpc⟩
    exact ⟨hhalted, hpc, hpc ▸ pc_lt_of_step_ok hstep⟩
  · by_cases hback : ∃ k before, Steps k m before ∧ before.TurnsBack
    · exact .inr hback
    · have hforward : ∀ k before, Steps k m before → ¬ before.TurnsBack :=
        fun k before hsteps hturn => hback ⟨k, before, hsteps, hturn⟩
      obtain ⟨n, last, hsteps, hend⟩ := run_of_forward hforward
      exact .inl ⟨n, hsteps.le_sub_pc, last, hsteps, hend⟩

/-- A machine that jumps to the last byte but one, where it returns to the last one, which is a
halt. -/
def hopping : Machine :=
  let setUp := (new.load [0b10000010, 7, 8, 0b10000010, 0, 254, 0b01010100, 0, (255 : UInt8)]).machine
  (setUp.write 254 0b00010001).write 255 0b00000001

/-- That machine after a number of steps. -/
def hoppingAt : Nat → Machine
  | 0 => hopping
  | n + 1 => (hoppingAt n).step.machine

theorem step_hoppingAt {n : Nat} (h : (hoppingAt n).step.error? = none) :
    (hoppingAt n).step = .ok (hoppingAt (n + 1)) :=
  Outcome.eq_ok_of_error? h

/-- Once it has jumped, the machine takes all the steps that are left to it, and a machine that goes
round in a circle has turned back within 257 of them. -/
theorem forward_steps_within_memory_hoppingAt :
    ForwardSteps 2 (hoppingAt 3) (hoppingAt 5) ∧ 2 ≤ 256 - (hoppingAt 3).pc ∧
      (hoppingAt 3).pc = 254 ∧ (hoppingAt 5).halted = true ∧
      ∃ k < 257, ∃ before, Steps k circling before ∧ before.TurnsBack := by
  have hret : (hoppingAt 3).step.error? = none ∧ (hoppingAt 3).pc = 254 ∧
      (hoppingAt 4).step.error? = none ∧ (hoppingAt 4).pc = 255 ∧
      (hoppingAt 5).halted = true := by decide +kernel
  obtain ⟨hfirst, hpc, hsecond, hnext, hhalted⟩ := hret
  have hreturn : (hoppingAt 3).step = .ok (hoppingAt 4) := step_hoppingAt hfirst
  have hhalt : (hoppingAt 4).step = .ok (hoppingAt 5) := step_hoppingAt hsecond
  have hahead : (hoppingAt 3).pc < (hoppingAt 4).pc := by
    rw [hpc, hnext]
    decide
  have hforward : ForwardSteps 2 (hoppingAt 3) (hoppingAt 5) :=
    .succ hreturn (not_turnsBack_of_step hreturn (.inr hahead))
      (.succ hhalt (not_turnsBack_of_step hhalt (.inl hhalted)) (.zero _))
  have hjump : circling.memory.HoldsAt circling.pc (Instruction.jmp 0).encode := by decide +kernel
  have hround : Steps 257 circling circling := .of_circle (step_of_execute rfl hjump rfl rfl) 257
  exact ⟨hforward, (forward_steps_within_memory _).1 _ _ hforward, hpc, hhalted,
    (forward_steps_within_memory circling).2.2.2 _ hround⟩

end Machine

end Ls8
